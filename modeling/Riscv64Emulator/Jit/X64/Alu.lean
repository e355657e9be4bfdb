import Mathlib.Tactic.Linarith
import Riscv64Emulator.Jit.X64.Compute

/-!
# The x64 code of computations against the ISA

When the emitted code of an RV64I computation gives `rd` the value the ISA defines. The
64-bit operations differ in the in-place form of the register-register operations, which
uses the immediate for the second operand; the 32-bit operations differ where a 64-bit
shift drags bits of the upper half along.
-/
namespace Riscv64Emulator

/-! ### Shifts that change nothing -/

theorem shiftLeft_eq_self_iff (a : Word) {n : Nat} (small : n < 64) :
    a <<< n = a ↔ n = 0 ∨ a = 0 := by
  constructor
  · intro same
    rcases Nat.eq_zero_or_pos n with zero | positive
    · exact Or.inl zero
    · right
      -- every bit repeats one further down, and those shifted in are zero
      have bits : ∀ k < 64, a.getLsbD k = false := by
        intro k
        induction k using Nat.strongRecOn with
        | ind k ih =>
          intro bound
          rw [← same, BitVec.getLsbD_shiftLeft]
          by_cases low : k < n
          · simp [low]
          · simp [ih (k - n) (by omega) (by omega)]
      exact BitVec.eq_of_getLsbD_eq fun k bound => by simp [bits k bound]
  · rintro (rfl | rfl) <;> simp

theorem ushiftRight_eq_self_iff (a : Word) (n : Nat) : a >>> n = a ↔ n = 0 ∨ a = 0 := by
  constructor
  · intro same
    rcases Nat.eq_zero_or_pos n with zero | positive
    · exact Or.inl zero
    · right
      apply BitVec.eq_of_toNat_eq
      have value := congrArg BitVec.toNat same
      rw [BitVec.toNat_ushiftRight, Nat.shiftRight_eq_div_pow] at value
      by_contra nonzero
      have shrinks := Nat.div_lt_self (Nat.pos_of_ne_zero nonzero)
        (Nat.one_lt_two_pow (Nat.pos_iff_ne_zero.mp positive))
      omega
  · rintro (rfl | rfl) <;> simp

theorem sshiftRight_eq_self_iff (a : Word) (n : Nat) :
    a.sshiftRight n = a ↔ n = 0 ∨ a = 0 ∨ a = -1 := by
  constructor
  · intro same
    rcases Nat.eq_zero_or_pos n with zero | positive
    · exact Or.inl zero
    · right
      have value := congrArg BitVec.toInt same
      rw [BitVec.toInt_sshiftRight, Int.shiftRight_eq_div_pow] at value
      have two : (2 : Int) ≤ ((2 ^ n : Nat) : Int) := by
        exact_mod_cast Nat.pow_le_pow_right (by decide : 0 < 2) positive
      -- a quotient equal to the dividend leaves only 0 and -1
      have ends : a.toInt = 0 ∨ a.toInt = -1 := by
        generalize ((2 ^ n : Nat) : Int) = d at value two
        have division := Int.mul_ediv_add_emod a.toInt d
        have low := Int.emod_nonneg a.toInt (by omega : d ≠ 0)
        have high := Int.emod_lt_of_pos a.toInt (by omega : 0 < d)
        rw [value] at division
        rcases lt_trichotomy a.toInt (-1) with below | equal | above
        · nlinarith
        · exact Or.inr equal
        · rcases (show a.toInt = 0 ∨ 0 < a.toInt by omega) with zero | positive
          · exact Or.inl zero
          · nlinarith
      rcases ends with zero | minus
      · exact Or.inl (BitVec.eq_of_toInt_eq zero)
      · exact Or.inr (BitVec.eq_of_toInt_eq minus)
  · rintro (rfl | rfl | rfl)
    · simp
    · simp
    · have ones : (-1 : Word) = BitVec.allOnes 64 := BitVec.neg_one_eq_allOnes
      rw [ones]
      apply BitVec.eq_of_getLsbD_eq
      intro k bound
      rw [BitVec.getLsbD_sshiftRight, BitVec.getLsbD_allOnes, BitVec.getLsbD_allOnes,
        BitVec.msb_allOnes (by decide)]
      by_cases inside : n + k < 64 <;> simp [inside, bound, show ¬64 ≤ k by omega]

namespace Jit.X64

open LinearCode

/-- The generator emits code for the instruction, and the code runs to its end with the
guest changed by `rd := v` and nothing else. -/
def SetsRegister (g : CodeGenerator) (i : Instruction) (n : Nat) (env : Env) (s : State)
    (v : Word) : Prop :=
  ∃ o, (g.generateInstruction i).run n = .ok o ∧ o.value = true ∧ o.exits = [] ∧
    ∃ s', exec (step env) o.code (.running s) = .running s' ∧
      s'.guest = s.guest.setRegister i.rd v

theorem setRegister_inj (guest : Guest) {r : Register} (nonzero : r ≠ Register.zero) (v w : Word) :
    guest.setRegister r v = guest.setRegister r w ↔ v = w := by
  constructor
  · intro equal
    have entry := congrArg (fun g => g.registers.get r) equal
    simpa [RegisterState.get_set_same _ r _ nonzero] using entry
  · rintro rfl
    rfl

/-- The value the code gives `rd` decides. -/
theorem setsRegister_iff {st : Setting} {size : Word} (g : CodeGenerator) {i : Instruction}
    (shape : InstructionDecoder.ImmediateOf i.type i.b)
    (kind : computesDirectly i.type = true) (n : Nat) {env : Env} {s : State}
    (anchored : Anchored st size env s) (v : Word) :
    SetsRegister g i n env s v ↔
      ¬CodeGenerator.NoCode i ∧ (i.rd = Register.zero ∨
        computedValue i g.currentPc s.guest.registers = v) := by
  constructor
  · rintro ⟨o, ran, -, -, s', run, guest⟩
    -- no code would be emitted
    have compilable : ¬CodeGenerator.NoCode i := by
      intro noCode
      obtain ⟨e, failed⟩ := run_noCode g noCode n
      rw [failed] at ran
      cases ran
    refine ⟨compilable, ?_⟩
    obtain ⟨code, ran', -, runs⟩ := does_computation st size g shape kind compilable n
    cases ran.symm.trans ran'
    obtain ⟨s₁, run₁, -, retires⟩ := runs env s anchored
    cases run.symm.trans run₁
    -- the code runs to one state, and a nonzero register shows which value it has there
    by_cases zero : i.rd = Register.zero
    · exact Or.inl zero
    · exact Or.inr ((setRegister_inj s.guest zero _ _).mp (retires.guest.symm.trans guest))
  · rintro ⟨compilable, value⟩
    obtain ⟨code, ran, -, runs⟩ := does_computation st size g shape kind compilable n
    obtain ⟨s₁, run₁, -, retires⟩ := runs env s anchored
    refine ⟨_, ran, rfl, rfl, s₁, run₁, retires.guest.trans ?_⟩
    rcases value with zero | equal
    · rw [zero, Guest.setRegister_zero, Guest.setRegister_zero]
    · rw [equal]

/-! ### 64-bit operations -/

/-- The register computations of full width. -/
def alu64 : InstructionType → Bool
  | .addi | .xori | .ori | .andi | .slli | .srli | .srai | .slti | .sltiu => true
  | .add | .sub | .xor | .or | .and | .sll | .srl | .sra | .slt | .sltu => true
  | _ => false

/-- When operating with 0 gives what operating with `b` gives. -/
def ZeroAgrees (type : InstructionType) (a b : Word) : Prop :=
  match type with
  | .add | .sub | .xor => b = 0
  | .or => a ||| b = a
  | .and => a &&& b = 0
  | .sll | .srl => Isa.shamt6 b = 0 ∨ a = 0
  | .sra => Isa.shamt6 b = 0 ∨ a = 0 ∨ a = -1
  | _ => True

/-- When the code of a 64-bit operation is right: it exists, and it is not the in-place
form of a register-register operation whose second operand matters. -/
def Alu64Agrees (i : Instruction) (r : RegisterState) : Prop :=
  ¬CodeGenerator.NoCode i ∧
    (i.rd = Register.zero ∨ i.rd ≠ i.rs1 ∨ ZeroAgrees i.type (r.get i.rs1) (r.get i.rs2))

/-- The operations whose in-place form uses 0. -/
private def hasInPlace : InstructionType → Bool
  | .add | .sub | .xor | .or | .and | .sll | .srl | .sra => true
  | _ => false

private theorem zeroAgrees_iff {type : InstructionType} (kind : hasInPlace type = true)
    (a b : Word) :
    operationValue type a 0 = operationValue type a b ↔ ZeroAgrees type a b := by
  have small := Nat.mod_lt b.toNat (by decide : 0 < 64)
  cases type <;> simp only [hasInPlace, Bool.false_eq_true] at kind <;>
    simp only [operationValue, hostOp, isWord, HostOp.apply, AluOp.apply, ShiftOp.apply, ZeroAgrees,
      Bool.false_eq_true, if_false, Isa.shamt6]
  -- the second operand is read as zero, which an operation shows unless the operand was neutral
  case add => constructor <;> intro equal <;> bv_omega
  case sub => constructor <;> intro equal <;> bv_omega
  case xor =>
    rw [BitVec.xor_right_inj]
    exact eq_comm
  case or =>
    rw [show a ||| (0 : Word) = a from BitVec.or_zero, eq_comm]
  case and =>
    rw [show a &&& (0 : Word) = 0 from BitVec.and_zero, eq_comm]
  case sll =>
    rw [eq_comm, show a <<< ((0 : Word).toNat % 64) = a from BitVec.shiftLeft_zero a,
      shiftLeft_eq_self_iff a small]
  case srl =>
    rw [eq_comm, show a >>> ((0 : Word).toNat % 64) = a from BitVec.ushiftRight_zero a,
      ushiftRight_eq_self_iff]
  case sra =>
    rw [eq_comm, show a.sshiftRight ((0 : Word).toNat % 64) = a from BitVec.sshiftRight_zero,
      sshiftRight_eq_self_iff]

private theorem computedValue_of_inPlace {i : Instruction} (pc : Word) (r : RegisterState)
    (kind : hasInPlace i.type = true) :
    computedValue i pc r
        = operationValue i.type (r.get i.rs1) (registerOperand2 i (r.get i.rs2)) ∧
      Isa.result i pc r = operationValue i.type (r.get i.rs1) (r.get i.rs2) := by
  unfold computedValue Isa.result
  cases type : i.type <;> simp only [type, hasInPlace, Bool.false_eq_true] at kind <;>
    exact ⟨rfl, rfl⟩

private theorem computedValue_of_separate {i : Instruction} (pc : Word) (r : RegisterState)
    (kind : alu64 i.type = true) (other : hasInPlace i.type = false) :
    computedValue i pc r = Isa.result i pc r ∧ ∀ a b, ZeroAgrees i.type a b := by
  unfold computedValue Isa.result ZeroAgrees
  cases type : i.type <;>
    simp only [type, alu64, hasInPlace, Bool.true_eq_false, Bool.false_eq_true] at kind other <;>
    simp [operationValue, hostOp, isWord, HostOp.apply, AluOp.apply, ShiftOp.apply, Isa.value,
      Isa.shamt6, BitVec.slt_iff_toInt_lt, BitVec.ult_iff_lt, BitVec.lt_def]

theorem computedValue_eq_result_iff {i : Instruction} (pc : Word) (r : RegisterState)
    (shape : InstructionDecoder.ImmediateOf i.type i.b) (kind : alu64 i.type = true) :
    computedValue i pc r = Isa.result i pc r
      ↔ i.rd ≠ i.rs1 ∨ ZeroAgrees i.type (r.get i.rs1) (r.get i.rs2) := by
  cases form : hasInPlace i.type with
  | false =>
    obtain ⟨equal, agrees⟩ := computedValue_of_separate pc r kind form
    exact iff_of_true equal (Or.inr (agrees _ _))
  | true =>
    obtain ⟨code, isa⟩ := computedValue_of_inPlace pc r form
    rw [code, isa, ← zeroAgrees_iff form]
    -- the types with an in-place form are no word operations and take no immediate
    have plain : isWord i.type = false ∧ i.imm = 0 := by
      cases type : i.type <;>
        simp only [type, hasInPlace, Bool.false_eq_true, InstructionDecoder.ImmediateOf]
          at form shape <;>
        exact ⟨rfl, by rw [Instruction.imm, shape]; rfl⟩
    by_cases same : i.rd = i.rs1
    · simp [registerOperand2, plain, same]
    · simp [registerOperand2, same]

/-- The code of a 64-bit computation exists and gives `rd` the ISA's value exactly when
`Alu64Agrees`. -/
theorem alu64_matches_isa_iff (g : CodeGenerator) (encoded : BitVec 32)
    (kind : alu64 (Instruction.ofWord encoded).type = true) (n : Nat) (env : Env) (s : State)
    (anchored : Anchored (g.setting env) g.memory.size env s) :
    SetsRegister g (.ofWord encoded) n env s
        (Isa.result (.ofWord encoded) g.currentPc s.guest.registers)
      ↔ Alu64Agrees (.ofWord encoded) s.guest.registers := by
  have shape := Instruction.immediateOf_ofWord encoded
  have direct : computesDirectly (Instruction.ofWord encoded).type = true := by
    cases type : (Instruction.ofWord encoded).type <;>
      simp only [type, alu64, Bool.false_eq_true] at kind <;> rfl
  rw [setsRegister_iff g shape direct n anchored, computedValue_eq_result_iff _ _ shape kind]
  rfl

/-- `add x3, x1, x2`. -/
theorem alu64_matches_isa_add :
    ∃ g env s, SetsRegister g (.ofWord 0x002081b3) 0 env s 12 := by
  let g : CodeGenerator := ⟨.create 16 (by decide), {}, 4, false, 0⟩
  let guest : Guest := ⟨⟨fun r => if r = 1 then 5 else if r = 2 then 7 else 0⟩, g.memory⟩
  obtain ⟨env, s, anchored, start, -⟩ :=
    exists_anchored g guest (fun _ => 0) rfl rfl (by decide) (by decide)
  have result := (alu64_matches_isa_iff g 0x002081b3 rfl 0 env s anchored).mpr
    ⟨fun noCode => absurd noCode.2.1 (by decide), Or.inr (Or.inl (by decide))⟩
  rw [start] at result
  exact ⟨g, env, s, result⟩

/-- `add x1, x1, x2` with `x2 = 7`: the emitted code leaves `x1` as it is. -/
theorem alu64_add_inPlace_differs :
    ¬∀ (g : CodeGenerator) (encoded : BitVec 32), alu64 (Instruction.ofWord encoded).type = true →
      ∀ (n : Nat) (env : Env) (s : State), Anchored (g.setting env) g.memory.size env s →
        SetsRegister g (.ofWord encoded) n env s
          (Isa.result (.ofWord encoded) g.currentPc s.guest.registers) := by
  intro claim
  let g : CodeGenerator := ⟨.create 16 (by decide), {}, 4, false, 0⟩
  let guest : Guest := ⟨⟨fun r => if r = 1 then 5 else if r = 2 then 7 else 0⟩, g.memory⟩
  obtain ⟨env, s, anchored, start, -⟩ :=
    exists_anchored g guest (fun _ => 0) rfl rfl (by decide) (by decide)
  have sets := claim g 0x002080b3 rfl 0 env s anchored
  rw [setsRegister_iff g (Instruction.immediateOf_ofWord _) rfl 0 anchored, start] at sets
  exact absurd sets.2 (by decide)

/-! ### 32-bit operations -/

/-- The computations on 32-bit words, which are the ones with a sign-extended result. -/
def IsWordOperation (i : Instruction) : Prop :=
  isWord i.type = true ∧ i.rd ≠ Register.zero

/-- A 64-bit right shift brings the bits the 32-bit shift would: below 32 the bits that
come down from the upper half are `fill`, from 32 on the upper half repeats the lower. -/
def UpperHalfAgrees (a b : Word) (fill : Bool) : Prop :=
  if Isa.shamt6 b < 32 then ∀ j < Isa.shamt6 b, a.getLsbD (32 + j) = fill
  else ∀ j, Isa.shamt5 b ≤ j → j < 32 → a.getLsbD (32 + j) = a.getLsbD j

/-- When the 64-bit operation has the low half of the 32-bit one. -/
def LowHalfAgrees (type : InstructionType) (imm a b : Word) : Prop :=
  match type with
  | .srliw => UpperHalfAgrees a imm false
  | .sraiw => UpperHalfAgrees a imm (a.getLsbD 31)
  | .sllw => Isa.shamt6 b < 32 ∨ Isa.low a <<< Isa.shamt5 b = 0
  | .srlw => UpperHalfAgrees a b false
  | .sraw => UpperHalfAgrees a b (a.getLsbD 31)
  | _ => True

/-- When the code of a 32-bit operation is right. -/
def WordAgrees (i : Instruction) (r : RegisterState) : Prop :=
  ¬CodeGenerator.NoCode i ∧ LowHalfAgrees i.type i.imm (r.get i.rs1) (r.get i.rs2)

theorem word_injective {x y : BitVec 32} : Isa.word x = Isa.word y ↔ x = y := by
  constructor
  · intro equal
    have low := congrArg (BitVec.setWidth 32) equal
    rwa [Isa.word, Isa.word, setWidth_signExtend, setWidth_signExtend] at low
  · rintro rfl
    rfl

private theorem shamt_cases (b : Word) :
    Isa.shamt6 b < 32 ∧ Isa.shamt5 b = Isa.shamt6 b ∨
      32 ≤ Isa.shamt6 b ∧ Isa.shamt6 b < 64 ∧ Isa.shamt5 b = Isa.shamt6 b - 32 := by
  unfold Isa.shamt6 Isa.shamt5
  omega

/-- The bits of the two right shifts, with what each brings in at the top. -/
private theorem shifted_bits_iff (a b : Word) {top fill : Bool}
    (tops : top = fill ∨ top = a.getLsbD 63 ∧ fill = a.getLsbD 31) :
    (∀ k < 32,
        (if Isa.shamt6 b + k < 64 then a.getLsbD (Isa.shamt6 b + k) else top)
          = if Isa.shamt5 b + k < 32 then a.getLsbD (Isa.shamt5 b + k) else fill)
      ↔ UpperHalfAgrees a b fill := by
  unfold UpperHalfAgrees
  -- the amount has bit 5 clear, so both shift alike, or set, so the host shifts past bit 31
  rcases shamt_cases b with ⟨short, same⟩ | ⟨long, bound, same⟩
  · rw [if_pos short, same]
    constructor
    · intro bits j below
      have bit := bits (32 + j - Isa.shamt6 b) (by omega)
      rwa [if_pos (by omega), if_neg (by omega),
        show Isa.shamt6 b + (32 + j - Isa.shamt6 b) = 32 + j by omega] at bit
    · intro upper k below
      rw [if_pos (by omega)]
      by_cases inside : Isa.shamt6 b + k < 32
      · rw [if_pos inside]
      · rw [if_neg inside, ← upper (Isa.shamt6 b + k - 32) (by omega)]
        congr 1
        omega
  · rw [if_neg (by omega)]
    constructor
    · intro bits j low below
      have bit := bits (j - Isa.shamt5 b) (by omega)
      rwa [if_pos (by omega), if_pos (by omega),
        show Isa.shamt6 b + (j - Isa.shamt5 b) = 32 + j by omega,
        show Isa.shamt5 b + (j - Isa.shamt5 b) = j by omega] at bit
    · intro upper k below
      by_cases inside : Isa.shamt5 b + k < 32
      · rw [if_pos (by omega), if_pos inside, ← upper (Isa.shamt5 b + k) (by omega) inside]
        congr 1
        omega
      · rw [if_neg (by omega), if_neg inside]
        rcases tops with equal | ⟨rfl, rfl⟩
        · exact equal
        · exact upper 31 (by omega) (by decide)

private theorem low_ushiftRight_iff (a b : Word) :
    (a >>> Isa.shamt6 b).setWidth 32 = Isa.low a >>> Isa.shamt5 b ↔ UpperHalfAgrees a b false := by
  rw [← shifted_bits_iff a b (Or.inl rfl)]
  -- the host shifts all 64 bits by six bits of amount, the manual the low half by five
  have host : ∀ k < 32, ((a >>> Isa.shamt6 b).setWidth 32).getLsbD k
      = if Isa.shamt6 b + k < 64 then a.getLsbD (Isa.shamt6 b + k) else false := by
    intro k below
    rw [BitVec.getLsbD_setWidth, BitVec.getLsbD_ushiftRight, decide_eq_true below, Bool.true_and]
    split
    next => rfl
    next outside => exact BitVec.getLsbD_of_ge a _ (by omega)
  have isa : ∀ k < 32, (Isa.low a >>> Isa.shamt5 b).getLsbD k
      = if Isa.shamt5 b + k < 32 then a.getLsbD (Isa.shamt5 b + k) else false := by
    intro k below
    rw [BitVec.getLsbD_ushiftRight, Isa.low, BitVec.getLsbD_setWidth]
    split
    next inside => rw [decide_eq_true inside, Bool.true_and]
    next outside => rw [decide_eq_false outside, Bool.false_and]
  constructor
  · intro equal k below
    rw [← host k below, ← isa k below, equal]
  · intro bits
    apply BitVec.eq_of_getLsbD_eq
    intro k below
    rw [host k below, isa k below, bits k below]

private theorem low_sshiftRight_iff (a b : Word) :
    (a.sshiftRight (Isa.shamt6 b)).setWidth 32 = (Isa.low a).sshiftRight (Isa.shamt5 b)
      ↔ UpperHalfAgrees a b (a.getLsbD 31) := by
  rw [← shifted_bits_iff a b (Or.inr ⟨rfl, rfl⟩)]
  -- the host fills with bit 63, the manual with bit 31
  have host : ∀ k < 32, ((a.sshiftRight (Isa.shamt6 b)).setWidth 32).getLsbD k
      = if Isa.shamt6 b + k < 64 then a.getLsbD (Isa.shamt6 b + k) else a.getLsbD 63 := by
    intro k below
    rw [BitVec.getLsbD_setWidth, BitVec.getLsbD_sshiftRight, decide_eq_true below, Bool.true_and,
      BitVec.msb_eq_getLsbD_last]
    simp [show ¬64 ≤ k by omega]
  have isa : ∀ k < 32, ((Isa.low a).sshiftRight (Isa.shamt5 b)).getLsbD k
      = if Isa.shamt5 b + k < 32 then a.getLsbD (Isa.shamt5 b + k) else a.getLsbD 31 := by
    intro k below
    rw [BitVec.getLsbD_sshiftRight, BitVec.msb_eq_getLsbD_last, Isa.low]
    simp only [BitVec.getLsbD_setWidth]
    by_cases inside : Isa.shamt5 b + k < 32 <;> simp [inside, show ¬32 ≤ k by omega]
  constructor
  · intro equal k below
    rw [← host k below, ← isa k below, equal]
  · intro bits
    apply BitVec.eq_of_getLsbD_eq
    intro k below
    rw [host k below, isa k below, bits k below]

private theorem low_shiftLeft_iff (a b : Word) :
    (a <<< Isa.shamt6 b).setWidth 32 = Isa.low a <<< Isa.shamt5 b
      ↔ Isa.shamt6 b < 32 ∨ Isa.low a <<< Isa.shamt5 b = 0 := by
  rcases shamt_cases b with ⟨short, same⟩ | ⟨long, -, -⟩
  · refine iff_of_true ?_ (Or.inl short)
    rw [same, Isa.low]
    apply BitVec.eq_of_getLsbD_eq
    intro k below
    simp only [BitVec.getLsbD_setWidth, BitVec.getLsbD_shiftLeft, below, decide_true, Bool.true_and]
    by_cases low : k < Isa.shamt6 b <;>
      simp [low, show k < 64 by omega, show k - Isa.shamt6 b < 32 by omega]
  -- an amount of 32 or more empties the low half
  · have gone : (a <<< Isa.shamt6 b).setWidth 32 = 0 := by
      apply BitVec.eq_of_getLsbD_eq
      intro k below
      simp [show k < Isa.shamt6 b by omega]
    rw [gone, eq_comm]
    exact ⟨Or.inr, fun holds => holds.resolve_left (by omega)⟩

/-- The value the code of a 32-bit operation leaves in `rd`, before sign extension, next to
the ISA's. -/
theorem computedValue_word_iff {i : Instruction} (pc : Word) (r : RegisterState)
    (shape : InstructionDecoder.ImmediateOf i.type i.b) (kind : isWord i.type = true) :
    computedValue i pc r = Isa.result i pc r
      ↔ LowHalfAgrees i.type i.imm (r.get i.rs1) (r.get i.rs2) := by
  unfold computedValue Isa.result LowHalfAgrees
  cases type : i.type <;> simp only [type, isWord, Bool.false_eq_true] at kind <;>
    simp only [type, InstructionDecoder.ImmediateOf] at shape <;>
    simp only [operationValue, hostOp, isWord, if_true, HostOp.apply, AluOp.apply, ShiftOp.apply,
      Isa.value, registerOperand2, type, Bool.true_eq_false, false_and, if_false, signextend32]
  case addiw | addw =>
    refine iff_of_true (word_injective.mpr ?_) trivial
    exact BitVec.setWidth_add _ _ (by decide)
  case subw =>
    refine iff_of_true (word_injective.mpr ?_) trivial
    apply BitVec.eq_of_toNat_eq
    simp only [Isa.low]
    bv_omega
  -- an immediate amount is below 32 by its encoding
  case slliw =>
    have amount : Isa.shamt6 i.imm < 32 := by
      rw [Isa.shamt6, Instruction.imm_toNat_of_small (by omega)]
      omega
    exact iff_of_true (word_injective.mpr ((low_shiftLeft_iff _ i.imm).mpr (Or.inl amount))) trivial
  case srliw => exact word_injective.trans (low_ushiftRight_iff _ i.imm)
  case sraiw => exact word_injective.trans (low_sshiftRight_iff _ i.imm)
  case sllw => exact word_injective.trans (low_shiftLeft_iff _ _)
  case srlw => exact word_injective.trans (low_ushiftRight_iff _ _)
  case sraw => exact word_injective.trans (low_sshiftRight_iff _ _)

/-- The sources of the instruction have the same low halves in both register files. -/
def SameLowHalves (i : Instruction) (r r' : RegisterState) : Prop :=
  Isa.low (r.get i.rs1) = Isa.low (r'.get i.rs1) ∧ Isa.low (r.get i.rs2) = Isa.low (r'.get i.rs2)

/-- The ISA's 32-bit operations do not look at the upper halves. -/
theorem word_result_low {i : Instruction} (pc : Word) {r r' : RegisterState}
    (kind : isWord i.type = true) (same : SameLowHalves i r r') :
    Isa.result i pc r = Isa.result i pc r' := by
  have amount : Isa.shamt5 (r.get i.rs2) = Isa.shamt5 (r'.get i.rs2) := by
    have low := congrArg (fun v => v.toNat % 32) same.2
    simp only [Isa.low, BitVec.toNat_setWidth] at low
    unfold Isa.shamt5
    omega
  unfold Isa.result
  cases type : i.type <;> simp only [type, isWord, Bool.false_eq_true] at kind <;>
    simp only [Isa.value, same.1, same.2, amount]

/-- The code of a 32-bit operation exists and leaves the ISA's value in `rd` exactly when
`WordAgrees`; that value is the same for sources with the same low halves. -/
theorem word_matches_isa_iff (g : CodeGenerator) (encoded : BitVec 32)
    (kind : IsWordOperation (.ofWord encoded)) (n : Nat) (env : Env) (s : State)
    (anchored : Anchored (g.setting env) g.memory.size env s) :
    (SetsRegister g (.ofWord encoded) n env s
        (Isa.result (.ofWord encoded) g.currentPc s.guest.registers)
      ↔ WordAgrees (.ofWord encoded) s.guest.registers) ∧
    ∀ r, SameLowHalves (.ofWord encoded) r s.guest.registers →
      Isa.result (.ofWord encoded) g.currentPc r
        = Isa.result (.ofWord encoded) g.currentPc s.guest.registers := by
  obtain ⟨kind, nonzero⟩ := kind
  have shape := Instruction.immediateOf_ofWord encoded
  have direct : computesDirectly (Instruction.ofWord encoded).type = true := by
    cases type : (Instruction.ofWord encoded).type <;>
      simp only [type, isWord, Bool.false_eq_true] at kind <;> rfl
  refine ⟨?_, fun r same => word_result_low g.currentPc kind same⟩
  rw [setsRegister_iff g shape direct n anchored, computedValue_word_iff _ _ shape kind]
  simp only [nonzero, false_or, WordAgrees]

/-- `addw x3, x1, x2` on registers whose upper halves are arbitrary. -/
theorem word_matches_isa_addw :
    ∃ g env s, SetsRegister g (.ofWord 0x002081bb) 0 env s 12 := by
  let g : CodeGenerator := ⟨.create 16 (by decide), {}, 4, false, 0⟩
  let guest : Guest :=
    ⟨⟨fun r => if r = 1 then 0xabcd00000005 else if r = 2 then 0x123400000007 else 0⟩, g.memory⟩
  obtain ⟨env, s, anchored, start, -⟩ :=
    exists_anchored g guest (fun _ => 0) rfl rfl (by decide) (by decide)
  have result := (word_matches_isa_iff g 0x002081bb ⟨rfl, by decide⟩ 0 env s anchored).1.mpr
    ⟨fun noCode => absurd noCode.2.1 (by decide), trivial⟩
  have value : Isa.result (.ofWord 0x002081bb) g.currentPc guest.registers = 12 := by decide
  rw [start, value] at result
  exact ⟨g, env, s, result⟩

/-- `srlw x3, x1, x2` with `x1 = 2 ^ 32` and `x2 = 1`: the ISA gives 0, the emitted code
brings a bit of the upper half down. -/
theorem word_srlw_differs :
    ¬∀ (g : CodeGenerator) (encoded : BitVec 32), IsWordOperation (.ofWord encoded) →
      ∀ (n : Nat) (env : Env) (s : State), Anchored (g.setting env) g.memory.size env s →
        SetsRegister g (.ofWord encoded) n env s
          (Isa.result (.ofWord encoded) g.currentPc s.guest.registers) := by
  intro claim
  let g : CodeGenerator := ⟨.create 16 (by decide), {}, 4, false, 0⟩
  let guest : Guest := ⟨⟨fun r => if r = 1 then 0x100000000 else if r = 2 then 1 else 0⟩, g.memory⟩
  obtain ⟨env, s, anchored, start, -⟩ :=
    exists_anchored g guest (fun _ => 0) rfl rfl (by decide) (by decide)
  have sets := claim g 0x0020d1bb ⟨rfl, by decide⟩ 0 env s anchored
  rw [setsRegister_iff g (Instruction.immediateOf_ofWord _) rfl 0 anchored, start] at sets
  exact absurd sets.2 (by decide)

end Jit.X64

end Riscv64Emulator
