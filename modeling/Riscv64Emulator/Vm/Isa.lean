import Riscv64Emulator.Vm.Interpreter

/-!
# The RISC-V integer instructions

The results the unprivileged ISA defines for the register computations of RV64I, stated
on the operand values, and the interpreter's results compared with them.
-/
namespace Riscv64Emulator

namespace Isa

/-- The register-register and register-immediate computations of RV64I. -/
def computes : InstructionType → Bool
  | .lui | .auipc => true
  | .addi | .xori | .ori | .andi | .addiw => true
  | .slli | .srli | .srai | .slliw | .srliw | .sraiw => true
  | .slti | .sltiu | .slt | .sltu => true
  | .add | .sub | .xor | .or | .and | .sll | .srl | .sra => true
  | .addw | .subw | .sllw | .srlw | .sraw => true
  | _ => false

/-- The amount of a 64-bit shift: the low six bits of the operand. -/
def shamt6 (b : Word) : Nat := b.toNat % 64

/-- The amount of a 32-bit shift: the low five bits of the operand. -/
def shamt5 (b : Word) : Nat := b.toNat % 32

/-- A 32-bit result is written sign-extended. -/
def word (r : BitVec 32) : Word := r.signExtend 64

def low (a : Word) : BitVec 32 := a.setWidth 32

/-- The value of `rd` for operands `a` (of `rs1`) and `b` (of `rs2`), the immediate and
the pc. -/
def value (type : InstructionType) (pc imm a b : Word) : Word :=
  match type with
  | .lui => imm
  | .auipc => pc + imm
  | .addi => a + imm
  | .xori => a ^^^ imm
  | .ori => a ||| imm
  | .andi => a &&& imm
  | .slli => a <<< shamt6 imm
  | .srli => a >>> shamt6 imm
  | .srai => a.sshiftRight (shamt6 imm)
  | .slti => if a.toInt < imm.toInt then 1 else 0
  | .sltiu => if a.toNat < imm.toNat then 1 else 0
  | .slt => if a.toInt < b.toInt then 1 else 0
  | .sltu => if a.toNat < b.toNat then 1 else 0
  | .add => a + b
  | .sub => a - b
  | .xor => a ^^^ b
  | .or => a ||| b
  | .and => a &&& b
  | .sll => a <<< shamt6 b
  | .srl => a >>> shamt6 b
  | .sra => a.sshiftRight (shamt6 b)
  | .addiw => word (low a + low imm)
  | .slliw => word (low a <<< shamt5 imm)
  | .srliw => word (low a >>> shamt5 imm)
  | .sraiw => word ((low a).sshiftRight (shamt5 imm))
  | .addw => word (low a + low b)
  | .subw => word (low a - low b)
  | .sllw => word (low a <<< shamt5 b)
  | .srlw => word (low a >>> shamt5 b)
  | .sraw => word ((low a).sshiftRight (shamt5 b))
  | _ => 0

/-- The value an instruction gives `rd` in a register file. -/
def result (i : Instruction) (pc : Word) (r : RegisterState) : Word :=
  value i.type pc i.imm (r.get i.rs1) (r.get i.rs2)

end Isa

/-! ### Arithmetic of the interpreter -/

theorem signextend32_setWidth (x : BitVec 32) : signextend32 (x.setWidth 64) = x.signExtend 64 := by
  simp [signextend32]

theorem setWidth_signExtend (x : BitVec 32) : (x.signExtend 64).setWidth 32 = x := by
  apply BitVec.eq_of_getLsbD_eq
  intro k bound
  simp only [BitVec.getLsbD_setWidth, BitVec.getLsbD_signExtend, bound, decide_true,
    Bool.true_and, if_true]
  simp [show k < 64 by omega]

theorem signextend32_signExtend (x : BitVec 32) :
    signextend32 (x.signExtend 64) = x.signExtend 64 := by
  rw [signextend32, setWidth_signExtend]

namespace Instruction

/-- A shift amount is not changed by the sign extension. -/
theorem imm_toNat_of_small {i : Instruction} (small : i.b.toNat < 64) :
    i.imm.toNat = i.b.toNat := by
  have positive : i.b.msb = false := by
    rw [BitVec.msb_eq_false_iff_two_mul_lt]
    omega
  rw [imm, BitVec.signExtend_eq_setWidth_of_msb_false positive, BitVec.toNat_setWidth]
  omega

theorem shamt6_imm {i : Instruction} (small : i.b.toNat < 64) : Isa.shamt6 i.imm = i.shamt.toNat := by
  rw [Isa.shamt6, imm_toNat_of_small small, shamt]
  omega

theorem shamt5_imm {i : Instruction} (small : i.b.toNat < 32) : Isa.shamt5 i.imm = i.shamt.toNat := by
  have six := shamt6_imm (i := i) (by omega)
  have same : i.shamt.toNat = i.b.toNat := rfl
  unfold Isa.shamt6 at six
  unfold Isa.shamt5
  omega

end Instruction

theorem shamt64_toNat (b : Word) : ((b &&& 63).setWidth 32).toNat = Isa.shamt6 b := by
  have mask : b.toNat &&& 63 = b.toNat % 64 := Nat.and_two_pow_sub_one_eq_mod b.toNat 6
  simp only [BitVec.toNat_setWidth, BitVec.toNat_and, BitVec.reduceToNat, BitVec.ofNat_eq_ofNat,
    mask, Isa.shamt6]
  omega

theorem shamt32_toNat (b : Word) : ((b &&& 31).setWidth 32).toNat = Isa.shamt5 b := by
  have mask : b.toNat &&& 31 = b.toNat % 32 := Nat.and_two_pow_sub_one_eq_mod b.toNat 5
  simp only [BitVec.toNat_setWidth, BitVec.toNat_and, BitVec.reduceToNat, BitVec.ofNat_eq_ofNat,
    mask, Isa.shamt5]
  omega

/-! ### What the interpreter computes -/

namespace Interpreter

/-- The multiplications and divisions `step` implements. -/
def multiplies : InstructionType → Bool
  | .mul | .mulw | .div | .divw | .divu | .divuw | .rem | .remw | .remu | .remuw => true
  | _ => false

/-- The value `step` gives `rd`, gathered from the cases that write a computed result. -/
def computed (i : Instruction) (pc : Word) (r : RegisterState) : Except Abort Word :=
  let a := r.get i.rs1
  let b := r.get i.rs2
  match i.type with
  | .lui => .ok i.imm
  | .auipc => .ok (pc + i.imm)
  | .addi | .xori | .ori | .andi | .addiw => immediateResult i.type a i.imm
  | .slli | .srli | .srai | .slliw | .srliw | .sraiw => shiftImmediateResult i.type a i.shamt
  | .slt | .sltu => .ok (if compareResult i.type a b then 1 else 0)
  | .slti | .sltiu => .ok (if compareResult i.type a i.imm then 1 else 0)
  | .add | .sub | .xor | .or | .and | .sll | .srl | .sra
  | .addw | .subw | .sllw | .srlw | .sraw => registerResult i.type a b
  | .mul | .mulw | .div | .divw | .divu | .divuw | .rem | .remu | .remw | .remuw =>
    mulDivResult i.type a b
  | _ => unreachable

/-- The state after an instruction that only changed registers. -/
def retire (s : VmState) (cpu : Cpu) : VmState :=
  { s with cpu := cpu.set Register.pc (s.cpu.pc + 4) }

theorem execute_computed (s : VmState) (i : Instruction)
    (kind : Isa.computes i.type = true ∨ multiplies i.type = true) :
    execute s s.cpu.pc i =
      (computed i s.cpu.pc s.cpu).map fun v => (true, retire s (s.cpu.set i.rd v)) := by
  unfold execute computed
  cases type : i.type <;> simp only [type, Isa.computes, multiplies] at kind ⊢ <;>
    first | rfl | simp at kind

/-- The instruction `step` executes: the word at an aligned, executable pc. -/
def fetched (s : VmState) : Option Instruction :=
  if s.cpu.pc &&& 3 ≠ 0 then none
  else (s.memory.readT 4 s.cpu.pc MemoryFlags.execute).map fun w => .ofWord (w.setWidth 32)

theorem step_of_fetched {s : VmState} {i : Instruction} (fetch : fetched s = some i) :
    step s = execute s s.cpu.pc i := by
  unfold fetched at fetch
  unfold step
  split at fetch
  next => cases fetch
  next aligned =>
    cases read : s.memory.readT 4 s.cpu.pc MemoryFlags.execute with
    | none => simp [read] at fetch
    | some w =>
      simp only [read, Option.map_some, Option.some.injEq] at fetch
      subst fetch
      simp only [aligned, if_false]
      rw [read]

theorem immediateOf_fetched {s : VmState} {i : Instruction} (fetch : fetched s = some i) :
    InstructionDecoder.ImmediateOf i.type i.b := by
  unfold fetched at fetch
  split at fetch
  next => cases fetch
  next =>
    obtain ⟨w, _, rfl⟩ := Option.map_eq_some_iff.mp fetch
    exact InstructionDecoder.immediateOf_decode _

/-- `a << n` and the arithmetic `a >> n` have the same bits. -/
def ShiftsAgree (a : Word) (n : Nat) : Prop :=
  (∀ k < n, k < 64 → a.getLsbD (min (k + n) 63) = false) ∧
    ∀ k, n ≤ k → k < 64 → a.getLsbD (k - n) = a.getLsbD (min (k + n) 63)

theorem shiftsAgree_iff (a : Word) (n : Nat) : ShiftsAgree a n ↔ a <<< n = a.sshiftRight n := by
  -- an arithmetic shift right repeats the top bit
  have right : ∀ k < 64, (a.sshiftRight n).getLsbD k = a.getLsbD (min (k + n) 63) := by
    intro k bound
    rw [BitVec.getLsbD_sshiftRight]
    have low : ¬64 ≤ k := by omega
    by_cases inside : n + k < 64
    · rw [if_pos inside, show min (k + n) 63 = n + k by omega]
      simp only [low, decide_false, Bool.not_false, Bool.true_and]
    · rw [if_neg inside, show min (k + n) 63 = 63 by omega]
      simp only [low, decide_false, Bool.not_false, Bool.true_and, BitVec.msb_eq_getLsbD_last]
  constructor
  · rintro ⟨below, above⟩
    apply BitVec.eq_of_getLsbD_eq
    intro k bound
    rw [right k bound, BitVec.getLsbD_shiftLeft]
    by_cases inside : k < n
    · rw [below k inside bound]
      simp [inside]
    · rw [← above k (by omega) bound]
      simp [inside, bound]
  · intro equal
    have bits : ∀ k < 64, (a <<< n).getLsbD k = a.getLsbD (min (k + n) 63) := by
      intro k bound
      rw [equal, right k bound]
    constructor
    · intro k inside bound
      rw [← bits k bound, BitVec.getLsbD_shiftLeft]
      simp [inside]
    · intro k inside bound
      rw [← bits k bound, BitVec.getLsbD_shiftLeft]
      simp [bound, show ¬k < n by omega]

/-- When `step` gives `rd` the ISA's value: always, except that `srai` and `sra` shift the
wrong way. -/
def AgreesWithIsa (i : Instruction) (r : RegisterState) : Prop :=
  match i.type with
  | .srai => i.rd = Register.zero ∨ ShiftsAgree (r.get i.rs1) i.shamt.toNat
  | .sra => i.rd = Register.zero ∨ ShiftsAgree (r.get i.rs1) (Isa.shamt6 (r.get i.rs2))
  | _ => True

/-- Two register writes followed by the same pc differ unless the register is `x0`. -/
theorem retire_set_inj (s : VmState) (rd : Register) (v w : Word) (below : rd ≠ Register.pc) :
    retire s (s.cpu.set rd v) = retire s (s.cpu.set rd w) ↔ rd = Register.zero ∨ v = w := by
  constructor
  · intro equal
    by_cases zero : rd = Register.zero
    · exact Or.inl zero
    · have entry := congrArg (fun t => t.cpu.get rd) equal
      simp only [retire, RegisterState.get_set_other _ _ below,
        RegisterState.get_set_same _ rd _ zero] at entry
      exact Or.inr entry
  · rintro (zero | rfl)
    · rw [zero, RegisterState.set_zero, RegisterState.set_zero]
    · rfl

theorem compareResult_signed {t : InstructionType} (signed : t = .slt ∨ t = .slti) (a b : Word) :
    (if compareResult t a b then 1 else 0 : Word) = if a.toInt < b.toInt then 1 else 0 := by
  simp [compareResult, signed, BitVec.slt_iff_toInt_lt]

theorem compareResult_unsigned {t : InstructionType} (unsigned : ¬(t = .slt ∨ t = .slti))
    (a b : Word) :
    (if compareResult t a b then 1 else 0 : Word) = if a.toNat < b.toNat then 1 else 0 := by
  simp [compareResult, unsigned, BitVec.ult_iff_lt, BitVec.lt_def]

/-- The interpreter's value of each computation, next to the ISA's. -/
theorem computed_eq (i : Instruction) (pc : Word) (r : RegisterState)
    (shape : InstructionDecoder.ImmediateOf i.type i.b) (kind : Isa.computes i.type = true) :
    computed i pc r =
      .ok (match i.type with
        | .srai => r.get i.rs1 <<< i.shamt.toNat
        | .sra => r.get i.rs1 <<< Isa.shamt6 (r.get i.rs2)
        | _ => Isa.result i pc r) := by
  have six : i.b.toNat < 64 → Isa.shamt6 i.imm = i.shamt.toNat := Instruction.shamt6_imm
  have five : i.b.toNat < 32 → Isa.shamt5 i.imm = i.shamt.toNat := Instruction.shamt5_imm
  unfold computed Isa.result
  cases type : i.type <;> simp only [type, Isa.computes, InstructionDecoder.ImmediateOf] at shape kind ⊢
  all_goals try (exact absurd kind (by decide))
  -- a 32-bit result reaches `signextend32` zero- or sign-extended, shift amounts as numbers
  all_goals simp only [immediateResult, shiftImmediateResult, registerResult, Isa.value,
    BitVec.shiftLeft_eq', BitVec.ushiftRight_eq', BitVec.sshiftRight_eq', shamt64_toNat,
    shamt32_toNat, signextend32_setWidth, signextend32_signExtend]
  case addiw => rw [signextend32, BitVec.setWidth_add _ _ (by decide)]; rfl
  case slti | slt => rw [compareResult_signed (by decide)]
  case sltiu | sltu => rw [compareResult_unsigned (by decide)]
  case slli | srli => simp only [six shape]
  case slliw | srliw | sraiw => simp only [five shape]; rfl
  all_goals rfl

theorem step_computes {s : VmState} {i : Instruction} (fetch : fetched s = some i)
    (kind : Isa.computes i.type = true) :
    step s = .ok (true, retire s (s.cpu.set i.rd (match i.type with
      | .srai => s.cpu.get i.rs1 <<< i.shamt.toNat
      | .sra => s.cpu.get i.rs1 <<< Isa.shamt6 (s.cpu.get i.rs2)
      | _ => Isa.result i s.cpu.pc s.cpu))) := by
  rw [step_of_fetched fetch, execute_computed s i (Or.inl kind),
    computed_eq i _ _ (immediateOf_fetched fetch) kind]
  rfl

/-- One step of a register computation does what the ISA defines, and nothing else,
exactly when the instruction is not a right arithmetic shift whose result a left shift
does not happen to share. -/
theorem step_matches_isa_iff (s : VmState) (i : Instruction) (fetch : fetched s = some i)
    (kind : Isa.computes i.type = true) :
    step s = .ok (true, retire s (s.cpu.set i.rd (Isa.result i s.cpu.pc s.cpu)))
      ↔ AgreesWithIsa i s.cpu := by
  have shape := immediateOf_fetched fetch
  rw [step_computes fetch kind]
  simp only [Except.ok.injEq, Prod.mk.injEq, true_and, retire_set_inj _ _ _ _ i.rd_ne_pc]
  unfold AgreesWithIsa
  cases type : i.type
  -- only the two arithmetic shifts differ from the manual: the source shifts left there
  case srai =>
    simp only [type, InstructionDecoder.ImmediateOf] at shape
    simp only [Isa.result, type, Isa.value, Instruction.shamt6_imm shape, shiftsAgree_iff]
  case sra => simp only [Isa.result, type, Isa.value, shiftsAgree_iff]
  all_goals simp

/-- `addi x1, x0, 5` in a fresh machine. -/
theorem step_matches_isa_addi :
    ∃ s : VmState, fetched s = some (.ofWord 0x00500093) ∧
      step s = .ok (true, retire s (s.cpu.set 1 5)) := by
  let memory := Memory.ofImage 16 (by decide) [0x93, 0x00, 0x50, 0x00] (MemoryFlags.execute)
  let s : VmState := ⟨memory, ⟨fun _ => 0⟩, {}⟩
  have fetch : fetched s = some (.ofWord 0x00500093) := by decide
  exact ⟨s, fetch, (step_matches_isa_iff s _ fetch (by decide)).mpr trivial⟩

/-- `srai x1, x2, 1` with `x2 = 2`: the ISA gives 1, `step` gives 4. -/
theorem step_srai_differs :
    ¬∀ (s : VmState) (i : Instruction), fetched s = some i → Isa.computes i.type = true →
      step s = .ok (true, retire s (s.cpu.set i.rd (Isa.result i s.cpu.pc s.cpu))) := by
  intro claim
  let memory := Memory.ofImage 16 (by decide) [0x93, 0x50, 0x11, 0x40] (MemoryFlags.execute)
  let s : VmState := ⟨memory, ⟨fun r => if r = 2 then 2 else 0⟩, {}⟩
  have fetch : fetched s = some (.ofWord 0x40115093) := by decide
  have equal := claim s _ fetch (by decide)
  rw [step_computes fetch (by decide)] at equal
  simp only [Except.ok.injEq, Prod.mk.injEq, true_and,
    retire_set_inj _ _ _ _ (Instruction.rd_ne_pc _)] at equal
  exact absurd equal (by decide)

end Interpreter

end Riscv64Emulator
