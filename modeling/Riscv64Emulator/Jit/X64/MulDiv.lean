import Riscv64Emulator.Jit.X64.Alu
import Riscv64Emulator.Jit.X64.Refinement
import Riscv64Emulator.Vm.MulDiv

/-!
# Products and quotients on x64

What the host's `imul`, `div` and `idiv` make of the M extension: the code faults on a
zero divisor and on an overflow its test misses, and a quotient that overflows is stored
as zero.
-/
namespace Riscv64Emulator.Jit.X64

open LinearCode CodeGenerator Isa
open Interpreter (Overflows)

section Host

variable {w : Nat}

theorem divideUnsigned_zero (a b : BitVec w) :
    divideUnsigned 0 a b
      = if b = 0 then none else some (quotient false a b, remainder false a b) := by
  unfold divideUnsigned quotient remainder
  have dividend : (0 : BitVec w).toNat * 2 ^ w + a.toNat = a.toNat := by simp
  rw [dividend]
  by_cases zero : b = 0
  · simp [zero]
  · have fits : ¬2 ^ w ≤ a.toNat / b.toNat :=
      Nat.not_le_of_lt (Nat.lt_of_le_of_lt (Nat.div_le_self _ _) a.isLt)
    simp only [zero, fits, or_self, if_false, Bool.false_eq_true]

/-- A sign-extended accumulator holds the dividend. -/
private theorem signed_dividend (a : BitVec w) (positive : 0 < w) :
    (if a.msb then -1 else 0 : BitVec w).toInt * 2 ^ w + a.toNat = a.toInt := by
  rw [BitVec.toInt_eq_msb_cond a]
  cases a.msb with
  | true =>
    simp only [if_true, toInt_minusOne positive]
    push_cast
    omega
  | false => simp

/-- A quotient leaves the range of its operands only when it overflows. -/
private theorem overflows_iff {a b : BitVec w} (positive : 0 < w) :
    (a.toInt.tdiv b.toInt < -2 ^ (w - 1) ∨ 2 ^ (w - 1) ≤ a.toInt.tdiv b.toInt) ↔ Overflows a b := by
  constructor
  · intro outside
    by_contra fits
    have quotient := BitVec.toInt_sdiv_of_ne_or_ne a b (not_and_or.mp fits)
    have low := BitVec.le_toInt (a.sdiv b)
    have high := BitVec.toInt_lt (x := a.sdiv b)
    omega
  · rintro ⟨rfl, rfl⟩
    rw [BitVec.toInt_intMin_of_pos positive, toInt_minusOne positive, Int.tdiv_neg, Int.tdiv_one,
      Int.neg_neg]
    exact Or.inr le_rfl

theorem divideSigned_extended (a b : BitVec w) (positive : 0 < w) :
    divideSigned (if a.msb then -1 else 0) a b
      = if b = 0 ∨ Overflows a b then none else some (quotient true a b, remainder true a b) := by
  unfold divideSigned
  rw [signed_dividend a positive]
  by_cases zero : b = 0
  · simp [zero]
  · simp only [overflows_iff positive, zero, false_or]
    by_cases overflow : Overflows a b
    · simp [overflow]
    · unfold quotient remainder
      have fits : ¬(a = BitVec.intMin w ∧ b = -1) := overflow
      simp only [overflow, zero, fits, if_false, if_true]

end Host

/-! ### The values of the code -/

/-- The value of the code of a product or quotient, if it does not fault. -/
def mulDivValue (type : InstructionType) (a b : Word) : Option Word :=
  match type with
  | .mul => some (a * b)
  | .mulw => some (signextend32 (a * b))
  | _ => divideValue type a b

/-- When the code does not fault and has the ISA's value. The test for overflow compares
whole registers, and stores zero for a quotient. -/
def DividesAsIsa (type : InstructionType) (a b : Word) : Prop :=
  match type with
  | .div => b ≠ 0 ∧ ¬Overflows a b
  | .rem | .divu | .remu => b ≠ 0
  | .divw => low b ≠ 0 ∧ ¬Overflows (low a) (low b)
  | .remw => low b ≠ 0 ∧
    (Overflows (low a) (low b) → b = -1 ∧ a = (BitVec.intMin 32).signExtend 64)
  | .divuw | .remuw => low b ≠ 0
  | _ => True

instance (type : InstructionType) (a b : Word) : Decidable (DividesAsIsa type a b) := by
  cases type <;> unfold DividesAsIsa <;> infer_instance

private theorem extended_word (v : BitVec 32) : extended true (v.setWidth 64) = word v :=
  signextend32_setWidth v

private theorem unsigned_value (remainder' : Bool) (a b : Word) :
    divisionValue false true remainder' a b
      = if b = 0 then none
        else some (if remainder' then remainder false a b else quotient false a b) := by
  simp only [divisionValue, hostQuotients, divideUnsigned_zero, Bool.true_eq_false, false_and,
    if_false]
  by_cases zero : b = 0
  · rw [if_pos zero, if_pos zero]
    rfl
  · rw [if_neg zero, if_neg zero]
    cases remainder' <;> simp [widened, extended]

private theorem unsignedWord_value (remainder' : Bool) (a b : Word) :
    divisionValue true true remainder' a b
      = if low b = 0 then none
        else some (word (if remainder' then remainder false (low a) (low b)
          else quotient false (low a) (low b))) := by
  simp only [divisionValue, hostQuotients, divideUnsigned_zero, Bool.true_eq_false, false_and,
    if_false]
  change Option.map _ (Option.map _ (if low b = 0 then _ else _)) = _
  by_cases zero : low b = 0
  · simp [zero]
  · cases remainder' <;> simp only [zero, if_false, Option.map_some, widened, extended_word, if_true,
      Bool.false_eq_true] <;> rfl

private theorem signed_value (remainder' : Bool) (a b : Word) :
    divisionValue false false remainder' a b
      = if Overflows a b then some 0
        else if b = 0 then none
        else some (if remainder' then remainder true a b else quotient true a b) := by
  simp only [divisionValue, hostQuotients, divideSigned_extended _ _ (by decide : 0 < 64), true_and]
  change (if b = -1 ∧ a = BitVec.intMin 64 then _ else _) = _
  by_cases overflow : Overflows a b
  · rw [if_pos overflow, if_pos ⟨overflow.2, overflow.1⟩]
  · rw [if_neg overflow, if_neg fun both => overflow ⟨both.2, both.1⟩]
    by_cases zero : b = 0
    · rw [if_pos (Or.inl zero), if_pos zero]
      rfl
    · rw [if_neg (by simpa only [zero, false_or] using overflow), if_neg zero]
      cases remainder' <;> simp [widened, extended]

private theorem signedWord_value (remainder' : Bool) (a b : Word) :
    divisionValue true false remainder' a b
      = if b = -1 ∧ a = (BitVec.intMin 32).signExtend 64 then some 0
        else if low b = 0 ∨ Overflows (low a) (low b) then none
        else some (word (if remainder' then remainder true (low a) (low b)
          else quotient true (low a) (low b))) := by
  simp only [divisionValue, hostQuotients, divideSigned_extended _ _ (by decide : 0 < 32), true_and]
  change (if b = -1 ∧ a = (BitVec.intMin 32).signExtend 64 then _
    else Option.map _ (Option.map _ (if low b = 0 ∨ Overflows (low a) (low b) then _ else _))) = _
  -- the emitted test compares whole registers, so it sees only extended words
  by_cases tested : b = -1 ∧ a = (BitVec.intMin 32).signExtend 64
  · rw [if_pos tested, if_pos tested]
  · rw [if_neg tested, if_neg tested]
    by_cases faults : low b = 0 ∨ Overflows (low a) (low b)
    · rw [if_pos faults, if_pos faults]
      rfl
    · rw [if_neg faults, if_neg faults]
      cases remainder' <;> simp only [Option.map_some, widened, extended_word, if_true,
        Bool.false_eq_true, if_false] <;> rfl

theorem mulDivValue_eq_iff {type : InstructionType} (kind : Interpreter.multiplies type = true)
    (a b : Word) :
    mulDivValue type a b = some (mulDiv type a b) ↔ DividesAsIsa type a b := by
  cases type <;> try exact absurd kind (by decide)
  case mul => simp [mulDivValue, mulDiv, DividesAsIsa, product_eq]
  case mulw =>
    simp only [mulDivValue, mulDiv, DividesAsIsa, product_eq, signextend32, iff_true,
      Option.some.injEq, word, low]
    rw [BitVec.setWidth_mul _ _ (by decide)]
  case divu | remu =>
    change divisionValue false true _ a b = _ ↔ b ≠ 0
    rw [unsigned_value]
    by_cases zero : b = 0
    · rw [if_pos zero]
      exact iff_of_false (fun same => by cases same) fun nonzero => nonzero zero
    · rw [if_neg zero]
      exact iff_of_true rfl zero
  case divuw | remuw =>
    change divisionValue true true _ a b = _ ↔ low b ≠ 0
    rw [unsignedWord_value]
    by_cases zero : low b = 0
    · rw [if_pos zero]
      exact iff_of_false (fun same => by cases same) fun nonzero => nonzero zero
    · rw [if_neg zero]
      exact iff_of_true rfl zero
  -- on overflow the source stores zero, which is the remainder and not the quotient
  case div =>
    change divisionValue false false false a b = _ ↔ b ≠ 0 ∧ ¬Overflows a b
    rw [signed_value]
    by_cases overflow : Overflows a b
    · rw [if_pos overflow]
      obtain ⟨rfl, rfl⟩ := overflow
      exact iff_of_false (by decide) fun fits => fits.2 ⟨rfl, rfl⟩
    · rw [if_neg overflow]
      by_cases zero : b = 0
      · rw [if_pos zero]
        exact iff_of_false (fun same => by cases same) fun fits => fits.1 zero
      · rw [if_neg zero]
        exact iff_of_true rfl ⟨zero, overflow⟩
  case rem =>
    change divisionValue false false true a b = _ ↔ b ≠ 0
    rw [signed_value]
    by_cases overflow : Overflows a b
    · rw [if_pos overflow]
      obtain ⟨rfl, rfl⟩ := overflow
      exact iff_of_true (by decide) (by decide)
    · rw [if_neg overflow]
      by_cases zero : b = 0
      · rw [if_pos zero]
        exact iff_of_false (fun same => by cases same) fun nonzero => nonzero zero
      · rw [if_neg zero]
        exact iff_of_true rfl zero
  case divw =>
    change divisionValue true false false a b = _ ↔ low b ≠ 0 ∧ ¬Overflows (low a) (low b)
    rw [signedWord_value]
    by_cases tested : b = -1 ∧ a = (BitVec.intMin 32).signExtend 64
    · rw [if_pos tested]
      obtain ⟨rfl, rfl⟩ := tested
      exact iff_of_false (by decide) fun fits => fits.2 (by decide)
    · rw [if_neg tested]
      by_cases faults : low b = 0 ∨ Overflows (low a) (low b)
      · rw [if_pos faults]
        exact iff_of_false (fun same => by cases same) fun fits => faults.elim fits.1 fits.2
      · rw [if_neg faults]
        exact iff_of_true rfl (not_or.mp faults)
  -- an overflow of the words that the test does not see faults
  case remw =>
    change divisionValue true false true a b = _ ↔ low b ≠ 0 ∧ (Overflows (low a) (low b) →
      b = -1 ∧ a = (BitVec.intMin 32).signExtend 64)
    rw [signedWord_value]
    by_cases tested : b = -1 ∧ a = (BitVec.intMin 32).signExtend 64
    · rw [if_pos tested]
      obtain ⟨rfl, rfl⟩ := tested
      exact iff_of_true (by decide) ⟨by decide, fun _ => ⟨rfl, rfl⟩⟩
    · rw [if_neg tested]
      by_cases faults : low b = 0 ∨ Overflows (low a) (low b)
      · rw [if_pos faults]
        exact iff_of_false (fun same => by cases same) fun fits =>
          faults.elim fits.1 fun overflow => tested (fits.2 overflow)
      · rw [if_neg faults]
        exact iff_of_true rfl ⟨fun zero => faults (.inl zero), fun overflow =>
          absurd (.inr overflow) faults⟩

/-! ### The code -/

/-- The generator emits code for the instruction, and the code runs to its end, without a
fault, with the guest changed by `rd := v` and nothing else. -/
def RunsTo (g : CodeGenerator) (i : Instruction) (n : Nat) (env : Env) (s : State) (v : Word) :
    Prop :=
  ∃ o, (g.generateInstruction i).run n = .ok o ∧ o.value = true ∧
    ∃ s', exec (step env) o.code (.running s) = .running s' ∧
      s'.guest = s.guest.setRegister i.rd v

theorem runsTo_iff_of_emits {st : Setting} {size : Word} {g : CodeGenerator} {i : Instruction}
    {n : Nat} (nonzero : i.rd ≠ Register.zero) {f : Guest → Option Word}
    (emits : Emits st size (g.generateInstruction i) n true (Anchored st size)
      fun s => .ofValue s.guest i.rd (f s.guest)) {env : Env} {s : State}
    (anchored : Anchored st size env s) (v : Word) :
    RunsTo g i n env s v ↔ f s.guest = some v := by
  obtain ⟨n', code, exits, ran, -, realizes⟩ := emits
  obtain ⟨ending, ends, meets⟩ := realizes env s anchored
  cases result : f s.guest with
  | none =>
    simp only [result, Outcome.ofValue] at meets
    refine iff_of_false ?_ (by simp)
    rintro ⟨o, ran', -, s', run, -⟩
    cases ran.symm.trans ran'
    -- the code faults, so it does not run to any state
    cases ending with
    | faulted =>
      have faults := ends.1
      rw [run] at faults
      cases faults
    | ran s' => exact False.elim meets
    | left e s' => exact False.elim meets
  | some w =>
    simp only [result, Outcome.ofValue] at meets
    cases ending with
    | faulted => exact False.elim meets
    | left e s' => exact False.elim meets
    | ran s₁ =>
      constructor
      · rintro ⟨o, ran', -, s', run, guest⟩
        cases ran.symm.trans ran'
        cases run.symm.trans ends.1
        exact congrArg some ((setRegister_inj s.guest nonzero _ _).mp (meets.guest.symm.trans guest))
      · rintro same
        cases same
        exact ⟨_, ran, rfl, s₁, ends.1, meets.guest⟩

private theorem emits_mulDiv (st : Setting) (size : Word) (g : CodeGenerator) {i : Instruction}
    (shape : InstructionDecoder.ImmediateOf i.type i.b)
    (kind : Interpreter.multiplies i.type = true) (nonzero : i.rd ≠ Register.zero) (n : Nat) :
    Emits st size (g.generateInstruction i) n true (Anchored st size) fun s =>
      .ofValue s.guest i.rd
        (mulDivValue i.type (s.guest.registers.get i.rs1) (s.guest.registers.get i.rs2)) := by
  cases division : isDivision i.type with
  | true =>
    refine (emits_division g division n).congr (fun _ _ anchored => anchored) fun env s _ => ?_
    rw [if_neg nonzero]
    congr 1
    cases type : i.type <;> first | rfl | exact absurd (type ▸ division) (by decide)
  | false =>
    -- what is no division is one of the two products
    have product : i.type = .mul ∨ i.type = .mulw := by
      revert kind division
      cases i.type <;> decide
    have direct : computesDirectly i.type = true := by rcases product with h | h <;> rw [h] <;> rfl
    have hasCode : ¬NoCode i := by
      rintro ⟨-, -, types⟩
      rcases product with h | h <;> simp [h] at types
    refine (Emits.of_does _ (does_computation st size g shape direct hasCode n)).congr
      (fun _ _ anchored => anchored) fun env s _ => ?_
    rcases product with h | h <;> simp [h, mulDivValue, Outcome.ofValue, computedValue]

/-- The code of a product or quotient gives `rd` the ISA's value, without a fault, exactly
when `DividesAsIsa`. -/
theorem mulDiv_matches_isa_iff (g : CodeGenerator) (encoded : BitVec 32)
    (kind : Interpreter.multiplies (Instruction.ofWord encoded).type = true)
    (nonzero : (Instruction.ofWord encoded).rd ≠ Register.zero) (n : Nat) (env : Env) (s : State)
    (anchored : Anchored (g.setting env) g.memory.size env s) :
    let i := Instruction.ofWord encoded
    let a := s.guest.registers.get i.rs1
    let b := s.guest.registers.get i.rs2
    RunsTo g i n env s (mulDiv i.type a b) ↔ DividesAsIsa i.type a b := by
  intro i a b
  have emits := emits_mulDiv (g.setting env) g.memory.size g
    (Instruction.immediateOf_ofWord encoded) kind nonzero n
  rw [runsTo_iff_of_emits nonzero (f := fun guest =>
    mulDivValue i.type (guest.registers.get i.rs1) (guest.registers.get i.rs2)) emits anchored]
  exact mulDivValue_eq_iff kind a b

/-- `div x3, x1, x2` of -7 and 2. -/
theorem mulDiv_matches_isa_div : ∃ g env s, RunsTo g (.ofWord 0x0220c1b3) 0 env s (-3) := by
  let g : CodeGenerator := ⟨.create 16 (by decide), {}, 4, false, 0⟩
  let guest : Guest := ⟨⟨fun r => if r = 1 then -7 else if r = 2 then 2 else 0⟩, g.memory⟩
  obtain ⟨env, s, anchored, start, -⟩ :=
    exists_anchored g guest (fun _ => 0) rfl rfl (by decide) (by decide)
  have runs := (mulDiv_matches_isa_iff g 0x0220c1b3 (by decide) (by decide) 0 env s anchored).mpr
    (by rw [start]; decide)
  have value : mulDiv (Instruction.ofWord 0x0220c1b3).type
      (s.guest.registers.get (Instruction.ofWord 0x0220c1b3).rs1)
      (s.guest.registers.get (Instruction.ofWord 0x0220c1b3).rs2) = -3 := by
    rw [start]
    decide
  rw [value] at runs
  exact ⟨g, env, s, runs⟩

/-- `div x3, x1, x2` with `x2 = 0`: the host faults. -/
theorem mulDiv_div_zero_faults :
    ¬∀ (g : CodeGenerator) (encoded : BitVec 32),
      Interpreter.multiplies (Instruction.ofWord encoded).type = true →
      (Instruction.ofWord encoded).rd ≠ Register.zero →
      ∀ (n : Nat) (env : Env) (s : State), Anchored (g.setting env) g.memory.size env s →
        RunsTo g (.ofWord encoded) n env s (mulDiv (Instruction.ofWord encoded).type
          (s.guest.registers.get (Instruction.ofWord encoded).rs1)
          (s.guest.registers.get (Instruction.ofWord encoded).rs2)) := by
  intro claim
  -- `div x3, x1, x2` with `x1 = 7` and `x2 = 0`
  let g : CodeGenerator := ⟨.create 16 (by decide), {}, 4, false, 0⟩
  let guest : Guest := ⟨⟨fun r => if r = 1 then 7 else 0⟩, g.memory⟩
  obtain ⟨env, s, anchored, start, -⟩ :=
    exists_anchored g guest (fun _ => 0) rfl rfl (by decide) (by decide)
  have runs := claim g 0x0220c1b3 (by decide) (by decide) 0 env s anchored
  have emits := emits_mulDiv (g.setting env) g.memory.size g
    (Instruction.immediateOf_ofWord 0x0220c1b3) (by decide) (by decide) 0
  rw [runsTo_iff_of_emits (by decide) (f := fun guest =>
    mulDivValue (Instruction.ofWord 0x0220c1b3).type
      (guest.registers.get (Instruction.ofWord 0x0220c1b3).rs1)
      (guest.registers.get (Instruction.ofWord 0x0220c1b3).rs2)) emits anchored,
    mulDivValue_eq_iff (by decide), start] at runs
  exact absurd runs (by decide)

end Riscv64Emulator.Jit.X64
