import Riscv64Emulator.Vm.Isa

/-!
# The M extension

The products, quotients and remainders of the unprivileged ISA, stated over the integers,
and what the interpreter's C++ operators make of them. The multiplications that return the
high half are left out: the interpreter refuses them.
-/
namespace Riscv64Emulator

namespace Isa

section Division

variable {w : Nat}

theorem toInt_minusOne (positive : 0 < w) : (-1 : BitVec w).toInt = -1 := by
  rw [show (-1 : BitVec w) = BitVec.allOnes w from BitVec.neg_one_eq_allOnes,
    BitVec.toInt_allOnes, if_pos positive]

/-- Division rounds towards zero. A zero divisor gives all ones, the overflow the dividend. -/
def quotient (signed : Bool) (a b : BitVec w) : BitVec w :=
  if b = 0 then BitVec.allOnes w
  else if signed then
    if a = BitVec.intMin w ∧ b = -1 then a else BitVec.ofInt w (a.toInt.tdiv b.toInt)
  else BitVec.ofNat w (a.toNat / b.toNat)

/-- The remainder has the sign of the dividend. A zero divisor gives the dividend, the
overflow zero. -/
def remainder (signed : Bool) (a b : BitVec w) : BitVec w :=
  if b = 0 then a
  else if signed then
    if a = BitVec.intMin w ∧ b = -1 then 0 else BitVec.ofInt w (a.toInt.tmod b.toInt)
  else BitVec.ofNat w (a.toNat % b.toNat)

theorem quotient_zero (signed : Bool) (a : BitVec w) : quotient signed a 0 = BitVec.allOnes w :=
  if_pos rfl

theorem remainder_zero (signed : Bool) (a : BitVec w) : remainder signed a 0 = a :=
  if_pos rfl

theorem quotient_signed {a b : BitVec w} (nonzero : b ≠ 0) : quotient true a b = a.sdiv b := by
  unfold quotient
  rw [if_neg nonzero, if_pos rfl]
  split
  next overflow =>
    obtain ⟨rfl, rfl⟩ := overflow
    exact BitVec.intMin_sdiv_neg_one.symm
  next =>
    apply BitVec.eq_of_toInt_eq
    rw [BitVec.toInt_ofInt, BitVec.toInt_sdiv]

theorem quotient_unsigned {a b : BitVec w} (nonzero : b ≠ 0) : quotient false a b = a.udiv b := by
  unfold quotient
  rw [if_neg nonzero, if_neg (by decide)]
  apply BitVec.eq_of_toNat_eq
  rw [BitVec.toNat_ofNat]
  exact Nat.mod_eq_of_lt (Nat.lt_of_le_of_lt (Nat.div_le_self _ _) a.isLt)

theorem remainder_signed (a b : BitVec w) : remainder true a b = a.srem b := by
  unfold remainder
  by_cases zero : b = 0
  · rw [if_pos zero, zero]
    exact BitVec.srem_zero.symm
  · rw [if_neg zero, if_pos rfl]
    split
    -- the least value by minus one has no remainder either way
    next overflow =>
      obtain ⟨rfl, rfl⟩ := overflow
      have positive : 0 < w := Nat.pos_of_ne_zero fun empty => zero (by subst empty; rfl)
      apply BitVec.eq_of_toInt_eq
      rw [BitVec.toInt_srem, toInt_minusOne positive, Int.tmod_neg, Int.tmod_one]
      exact BitVec.toInt_zero
    next => rw [← BitVec.toInt_srem, BitVec.ofInt_toInt]

theorem remainder_unsigned (a b : BitVec w) : remainder false a b = a.umod b := by
  unfold remainder
  by_cases zero : b = 0
  · rw [if_pos zero, zero]
    exact BitVec.umod_zero.symm
  · rw [if_neg zero, if_neg (by decide)]
    apply BitVec.eq_of_toNat_eq
    rw [BitVec.toNat_ofNat]
    exact Nat.mod_eq_of_lt (Nat.lt_of_le_of_lt (Nat.mod_le _ _) a.isLt)

/-- Quotient and remainder make up the dividend, whatever the divisor. -/
theorem quotient_mul_add_remainder (signed : Bool) (a b : BitVec w) :
    quotient signed a b * b + remainder signed a b = a := by
  by_cases zero : b = 0
  · have whole := remainder_zero signed a
    simpa [zero] using whole
  -- both reduce to the division theorem over the integers or the naturals, cast to words
  cases signed with
  | true =>
    have quotient : a.sdiv b = BitVec.ofInt w (a.toInt.tdiv b.toInt) := by
      apply BitVec.eq_of_toInt_eq
      rw [BitVec.toInt_ofInt, BitVec.toInt_sdiv]
    have remainder : a.srem b = BitVec.ofInt w (a.toInt.tmod b.toInt) := by
      rw [← BitVec.toInt_srem, BitVec.ofInt_toInt]
    rw [quotient_signed zero, remainder_signed, quotient, remainder]
    calc BitVec.ofInt w (a.toInt.tdiv b.toInt) * b + BitVec.ofInt w (a.toInt.tmod b.toInt)
        = BitVec.ofInt w (a.toInt.tdiv b.toInt * b.toInt + a.toInt.tmod b.toInt) := by
          rw [BitVec.ofInt_add, BitVec.ofInt_mul, BitVec.ofInt_toInt]
      _ = a := by rw [Int.tdiv_mul_add_tmod, BitVec.ofInt_toInt]
  | false =>
    rw [quotient_unsigned zero, remainder_unsigned]
    have quotient : a.udiv b = BitVec.ofNat w (a.toNat / b.toNat) := by
      rw [← BitVec.toNat_udiv, BitVec.ofNat_toNat, BitVec.setWidth_eq]
      rfl
    have remainder : a.umod b = BitVec.ofNat w (a.toNat % b.toNat) := by
      rw [← BitVec.toNat_umod, BitVec.ofNat_toNat, BitVec.setWidth_eq]
      rfl
    rw [quotient, remainder]
    calc BitVec.ofNat w (a.toNat / b.toNat) * b + BitVec.ofNat w (a.toNat % b.toNat)
        = BitVec.ofNat w (a.toNat / b.toNat * b.toNat + a.toNat % b.toNat) := by
          rw [BitVec.ofNat_add, BitVec.ofNat_mul, BitVec.ofNat_toNat, BitVec.setWidth_eq]
      _ = a := by rw [Nat.div_add_mod', BitVec.ofNat_toNat, BitVec.setWidth_eq]

end Division

/-- The value of `rd` for operands `a` (of `rs1`) and `b` (of `rs2`). -/
def mulDiv (type : InstructionType) (a b : Word) : Word :=
  match type with
  | .mul => BitVec.ofNat 64 (a.toNat * b.toNat)
  | .mulw => word (BitVec.ofNat 32 ((low a).toNat * (low b).toNat))
  | .div => quotient true a b
  | .divu => quotient false a b
  | .divw => word (quotient true (low a) (low b))
  | .divuw => word (quotient false (low a) (low b))
  | .rem => remainder true a b
  | .remu => remainder false a b
  | .remw => word (remainder true (low a) (low b))
  | .remuw => word (remainder false (low a) (low b))
  | _ => 0

theorem product_eq {w : Nat} (a b : BitVec w) : BitVec.ofNat w (a.toNat * b.toNat) = a * b := by
  apply BitVec.eq_of_toNat_eq
  rw [BitVec.toNat_ofNat, BitVec.toNat_mul]

theorem word_inj {x y : BitVec 32} : word x = word y ↔ x = y := by
  constructor
  · intro same
    have halves := congrArg (BitVec.setWidth 32) same
    simpa only [word, setWidth_signExtend] using halves
  · rintro rfl
    rfl

end Isa

namespace Interpreter

open Isa

/-- The operands of a signed division whose quotient does not fit. -/
def Overflows {w : Nat} (a b : BitVec w) : Prop := a = BitVec.intMin w ∧ b = -1

/-- The operands for which the C++ operators of `step` have a result. -/
def Defined (type : InstructionType) (a b : Word) : Prop :=
  match type with
  | .mul => True
  | .div | .rem => b ≠ 0 ∧ ¬Overflows a b
  | .divw | .remw => low b ≠ 0 ∧ ¬Overflows (low a) (low b)
  | .divu | .remu => b ≠ 0
  | .mulw | .divuw | .remuw => low b ≠ 0
  | _ => False

instance {w : Nat} (a b : BitVec w) : Decidable (Overflows a b) :=
  inferInstanceAs (Decidable (a = BitVec.intMin w ∧ b = -1))

instance (type : InstructionType) (a b : Word) : Decidable (Defined type a b) := by
  cases type <;> unfold Defined <;> infer_instance

/-- When `step` gives `rd` the ISA's value without an undefined operation: `mulw` divides. -/
def DividesAsIsa (i : Instruction) (r : RegisterState) : Prop :=
  let a := r.get i.rs1
  let b := r.get i.rs2
  Defined i.type a b ∧
    (i.type = .mulw → i.rd = Register.zero ∨ low a / low b = low a * low b)

theorem signedDivision_ok {w : Nat} {op : BitVec w → BitVec w → BitVec w} {a b q : BitVec w} :
    signedDivision op a b = .ok q ↔ (b ≠ 0 ∧ ¬Overflows a b) ∧ op a b = q := by
  unfold signedDivision Overflows
  split
  next undefined => rcases undefined with zero | overflow <;> simp_all
  next defined => simp_all

theorem unsignedDivision_ok {w : Nat} {op : BitVec w → BitVec w → BitVec w} {a b q : BitVec w} :
    unsignedDivision op a b = .ok q ↔ b ≠ 0 ∧ op a b = q := by
  unfold unsignedDivision
  split
  next zero => simp_all
  next nonzero => simp_all

private theorem map_ok {x : Except Abort (BitVec 32)} {f : BitVec 32 → Word} {v : Word} :
    x.map f = .ok v ↔ ∃ r, x = .ok r ∧ f r = v := by
  cases x <;> simp [Except.map]

private theorem map_error {x : Except Abort (BitVec 32)} {f : BitVec 32 → Word} {e : Abort}
    (error : x.map f = .error e) : x = .error e := by
  cases x <;> simp_all [Except.map]

private theorem signedDivision_error {w : Nat} {op : BitVec w → BitVec w → BitVec w}
    {a b : BitVec w} {e : Abort} (error : signedDivision op a b = .error e) :
    e = .undefinedBehaviour := by
  unfold signedDivision at error
  split at error <;> cases error
  rfl

private theorem unsignedDivision_error {w : Nat} {op : BitVec w → BitVec w → BitVec w}
    {a b : BitVec w} {e : Abort} (error : unsignedDivision op a b = .error e) :
    e = .undefinedBehaviour := by
  unfold unsignedDivision at error
  split at error <;> cases error
  rfl

/-- The value of the C++ operators where they have one. -/
theorem mulDivResult_ok_iff {type : InstructionType} (kind : multiplies type = true)
    (a b v : Word) :
    mulDivResult type a b = .ok v ↔
      Defined type a b ∧ v = if type = .mulw then word (low a / low b) else mulDiv type a b := by
  have zeroExtended : (fun q : BitVec 32 => signextend32 (q.setWidth 64)) = word :=
    funext signextend32_setWidth
  have signExtended : (fun q : BitVec 32 => signextend32 (q.signExtend 64)) = word :=
    funext signextend32_signExtend
  cases type <;> try exact absurd kind (by decide)
  all_goals simp only [mulDivResult, Defined, mulDiv, low, zeroExtended, signExtended, map_ok,
    signedDivision_ok, unsignedDivision_ok, reduceCtorEq, if_false, if_true, Except.ok.injEq,
    and_assoc, exists_and_left, exists_eq_left']
  case mul => rw [product_eq, true_and, eq_comm]
  -- the source divides here
  case mulw => exact and_congr_right fun _ => eq_comm
  case div | divw =>
    refine and_congr_right fun nonzero => and_congr_right fun _ => ?_
    rw [quotient_signed nonzero, eq_comm]
  case divu | divuw =>
    refine and_congr_right fun nonzero => ?_
    rw [quotient_unsigned nonzero, eq_comm]
  case rem | remw =>
    refine and_congr_right fun _ => and_congr_right fun _ => ?_
    rw [remainder_signed, eq_comm]
  case remu | remuw =>
    refine and_congr_right fun _ => ?_
    rw [remainder_unsigned, eq_comm]

/-- Without a value the operators are undefined. -/
theorem mulDivResult_error {type : InstructionType} (kind : multiplies type = true) {a b : Word}
    {e : Abort} (error : mulDivResult type a b = .error e) :
    e = .undefinedBehaviour ∧ ¬Defined type a b := by
  constructor
  · cases type <;> try exact absurd kind (by decide)
    -- a product always has a value
    case mul => cases error
    case div | rem => exact signedDivision_error error
    case divu | remu => exact unsignedDivision_error error
    case divw | remw => exact signedDivision_error (map_error error)
    case mulw | divuw | remuw => exact unsignedDivision_error (map_error error)
  · intro defined
    have value := (mulDivResult_ok_iff kind a b _).mpr ⟨defined, rfl⟩
    rw [error] at value
    cases value

theorem computed_mulDiv {i : Instruction} (kind : multiplies i.type = true) (pc : Word)
    (r : RegisterState) :
    computed i pc r = mulDivResult i.type (r.get i.rs1) (r.get i.rs2) := by
  unfold computed
  cases type : i.type <;> first | rfl | exact absurd (type ▸ kind) (by decide)

/-- One step of a multiplication or division does what the ISA defines, and nothing else,
exactly when the C++ operators are defined and `mulw` does not show that it divides. -/
theorem step_matches_mulDiv_iff (s : VmState) (i : Instruction) (fetch : fetched s = some i)
    (kind : multiplies i.type = true) :
    step s = .ok (true, retire s (s.cpu.set i.rd
        (mulDiv i.type (s.cpu.get i.rs1) (s.cpu.get i.rs2)))) ↔ DividesAsIsa i s.cpu := by
  rw [step_of_fetched fetch, execute_computed s i (Or.inr kind), computed_mulDiv kind]
  unfold DividesAsIsa
  generalize s.cpu.get i.rs1 = a
  generalize s.cpu.get i.rs2 = b
  have returns := mulDivResult_ok_iff kind a b
  cases result : mulDivResult i.type a b with
  | error e =>
    simp [Except.map, (mulDivResult_error kind result).2]
  | ok v =>
    obtain ⟨defined, rfl⟩ := (returns v).mp result
    simp only [Except.map, Except.ok.injEq, Prod.mk.injEq, true_and, defined,
      retire_set_inj _ _ _ _ i.rd_ne_pc]
    -- `mulw` agrees only where its quotient happens to be the product
    by_cases divides : i.type = .mulw
    · simp [divides, mulDiv, word_inj, product_eq]
    · simp [divides]

/-- `divu x1, x2, x3` of 7 and 2. -/
theorem step_matches_mulDiv_divu :
    ∃ s : VmState, fetched s = some (.ofWord 0x023150b3) ∧
      step s = .ok (true, retire s (s.cpu.set 1 3)) := by
  let memory := Memory.ofImage 16 (by decide) [0xb3, 0x50, 0x31, 0x02] (MemoryFlags.execute)
  let s : VmState := ⟨memory, ⟨fun r => if r = 2 then 7 else if r = 3 then 2 else 0⟩, {}⟩
  have fetch : fetched s = some (.ofWord 0x023150b3) := by decide
  have agrees : DividesAsIsa (.ofWord 0x023150b3) s.cpu := ⟨by decide, by decide⟩
  have stepped := (step_matches_mulDiv_iff s _ fetch (by decide)).mpr agrees
  have rd : (Instruction.ofWord 0x023150b3).rd = 1 := by decide
  have value : mulDiv (Instruction.ofWord 0x023150b3).type
      (s.cpu.get (Instruction.ofWord 0x023150b3).rs1)
      (s.cpu.get (Instruction.ofWord 0x023150b3).rs2) = 3 := by decide
  rw [rd, value] at stepped
  exact ⟨s, fetch, stepped⟩

/-- `divu x1, x2, x3` with `x3 = 0` is undefined; the ISA gives all ones. -/
theorem step_divu_zero_differs :
    ¬∀ (s : VmState) (i : Instruction), fetched s = some i → multiplies i.type = true →
      step s = .ok (true, retire s (s.cpu.set i.rd
        (mulDiv i.type (s.cpu.get i.rs1) (s.cpu.get i.rs2)))) := by
  intro claim
  let memory := Memory.ofImage 16 (by decide) [0xb3, 0x50, 0x31, 0x02] (MemoryFlags.execute)
  let s : VmState := ⟨memory, ⟨fun _ => 0⟩, {}⟩
  have fetch : fetched s = some (.ofWord 0x023150b3) := by decide
  have equal := claim s _ fetch (by decide)
  rw [step_of_fetched fetch, execute_computed s _ (Or.inr (by decide))] at equal
  have undefined : computed (.ofWord 0x023150b3) s.cpu.pc s.cpu = .error .undefinedBehaviour := by
    decide
  rw [undefined] at equal
  cases equal

end Interpreter

end Riscv64Emulator
