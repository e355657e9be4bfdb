import Riscv64Emulator.Jit.Aarch64.Compute
import Riscv64Emulator.Jit.Aarch64.Entry
import Riscv64Emulator.Vm.MulDiv

/-!
# Results on AArch64

What the code of a computation leaves in the host register of its destination. The
arithmetic of the ISA comes out for every choice of the assembler; a quotient by zero is
zero, where the ISA asks for all ones.
-/
namespace Riscv64Emulator.Jit.Aarch64

open LinearCode CodeGenerator RegisterCache

/-- The value of a guest register while a block runs: its host register if it has one, its
entry of the register table otherwise. -/
def guestValue (c : RegisterCache) (s : State) (r : Register) : Word :=
  match c.registerToSlot r with
  | some id => s.regs (RA.cache id)
  | none => s.guest.registers.get r

theorem Mirrors.guestValue_eq {b : Block} {c : RegisterCache} {k : Ghost} {s : State} (wf : c.WF)
    (mirrors : Mirrors b c settled k s) (r : Register) :
    guestValue c s r = k.2.registers.get r := by
  unfold guestValue
  cases place : c.registerToSlot r with
  | some id =>
    have held := mirrors.registers.held id r (wf.key_iff.mpr place) (Or.inr fun stale => stale)
    exact congrArg Prod.fst held
  | none =>
    have nowhere : ∀ id, c.directory.key id ≠ some r := fun id here => by
      rw [wf.key_iff.mp here] at place
      cases place
    exact congrArg Prod.fst (mirrors.registers.absent nowhere)

/-- The generator emits code for the instruction and the code runs to its end. Then the host
register of `rd` is marked dirty and holds `v`; the other guest registers have the values
they had. -/
def LeavesInHost (g : CodeGenerator) (i : Instruction) (c : GenState) (env : Env) (s : State)
    (v : Word) : Prop :=
  ∃ o, (g.generateInstruction i).run c = .ok o ∧ o.value = true ∧
    ∃ id, o.state.cache.registerToSlot i.rd = some id ∧ (o.state.cache.slots id).dirty = true ∧
      ∃ s', exec (step env) o.code (.running s) = .running s' ∧ s'.regs (RA.cache id) = v ∧
        (∀ r, r ≠ i.rd → guestValue o.state.cache s' r = guestValue c.cache s r) ∧
        s'.guest.memory = s.guest.memory

/-- The code of a computation leaves one value. -/
theorem leavesInHost_iff {b : Block} {g : CodeGenerator} (uses : g.Uses b) {i : Instruction}
    (nonzero : i.rd ≠ Register.zero) (kind : isComputation i.type = true)
    (shape : InstructionDecoder.ImmediateOf i.type i.b) {c : GenState} (idle : c.cache.Idle)
    {env : Env} {guest : Guest} {s : State} (mirrors : Mirrors b c.cache settled (env, guest) s)
    (v : Word) :
    LeavesInHost g i c env s v ↔ computedValue i g.currentPc guest.registers = v := by
  obtain ⟨c', idle', ⟨id, place, dirty⟩, code, exits, ran, -, realizes⟩ :=
    emits_computation nonzero uses kind shape idle
  obtain ⟨ending, ends, meets⟩ := realizes (env, guest) s mirrors
  cases ending with
  | left e s' => exact False.elim meets
  | faulted => exact False.elim meets
  | ran s₁ =>
    have after : ∀ r, guestValue c'.cache s₁ r
        = (guest.registers.set i.rd (computedValue i g.currentPc guest.registers)).get r :=
      Mirrors.guestValue_eq idle'.wf meets
    -- `rd` is cached behind the code, with the computed value
    have result : s₁.regs (RA.cache id) = computedValue i g.currentPc guest.registers := by
      have own := after i.rd
      rwa [guestValue, place, RegisterState.get_set_same _ _ _ nonzero] at own
    constructor
    -- the generator is a function, so it is this code and this slot
    · rintro ⟨o, ran', -, id', place', -, s', run, value, -⟩
      cases ran.symm.trans ran'
      cases place.symm.trans place'
      cases run.symm.trans ends.1
      exact result.symm.trans value
    · rintro rfl
      refine ⟨_, ran, rfl, id, place, dirty, s₁, ends.1, result, fun r other => ?_, ?_⟩
      · rw [after r, RegisterState.get_set_other _ _ other, mirrors.guestValue_eq idle.wf]
      · exact meets.memory.trans mirrors.memory.symm

/-! ### Arithmetic -/

/-- The computations whose values are those of the ISA. -/
def isArithmetic (type : InstructionType) : Bool :=
  Isa.computes type || type == .mul || type == .mulw

/-- The value the ISA gives `rd`. -/
def isaValueOf (i : Instruction) (pc : Word) (r : RegisterState) : Word :=
  if Isa.computes i.type then Isa.result i pc r
  else Isa.mulDiv i.type (r.get i.rs1) (r.get i.rs2)

theorem mulDivValue_product {type : InstructionType} (kind : type = .mul ∨ type = .mulw)
    (a b : Word) : mulDivValue type a b = Isa.mulDiv type a b := by
  rcases kind with rfl | rfl
  · simp only [mulDivValue, Isa.mulDiv, Isa.product_eq, Width.lift]
  · simp only [mulDivValue, Isa.mulDiv, Isa.product_eq, Width.extend, Width.lift,
      signextend32_setWidth, Isa.word, Isa.low]

/-- Lui, Auipc, the arithmetic with registers and immediates and the two products leave the
ISA's value in the host register of `rd`. -/
theorem arithmetic_matches_isa (g : CodeGenerator) (encoded : BitVec 32)
    (kind : isArithmetic (Instruction.ofWord encoded).type = true)
    (nonzero : (Instruction.ofWord encoded).rd ≠ Register.zero) (c : GenState)
    (idle : c.cache.Idle) (env : Env) (guest : Guest) (s : State)
    (mirrors : Mirrors (g.block env) c.cache settled (env, guest) s) :
    LeavesInHost g (.ofWord encoded) c env s
      (isaValueOf (.ofWord encoded) g.currentPc guest.registers) := by
  -- only the products are not among `Isa.computes`
  have kinds : ∀ type, isArithmetic type = true → isComputation type = true ∧
      (Isa.computes type = false → type = .mul ∨ type = .mulw) := by
    intro type
    cases type <;> decide
  obtain ⟨computation, products⟩ := kinds _ kind
  refine (leavesInHost_iff (g.uses_block env) nonzero computation
    (Instruction.immediateOf_ofWord encoded) idle mirrors _).mpr ?_
  unfold computedValue isaValueOf
  cases direct : Isa.computes (Instruction.ofWord encoded).type with
  | true => rw [if_pos rfl, if_pos rfl]
  | false =>
    rw [if_neg Bool.false_ne_true, if_neg Bool.false_ne_true]
    exact mulDivValue_product (products direct) _ _

/-- `add x3, x1, x2` of 5 and 7. -/
theorem arithmetic_matches_isa_add :
    ∃ g env s, LeavesInHost g (.ofWord 0x002081b3) ⟨0, {}⟩ env s 12 := by
  let g : CodeGenerator := ⟨.plain, .create 16 (by decide), {}, 4, false, 0, 0⟩
  let guest : Guest := ⟨⟨fun r => if r = 1 then 5 else if r = 2 then 7 else 0⟩, g.memory⟩
  obtain ⟨env, s, mirrors, -⟩ :=
    exists_mirrors g guest (fun _ => 0) rfl rfl (by decide) (by decide)
  have leaves := arithmetic_matches_isa g 0x002081b3 (by decide) (by decide) ⟨0, {}⟩ .empty env guest
    s mirrors
  have value : isaValueOf (.ofWord 0x002081b3) g.currentPc guest.registers = 12 := by decide
  rw [value] at leaves
  exact ⟨g, env, s, leaves⟩

/-! ### Products and quotients -/

/-- When the host's division is the ISA's: a quotient needs a divisor other than zero at
its width. -/
def DividesAsIsa (type : InstructionType) (b : Word) : Prop :=
  match type with
  | .div | .divu => b ≠ 0
  | .divw | .divuw => Isa.low b ≠ 0
  | _ => True

instance (type : InstructionType) (b : Word) : Decidable (DividesAsIsa type b) := by
  cases type <;> unfold DividesAsIsa <;> infer_instance

section Host

variable {w : Nat}

/-- The host has zero for a quotient by zero. -/
theorem divide_eq (signed : Bool) (a b : BitVec w) :
    divide signed w a b = if b = 0 then 0 else Isa.quotient signed a b := by
  unfold divide
  by_cases zero : b = 0
  · rw [if_pos zero, zero]
    cases signed with
    | true => exact BitVec.sdiv_zero
    | false => exact BitVec.udiv_zero
  · rw [if_neg zero]
    cases signed with
    | true => exact (Isa.quotient_signed zero).symm
    | false => exact (Isa.quotient_unsigned zero).symm

theorem divide_eq_quotient_iff (signed : Bool) (a b : BitVec w) (positive : 0 < w) :
    divide signed w a b = Isa.quotient signed a b ↔ b ≠ 0 := by
  rw [divide_eq]
  by_cases zero : b = 0
  · rw [if_pos zero, zero, Isa.quotient_zero]
    refine iff_of_false (fun same => ?_) (fun nonzero => nonzero rfl)
    have bits := congrArg (fun v => v.getLsbD 0) same
    simp [positive] at bits
  · rw [if_neg zero]
    exact iff_of_true rfl zero

/-- A remainder by zero is the dividend on both sides. -/
theorem sub_divide_mul (signed : Bool) (a b : BitVec w) :
    a - divide signed w a b * b = Isa.remainder signed a b := by
  rw [divide_eq]
  by_cases zero : b = 0
  · have whole := Isa.remainder_zero signed a
    simpa [zero] using whole.symm
  · rw [if_neg zero, BitVec.sub_eq_iff_eq_add, BitVec.add_comm]
    exact (Isa.quotient_mul_add_remainder signed a b).symm

end Host

theorem extend_lift (f : ∀ w, BitVec w → BitVec w → BitVec w) (a b : Word) :
    Width.w32.extend (Width.w32.lift f a b) = Isa.word (f 32 (Isa.low a) (Isa.low b)) :=
  signextend32_setWidth _

theorem low_lift (f : ∀ w, BitVec w → BitVec w → BitVec w) (a b : Word) :
    Isa.low (Width.w32.lift f a b) = f 32 (Isa.low a) (Isa.low b) := by
  simp only [Isa.low, Width.lift, BitVec.setWidth_setWidth_of_le, BitVec.setWidth_eq, Nat.reduceLeDiff]

/-- The code of a quotient or remainder has the ISA's value exactly when `DividesAsIsa`. -/
theorem mulDivValue_eq_iff {type : InstructionType} (kind : isDivision type = true) (a b : Word) :
    mulDivValue type a b = Isa.mulDiv type a b ↔ DividesAsIsa type b := by
  cases type <;> try exact absurd kind (by decide)
  case div => exact divide_eq_quotient_iff true a b (by decide)
  case divu => exact divide_eq_quotient_iff false a b (by decide)
  case divw =>
    rw [mulDivValue, Isa.mulDiv, extend_lift, Isa.word_inj]
    exact divide_eq_quotient_iff true (Isa.low a) (Isa.low b) (by decide)
  case divuw =>
    rw [mulDivValue, Isa.mulDiv, extend_lift, Isa.word_inj]
    exact divide_eq_quotient_iff false (Isa.low a) (Isa.low b) (by decide)
  case rem => exact iff_of_true (sub_divide_mul true a b) trivial
  case remu => exact iff_of_true (sub_divide_mul false a b) trivial
  case remw =>
    refine iff_of_true ?_ trivial
    simp only [mulDivValue, Isa.mulDiv, extend_lift, low_lift, sub_divide_mul]
  case remuw =>
    refine iff_of_true ?_ trivial
    simp only [mulDivValue, Isa.mulDiv, extend_lift, low_lift, sub_divide_mul]

/-- The code of a quotient or remainder leaves the ISA's value in the host register of `rd`
exactly when `DividesAsIsa`. -/
theorem division_matches_isa_iff (g : CodeGenerator) (encoded : BitVec 32)
    (kind : isDivision (Instruction.ofWord encoded).type = true)
    (nonzero : (Instruction.ofWord encoded).rd ≠ Register.zero) (c : GenState)
    (idle : c.cache.Idle) (env : Env) (guest : Guest) (s : State)
    (mirrors : Mirrors (g.block env) c.cache settled (env, guest) s) :
    let i := Instruction.ofWord encoded
    let a := guest.registers.get i.rs1
    let b := guest.registers.get i.rs2
    LeavesInHost g i c env s (Isa.mulDiv i.type a b) ↔ DividesAsIsa i.type b := by
  intro i a b
  have kinds : ∀ type, isDivision type = true →
      isComputation type = true ∧ Isa.computes type = false := by
    intro type
    cases type <;> decide
  obtain ⟨computation, indirect⟩ := kinds _ kind
  rw [leavesInHost_iff (g.uses_block env) nonzero computation
    (Instruction.immediateOf_ofWord encoded) idle mirrors, computedValue,
    if_neg (by rw [indirect]; exact Bool.false_ne_true)]
  exact mulDivValue_eq_iff kind a b

/-- `rem x3, x1, x2` of 7 by 0. -/
theorem division_matches_isa_rem : ∃ g env s, LeavesInHost g (.ofWord 0x0220e1b3) ⟨0, {}⟩ env s 7 := by
  let g : CodeGenerator := ⟨.plain, .create 16 (by decide), {}, 4, false, 0, 0⟩
  let guest : Guest := ⟨⟨fun r => if r = 1 then 7 else 0⟩, g.memory⟩
  obtain ⟨env, s, mirrors, -⟩ :=
    exists_mirrors g guest (fun _ => 0) rfl rfl (by decide) (by decide)
  have leaves := (division_matches_isa_iff g 0x0220e1b3 (by decide) (by decide) ⟨0, {}⟩ .empty env
    guest s mirrors).mpr (by decide)
  have value : Isa.mulDiv (Instruction.ofWord 0x0220e1b3).type
      (guest.registers.get (Instruction.ofWord 0x0220e1b3).rs1)
      (guest.registers.get (Instruction.ofWord 0x0220e1b3).rs2) = 7 := by decide
  rw [value] at leaves
  exact ⟨g, env, s, leaves⟩

/-- `div x3, x1, x2` of 7 by 0: the code leaves 0, the ISA asks for -1. -/
theorem division_div_zero_differs :
    ¬∀ (g : CodeGenerator) (encoded : BitVec 32),
      isDivision (Instruction.ofWord encoded).type = true →
      (Instruction.ofWord encoded).rd ≠ Register.zero →
      ∀ (c : GenState), c.cache.Idle → ∀ (env : Env) (guest : Guest) (s : State),
        Mirrors (g.block env) c.cache settled (env, guest) s →
        LeavesInHost g (.ofWord encoded) c env s (Isa.mulDiv (Instruction.ofWord encoded).type
          (guest.registers.get (Instruction.ofWord encoded).rs1)
          (guest.registers.get (Instruction.ofWord encoded).rs2)) := by
  intro claim
  let g : CodeGenerator := ⟨.plain, .create 16 (by decide), {}, 4, false, 0, 0⟩
  let guest : Guest := ⟨⟨fun r => if r = 1 then 7 else 0⟩, g.memory⟩
  obtain ⟨env, s, mirrors, -⟩ :=
    exists_mirrors g guest (fun _ => 0) rfl rfl (by decide) (by decide)
  have leaves := claim g 0x0220c1b3 (by decide) (by decide) ⟨0, {}⟩ .empty env guest s mirrors
  rw [leavesInHost_iff (g.uses_block env) (by decide) (by decide)
    (Instruction.immediateOf_ofWord 0x0220c1b3) .empty mirrors] at leaves
  exact absurd leaves (by decide)

end Riscv64Emulator.Jit.Aarch64
