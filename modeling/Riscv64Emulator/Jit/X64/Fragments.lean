import Riscv64Emulator.Jit.X64.CodeGenerator
import Riscv64Emulator.Jit.HostAccess

/-!
# Straight-line fragments of x64 code

What the register loads, register stores and operations of the x64 code generator emit
and do. Each generator function has one lemma; the code of an instruction is put together
from them with `Straight.bind`.
-/
namespace Riscv64Emulator.Jit.X64

open LinearCode

/-- The registers generated code computes in. -/
def isScratch : X64R → Bool
  | .rax | .rbx | .rcx | .rdx => true
  | _ => false

/-- The base registers hold what `enter` of the trampoline puts there, and the environment
serves the guest. No generated instruction writes a base register. -/
structure Anchored (st : Setting) (size : Word) (env : Env) (s : State) : Prop where
  serves : env.Serves st size s.guest
  registerState : s.regs RA.registerState = env.layout.registerState
  memoryBase : s.regs RA.memoryBase = env.layout.memoryBase
  permissionsBase : s.regs RA.permissionsBase
    = env.layout.memoryBase + BitVec.ofNat 64 (8 * blockCount size)
  codeBase : s.regs RA.codeBase = env.layout.codeBase
  blockBase : s.regs RA.blockBase = env.layout.blockBase

namespace Anchored

variable {st : Setting} {size : Word} {env : Env} {s : State}

theorem setReg (anchored : Anchored st size env s) {t : X64R} (scratch : isScratch t = true)
    (v : Word) (f : Bool) : Anchored st size env (s.setReg t v f) := by
  have other : ∀ q, isScratch q = false → (s.setReg t v f).regs q = s.regs q := by
    intro q fixed
    rw [State.regs_setReg, if_neg (by rintro rfl; simp [scratch] at fixed)]
  constructor
  · exact anchored.serves
  · rw [other _ rfl, anchored.registerState]
  · rw [other _ rfl, anchored.memoryBase]
  · rw [other _ rfl, anchored.permissionsBase]
  · rw [other _ rfl, anchored.codeBase]
  · rw [other _ rfl, anchored.blockBase]

theorem setFlags (anchored : Anchored st size env s) (f : Option Flags) :
    Anchored st size env (s.setFlags f) :=
  { anchored with }

theorem setGuest (anchored : Anchored st size env s) {g : Guest}
    (serves : env.Serves st size g) : Anchored st size env (s.setGuest g) :=
  { anchored with serves := serves }

theorem setRegister (anchored : Anchored st size env s) (r : Register) (v : Word) :
    Anchored st size env (s.setGuest (s.guest.setRegister r v)) :=
  anchored.setGuest (anchored.serves.setRegister r v)

end Anchored

/-- What the trampoline calls generated code with. The other registers hold leftovers of
the caller, which are no guest data. -/
def enter (env : Env) (guest : Guest) (leftover : X64R → Word) : State where
  regs
    | .rsi => env.layout.registerState
    | .rdi => env.layout.memoryBase
    | .r8 => env.layout.memoryBase + BitVec.ofNat 64 guest.memory.permissionsOffset
    | .r9 => env.layout.codeBase
    | .r10 => env.layout.blockBase
    | q => leftover q
  foreign _ := true
  flags := none
  guest := guest

theorem anchored_enter {st : Setting} {size : Word} {env : Env} {guest : Guest}
    (serves : env.Serves st size guest) (leftover : X64R → Word) :
    Anchored st size env (enter env guest leftover) where
  serves := serves
  registerState := rfl
  memoryBase := rfl
  permissionsBase := by rw [← serves.size]; rfl
  codeBase := rfl
  blockBase := rfl

/-- The setting of the code a generator emits, with the block table it will run against. -/
def CodeGenerator.setting (g : CodeGenerator) (env : Env) : Setting :=
  ⟨g.flags, g.maxBlockCount, g.singleStep, env.blockToOffset⟩

/-- Every guest of moderate size can be placed and its code entered. -/
theorem exists_anchored (g : CodeGenerator) (guest : Guest) (blockToOffset : Nat → BitVec 32)
    (zero : guest.registers.get Register.zero = 0) (size : guest.memory.size = g.memory.size)
    (blocks : g.maxBlockCount.toNat ≤ 2 ^ 32) (bytes : g.memory.size.toNat ≤ 2 ^ 40) :
    ∃ env s, Anchored (g.setting env) g.memory.size env s ∧ s.guest = guest ∧
      env.blockToOffset = blockToOffset := by
  let st : Setting := ⟨g.flags, g.maxBlockCount, g.singleStep, blockToOffset⟩
  have serves := Env.placed_serves st guest zero blocks (by rw [size]; exact bytes)
  rw [size] at serves
  exact ⟨Env.placed st, enter (Env.placed st) guest fun _ => 0,
    anchored_enter serves fun _ => 0, rfl, rfl⟩

/-! ### Generation -/

theorem run_ins {i : Instr} (encodable : i.encodable = true) (n : Nat) :
    (ins i).run n = .ok ⟨(), [.instr i], [], n⟩ := by
  simp [ins, encodable]

theorem run_ins_error {i : Instr} (encodable : i.encodable = false) (n : Nat) :
    (ins i).run n = .error .notEncodable := by
  simp [ins, encodable]

@[simp] theorem run_allocateLabel (n : Nat) :
    allocateLabel.run n = .ok ⟨n, [], [], n + 1⟩ := rfl

@[simp] theorem run_insertLabel (l n : Nat) :
    (insertLabel l).run n = .ok ⟨(), [.label l], [], n⟩ := rfl

theorem liftExcept_ok_bind {α β : Type} (a : α) (f : α → Gen β) :
    (liftExcept (.ok a) >>= f) = f a := Emitter.pure_bind a f

theorem fitsImm32_signExtend (b : BitVec 32) : fitsImm32 (b.signExtend 64) = true := by
  rw [fitsImm32, setWidth_signExtend, beq_self_eq_true]

/-- What `int32_t` represents is a sign-extended 32-bit immediate. -/
theorem fitsImm32_of_inInt32 {v : Word} (small : CodeGenerator.inInt32 v = true) :
    fitsImm32 v = true := by
  simp only [CodeGenerator.inInt32, Bool.and_eq_true, decide_eq_true_eq] at small
  rw [fitsImm32, beq_iff_eq]
  apply BitVec.eq_of_toInt_eq
  rw [BitVec.toInt_signExtend_of_le (by decide), BitVec.toInt_setWidth]
  have bits := BitVec.toInt_eq_toNat_bmod v
  simp only [Int.bmod] at bits ⊢
  omega

theorem fitsImm32_imm (i : Instruction) : fitsImm32 i.imm = true := fitsImm32_signExtend _

namespace CodeGenerator

theorem run_registerOperand {r : Register} (nonzero : r ≠ Register.zero)
    (below : r ≠ Register.pc) (n : Nat) :
    (registerOperand r).run n = .ok ⟨slot r, [], [], n⟩ := by
  simp [registerOperand, verify, Emitter.run_bind, nonzero, below]

theorem run_registerOperand_zero (n : Nat) :
    (registerOperand Register.zero).run n
      = .error (.verify "cannot get operand for zero register") := by
  simp [registerOperand, verify, Emitter.run_bind]

/-- The operand `registerOperandOrZero` returns. -/
def slotOrZero (r : Register) : Operand := if r = Register.zero then .imm 0 else slot r

theorem run_registerOperandOrZero {r : Register} (below : r ≠ Register.pc) (n : Nat) :
    (registerOperandOrZero r).run n = .ok ⟨slotOrZero r, [], [], n⟩ := by
  unfold registerOperandOrZero slotOrZero
  split
  · rfl
  next nonzero => exact run_registerOperand nonzero below n

end CodeGenerator

/-! ### Operands -/

/-- The operand has the value `v`, which is guest data, and reading it stays in the
sandbox. -/
structure Yields (env : Env) (s : State) (o : Operand) (v : Word) : Prop where
  value : s.read env .bits64 o = some v
  native : s.reads env .bits64 o = false
  permitted : (o.access s .bits64 false).all (env.permits s.guest) = true

theorem yields_imm (env : Env) (s : State) (v : Word) : Yields env s (.imm v) v :=
  ⟨congrArg some (lowBytes_eight v), rfl, rfl⟩

theorem yields_reg (env : Env) {s : State} {r : X64R} (native : s.foreign r = false) :
    Yields env s (.reg r) (s.regs r) :=
  ⟨congrArg some (lowBytes_eight _), native, rfl⟩

section Slots

variable {st : Setting} {size : Word} {env : Env} {s : State} (anchored : Anchored st size env s)
include anchored

theorem address_slot (r : Register) :
    s.address (.baseDisp RA.registerState (BitVec.ofNat 32 (r.val * 8))) = env.slotAddress r := by
  have extended : (BitVec.ofNat 32 (r.val * 8)).signExtend 64 = BitVec.ofNat 64 (8 * r.val) := by
    revert r; decide
  rw [State.address, anchored.registerState, extended, Env.slotAddress]

theorem yields_slot {r : Register} (nonzero : r ≠ Register.zero) (below : r ≠ Register.pc) :
    Yields env s (CodeGenerator.slot r) (s.guest.registers.get r) where
  value := by
    rw [CodeGenerator.slot, State.read, address_slot anchored, anchored.serves.load_slot r (by decide)]
    exact congrArg some (lowBytes_eight _)
  native := by
    rw [CodeGenerator.slot, State.reads, address_slot anchored]
    exact anchored.serves.foreign_slot r (by decide)
  permitted := by
    simp only [CodeGenerator.slot, Operand.access, address_slot anchored, List.all_cons,
      anchored.serves.permits_slot nonzero below false (by decide : OperandSize.bytes .bits64 ≤ 8),
      List.all_nil, Bool.and_self]

theorem yields_slotOrZero {r : Register} (below : r ≠ Register.pc) :
    Yields env s (CodeGenerator.slotOrZero r) (s.guest.registers.get r) := by
  unfold CodeGenerator.slotOrZero
  split
  next zero =>
    rw [zero, anchored.serves.zero]
    exact yields_imm env s 0
  next nonzero => exact yields_slot anchored nonzero below

theorem write_slot {r : Register} (nonzero : r ≠ Register.zero) (v : Word) (f : Bool) :
    s.write env .bits64 (CodeGenerator.slot r) v f
      = some (s.setGuest (s.guest.setRegister r v)) := by
  rw [CodeGenerator.slot, State.write, address_slot anchored]
  rw [show OperandSize.bytes .bits64 = 8 from rfl, anchored.serves.store_slot nonzero]
  rfl

theorem permitted_write_slot {r : Register} (nonzero : r ≠ Register.zero)
    (below : r ≠ Register.pc) :
    ((CodeGenerator.slot r).access s .bits64 true).all (env.permits s.guest) = true := by
  simp only [CodeGenerator.slot, Operand.access, address_slot anchored, List.all_cons,
    anchored.serves.permits_slot nonzero below true (by decide : OperandSize.bytes .bits64 ≤ 8),
    List.all_nil, Bool.and_self]

end Slots

/-! ### Straight-line fragments -/

/-- Sign-extend a result that is stored with `sign_extend` set. -/
def extended (signExtend : Bool) (v : Word) : Word := if signExtend then signextend32 v else v

/-- The machine and the sandbox of generated code. -/
abbrev Does {α : Type} (x : Gen α) (n : Nat) (a : α) (n' : Nat) (pre : Env → State → Prop)
    (post : Env → State → State → Prop) : Prop :=
  Emitter.Straight step Sandboxed x n a n' pre post

/-- `t` now holds the guest value `v`; beyond that only the flags may differ. -/
def Sets (t : X64R) (v : Word) (s s' : State) : Prop :=
  ∃ f, s' = (s.setReg t v false).setFlags f

/-- The guest is now `g`, and the next instruction can run. -/
structure Retires (st : Setting) (size : Word) (g : Guest) (env : Env) (s : State) : Prop where
  anchored : Anchored st size env s
  guest : s.guest = g

section Instructions

variable {st : Setting} {size : Word} {env : Env} {s : State}

theorem Sets.value {t : X64R} {v : Word} {s' : State} (sets : Sets t v s s') : s'.regs t = v := by
  obtain ⟨f, rfl⟩ := sets
  simp

theorem Sets.native {t : X64R} {v : Word} {s' : State} (sets : Sets t v s s') :
    s'.foreign t = false := by
  obtain ⟨f, rfl⟩ := sets
  simp

theorem Sets.guest {t : X64R} {v : Word} {s' : State} (sets : Sets t v s s') :
    s'.guest = s.guest := by
  obtain ⟨f, rfl⟩ := sets
  rfl

theorem Sets.other {t : X64R} {v : Word} {s' : State} (sets : Sets t v s s') {q : X64R}
    (apart : q ≠ t) : s'.regs q = s.regs q ∧ s'.foreign q = s.foreign q := by
  obtain ⟨f, rfl⟩ := sets
  simp [apart]

theorem Sets.anchored (anchored : Anchored st size env s) {t : X64R} {v : Word} {s' : State}
    (sets : Sets t v s s') (scratch : isScratch t = true) : Anchored st size env s' := by
  obtain ⟨f, rfl⟩ := sets
  exact (anchored.setReg scratch v false).setFlags f

/-- `mov t, o`. -/
theorem step_mov_reg {o : Operand} {v : Word} (t : X64R) (yields : Yields env s o v) :
    Sandboxed env (.mov .bits64 (.reg t) o) s ∧
      step env (.mov .bits64 (.reg t) o) s = .next (s.setReg t v false) := by
  constructor
  · simp [Sandboxed, sandboxed, accesses, storesForeign, Operand.isMem, yields.permitted]
  · simp only [step, yields.value, yields.native, State.write, State.merge, Bool.or_self]

/-- `op t, o`. -/
theorem step_alu_reg {o : Operand} {v : Word} {t : X64R} (op : AluOp)
    (native : s.foreign t = false) (yields : Yields env s o v) :
    Sandboxed env (.alu op .bits64 (.reg t) o) s ∧
      step env (.alu op .bits64 (.reg t) o) s
        = .next ((s.setReg t (op.apply (s.regs t) v) false).setFlags none) := by
  have own := yields_reg env native
  constructor
  · simp [Sandboxed, sandboxed, accesses, storesForeign, Operand.isMem, yields.permitted]
  · simp only [step, own.value, own.native, yields.value, yields.native, State.write, State.merge,
      Bool.or_self, Bool.and_false]

/-- A shift of `t` by `o`. -/
theorem step_shift_reg {o : Operand} {v : Word} {t : X64R} (op : ShiftOp)
    (native : s.foreign t = false) (yields : Yields env s o v) :
    Sandboxed env (.shift op (.reg t) o) s ∧
      step env (.shift op (.reg t) o) s
        = .next ((s.setReg t (op.apply (s.regs t) v) false).setFlags none) := by
  have own := yields_reg env native
  constructor
  · simp [Sandboxed, sandboxed, accesses, storesForeign, Operand.isMem, yields.permitted]
  · simp only [step, own.value, own.native, yields.value, yields.native, State.write, State.merge,
      Bool.or_self]

/-- `cmp o, o'`. -/
theorem step_cmp {o o' : Operand} {v v' : Word} (left : Yields env s o v)
    (right : Yields env s o' v') :
    Sandboxed env (.cmp o o') s ∧
      step env (.cmp o o') s = .next (s.setFlags (some (compareFlags v v'))) := by
  constructor
  · simp [Sandboxed, sandboxed, accesses, storesForeign, left.permitted, right.permitted]
  · simp only [step, left.value, right.value]

section Slot

variable {r : Register} (anchored : Anchored st size env s) (nonzero : r ≠ Register.zero)
  (below : r ≠ Register.pc) {o : Operand} {v : Word} (yields : Yields env s o v)
include anchored nonzero below yields

/-- `mov [r], o`. -/
theorem step_mov_slot :
    Sandboxed env (.mov .bits64 (CodeGenerator.slot r) o) s ∧
      step env (.mov .bits64 (CodeGenerator.slot r) o) s
        = .next (s.setGuest (s.guest.setRegister r v)) := by
  constructor
  · simp [Sandboxed, sandboxed, accesses, storesForeign, yields.permitted, yields.native,
      permitted_write_slot anchored nonzero below]
  · simp only [step, yields.value, yields.native, write_slot anchored nonzero]

/-- `op [r], o`. -/
theorem step_alu_slot (op : AluOp) :
    Sandboxed env (.alu op .bits64 (CodeGenerator.slot r) o) s ∧
      step env (.alu op .bits64 (CodeGenerator.slot r) o) s
        = .next ((s.setGuest (s.guest.setRegister r
            (op.apply (s.guest.registers.get r) v))).setFlags none) := by
  have own := yields_slot anchored nonzero below
  constructor
  · simp [Sandboxed, sandboxed, accesses, storesForeign, yields.permitted, yields.native, own.permitted,
      own.native, permitted_write_slot anchored nonzero below]
  · simp only [step, own.value, own.native, yields.value, yields.native,
      write_slot anchored nonzero]

/-- A shift of `[r]` by `o`. -/
theorem step_shift_slot (op : ShiftOp) :
    Sandboxed env (.shift op (CodeGenerator.slot r) o) s ∧
      step env (.shift op (CodeGenerator.slot r) o) s
        = .next ((s.setGuest (s.guest.setRegister r
            (op.apply (s.guest.registers.get r) v))).setFlags none) := by
  have own := yields_slot anchored nonzero below
  constructor
  · simp [Sandboxed, sandboxed, accesses, storesForeign, yields.permitted, yields.native, own.permitted,
      own.native, permitted_write_slot anchored nonzero below]
  · simp only [step, own.value, own.native, yields.value, yields.native,
      write_slot anchored nonzero]

end Slot

/-- `movsxd t, t`. -/
theorem step_sxd_reg (t : X64R) (native : s.foreign t = false) :
    Sandboxed env (.extend .sxd t (.reg t)) s ∧
      step env (.extend .sxd t (.reg t)) s
        = .next (s.setReg t (signextend32 (s.regs t)) false) := by
  constructor
  · simp [Sandboxed, sandboxed, accesses, storesForeign]
  · simp only [step, State.read, State.reads, native, Extension.apply, signextend32,
      Extension.size, OperandSize.bytes, setWidth_lowBytes]

/-- `movsxd t, [r]`. -/
theorem step_sxd_slot (t : X64R) {r : Register} (anchored : Anchored st size env s)
    (nonzero : r ≠ Register.zero) (below : r ≠ Register.pc) :
    Sandboxed env (.extend .sxd t (CodeGenerator.slot r)) s ∧
      step env (.extend .sxd t (CodeGenerator.slot r)) s
        = .next (s.setReg t (signextend32 (s.guest.registers.get r)) false) := by
  have small : 4 ≤ 8 := by decide
  constructor
  · simp [Sandboxed, sandboxed, accesses, storesForeign, CodeGenerator.slot, Operand.access, Extension.size,
      OperandSize.bytes, address_slot anchored,
      anchored.serves.permits_slot nonzero below false small]
  · simp only [step, CodeGenerator.slot, State.read, State.reads, Extension.size,
      address_slot anchored, anchored.serves.load_slot r small,
      anchored.serves.foreign_slot r small, Extension.apply, signextend32, OperandSize.bytes,
      setWidth_lowBytes]

/-- `op t, u` on registers of any origin. -/
theorem step_alu_regs (env : Env) (s : State) (op : AluOp) (t u : X64R) :
    Sandboxed env (.alu op .bits64 (.reg t) (.reg u)) s ∧
      ∃ f, step env (.alu op .bits64 (.reg t) (.reg u)) s
        = .next ((s.setReg t (op.apply (s.regs t) (s.regs u)) f).setFlags none) := by
  constructor
  · simp [Sandboxed, sandboxed, accesses, storesForeign, Operand.isMem]
  · simp only [step, State.read, State.write, State.merge, OperandSize.bytes, lowBytes_eight]
    exact ⟨_, rfl⟩

/-- `mov t, u` on registers of any origin. -/
theorem step_mov_regs (env : Env) (s : State) (t u : X64R) :
    Sandboxed env (.mov .bits64 (.reg t) (.reg u)) s ∧
      ∃ f, step env (.mov .bits64 (.reg t) (.reg u)) s = .next (s.setReg t (s.regs u) f) := by
  constructor
  · simp [Sandboxed, sandboxed, accesses, storesForeign, Operand.isMem]
  · simp only [step, State.read, State.write, State.merge, OperandSize.bytes, lowBytes_eight]
    exact ⟨_, rfl⟩

/-- A shift of a register of any origin by an immediate. -/
theorem step_shift_imm (env : Env) (s : State) (op : ShiftOp) (t : X64R) (v : Word) :
    Sandboxed env (.shift op (.reg t) (.imm v)) s ∧
      ∃ f, step env (.shift op (.reg t) (.imm v)) s
        = .next ((s.setReg t (op.apply (s.regs t) v) f).setFlags none) := by
  constructor
  · simp [Sandboxed, sandboxed, accesses, storesForeign, Operand.isMem]
  · simp only [step, State.read, State.write, State.merge, OperandSize.bytes, lowBytes_eight]
    exact ⟨_, rfl⟩

/-- `cmp t, u` on registers of any origin. -/
theorem step_cmp_regs (env : Env) (s : State) (t u : X64R) :
    Sandboxed env (.cmp (.reg t) (.reg u)) s ∧
      step env (.cmp (.reg t) (.reg u)) s
        = .next (s.setFlags (some (compareFlags (s.regs t) (s.regs u)))) := by
  constructor
  · simp [Sandboxed, sandboxed, accesses, storesForeign]
  · simp only [step, State.read, OperandSize.bytes, lowBytes_eight]

/-- `cmp t, v` on a register of any origin. -/
theorem step_cmp_imm (env : Env) (s : State) (t : X64R) (v : Word) :
    Sandboxed env (.cmp (.reg t) (.imm v)) s ∧
      step env (.cmp (.reg t) (.imm v)) s = .next (s.setFlags (some (compareFlags (s.regs t) v))) := by
  constructor
  · simp [Sandboxed, sandboxed, accesses, storesForeign]
  · simp only [step, State.read, OperandSize.bytes, lowBytes_eight]

/-- `test t, v` on a register of any origin. -/
theorem step_test_imm (env : Env) (s : State) (t : X64R) (v : Word) :
    Sandboxed env (.test (.reg t) (.imm v)) s ∧
      step env (.test (.reg t) (.imm v)) s = .next (s.setFlags (some (testFlags (s.regs t) v))) := by
  constructor
  · simp [Sandboxed, sandboxed, accesses, storesForeign]
  · simp only [step, State.read, OperandSize.bytes, lowBytes_eight]

/-- `test t, t` on a register of any origin. -/
theorem step_test_self (env : Env) (s : State) (t : X64R) :
    Sandboxed env (.test (.reg t) (.reg t)) s ∧
      step env (.test (.reg t) (.reg t)) s
        = .next (s.setFlags (some (testFlags (s.regs t) (s.regs t)))) := by
  constructor
  · simp [Sandboxed, sandboxed, accesses, storesForeign]
  · simp only [step, State.read, OperandSize.bytes, lowBytes_eight]

/-- `xor t, t`. -/
theorem step_clear (env : Env) (s : State) (t : X64R) :
    Sandboxed env (.alu .xor .bits64 (.reg t) (.reg t)) s ∧
      step env (.alu .xor .bits64 (.reg t) (.reg t)) s
        = .next ((s.setReg t 0 false).setFlags none) := by
  constructor
  · simp [Sandboxed, sandboxed, accesses, storesForeign, Operand.isMem]
  · simp [step, State.read, State.write, State.merge, AluOp.apply]

/-- `setcc t` on a cleared register. -/
theorem step_setcc (env : Env) (c : Condition) {t : X64R} {f : Flags} (known : s.flags = some f)
    (clear : s.regs t = 0) :
    Sandboxed env (.setcc c t) s ∧
      step env (.setcc c t) s
        = .next (s.setReg t (if c.holds f then 1 else 0) (s.foreign t)) := by
  constructor
  · simp [Sandboxed, sandboxed, accesses, storesForeign]
  · simp only [step, known, clear]
    cases c.holds f <;> rfl

end Instructions

/-! ### Operations -/

/-- The host operation of a computation: one the ALU does, or a shift. -/
inductive HostOp where
  | alu (op : AluOp)
  | shift (op : ShiftOp)
deriving DecidableEq, Repr

def HostOp.apply : HostOp → Word → Word → Word
  | .alu op => op.apply
  | .shift op => op.apply

def HostOp.isShift : HostOp → Bool
  | .alu _ => false
  | .shift _ => true

/-- The operation on 64-bit operands. -/
def HostOp.instr : HostOp → Operand → Operand → Instr
  | .alu op => .alu op .bits64
  | .shift op => .shift op

/-- The operation `generateBinaryOperation` picks. -/
def hostOp : InstructionType → Option HostOp
  | .add | .addi | .addw | .addiw => some (.alu .add)
  | .sub | .subw => some (.alu .sub)
  | .xor | .xori => some (.alu .xor)
  | .or | .ori => some (.alu .or)
  | .and | .andi => some (.alu .and)
  | .sll | .slli | .sllw | .slliw => some (.shift .shl)
  | .srl | .srlw | .srli | .srliw => some (.shift .shr)
  | .sra | .srai | .sraiw | .sraw => some (.shift .sar)
  | _ => none

theorem generateBinaryOperation_eq {t : InstructionType} {op : HostOp} (known : hostOp t = some op)
    (op1 op2 : Operand) :
    CodeGenerator.generateBinaryOperation t op1 op2 = ins (op.instr op1 op2) := by
  cases t <;> simp only [hostOp, Option.some.injEq, reduceCtorEq] at known <;> subst known <;> rfl

theorem encodable_reg_imm (op : AluOp) (t : X64R) {v : Word} (fits : fitsImm32 v = true) :
    (Instr.alu op .bits64 (.reg t) (.imm v)).encodable = true := by
  simp [Instr.encodable, Operand.pairable, Operand.isMem, Operand.isImm, fits]

theorem encodable_slotOrZero (op : AluOp) (t : X64R) (r : Register) :
    (Instr.alu op .bits64 (.reg t) (CodeGenerator.slotOrZero r)).encodable = true := by
  unfold CodeGenerator.slotOrZero
  split <;> rfl

theorem encodable_cmp_imm {dst : Operand} (isDst : dst.isImm = false) {v : Word}
    (fits : fitsImm32 v = true) : (Instr.cmp dst (.imm v)).encodable = true := by
  simp [Instr.encodable, Operand.pairable, Operand.isMem, isDst, fits]

theorem encodable_cmp_slotOrZero (t : X64R) (r : Register) :
    (Instr.cmp (.reg t) (CodeGenerator.slotOrZero r)).encodable = true := by
  unfold CodeGenerator.slotOrZero
  split <;> rfl

theorem step_op_reg {env : Env} {s : State} {o : Operand} {v : Word} {t : X64R} (op : HostOp)
    (native : s.foreign t = false) (yields : Yields env s o v) :
    Sandboxed env (op.instr (.reg t) o) s ∧
      step env (op.instr (.reg t) o) s
        = .next ((s.setReg t (op.apply (s.regs t) v) false).setFlags none) := by
  cases op with
  | alu op => exact step_alu_reg op native yields
  | shift op => exact step_shift_reg op native yields

theorem step_op_slot {st : Setting} {size : Word} {env : Env} {s : State} {r : Register}
    (anchored : Anchored st size env s) (nonzero : r ≠ Register.zero) (below : r ≠ Register.pc)
    {o : Operand} {v : Word} (yields : Yields env s o v) (op : HostOp) :
    Sandboxed env (op.instr (CodeGenerator.slot r) o) s ∧
      step env (op.instr (CodeGenerator.slot r) o) s
        = .next ((s.setGuest (s.guest.setRegister r
            (op.apply (s.guest.registers.get r) v))).setFlags none) := by
  cases op with
  | alu op => exact step_alu_slot anchored nonzero below yields op
  | shift op => exact step_shift_slot anchored nonzero below yields op

namespace CodeGenerator

variable (st : Setting) (size : Word)

/-- `op t, o` for an operand whose value is known. -/
theorem does_binary_reg {type : InstructionType} {op : HostOp} (known : hostOp type = some op)
    {t : X64R} {o : Operand} (encodable : (op.instr (.reg t) o).encodable = true) (n : Nat)
    (v : State → Word) :
    Does (generateBinaryOperation type (.reg t) o) n () n
      (fun env s => s.foreign t = false ∧ Yields env s o (v s))
      (fun _ s s' => Sets t (op.apply (s.regs t) (v s)) s s') := by
  rw [generateBinaryOperation_eq known]
  refine .instr (run_ins encodable n) fun env s holds => ?_
  obtain ⟨safe, next⟩ := step_op_reg op holds.1 holds.2
  exact ⟨safe, _, next, none, rfl⟩

/-- `op [r], o` for an operand whose value is known. -/
theorem does_binary_slot {type : InstructionType} {op : HostOp} (known : hostOp type = some op)
    {r : Register} (nonzero : r ≠ Register.zero) (below : r ≠ Register.pc) {o : Operand}
    (encodable : (op.instr (slot r) o).encodable = true) (n : Nat) (v : State → Word) :
    Does (generateBinaryOperation type (slot r) o) n () n
      (fun env s => Anchored st size env s ∧ Yields env s o (v s))
      (fun env s s' => Retires st size
        (s.guest.setRegister r (op.apply (s.guest.registers.get r) (v s))) env s') := by
  rw [generateBinaryOperation_eq known]
  refine .instr (run_ins encodable n) fun env s holds => ?_
  obtain ⟨safe, next⟩ := step_op_slot holds.1 nonzero below holds.2 op
  exact ⟨safe, _, next, (holds.1.setRegister r _).setFlags none, rfl⟩

/-- `load_register` adds an immediate to the guest register. -/
theorem does_loadRegister {t : X64R} {r : Register}
    (below : r ≠ Register.pc) {offset : Word} (fits : fitsImm32 offset = true) (n : Nat) :
    Does (loadRegister t r offset) n () n (Anchored st size)
      (fun _ s s' => Sets t (s.guest.registers.get r + offset) s s') := by
  unfold loadRegister
  split
  -- register zero has no slot: the offset is moved alone
  next zero =>
    refine .instr (run_ins rfl n) fun env s anchored => ?_
    obtain ⟨safe, next⟩ := step_mov_reg t (yields_imm env s offset)
    refine ⟨safe, _, next, s.flags, ?_⟩
    rw [zero, anchored.serves.zero]
    simp only [BitVec.ofNat_eq_ofNat, BitVec.zero_add]
    rfl
  next nonzero =>
    refine .silent (run_registerOperand nonzero below n) ?_
    have load : Does (ins (.mov .bits64 (.reg t) (slot r))) n () n (Anchored st size)
        (fun _ s s' => s' = s.setReg t (s.guest.registers.get r) false) := by
      refine .instr (run_ins rfl n) fun env s anchored => ?_
      obtain ⟨safe, next⟩ := step_mov_reg t (yields_slot anchored nonzero below)
      exact ⟨safe, _, next, rfl⟩
    -- an offset of zero is not added
    by_cases plain : offset = 0
    · subst plain
      simp only [ne_eq, not_true_eq_false, if_false]
      refine load.conseq (fun _ _ holds => holds) ?_
      rintro env s s' - rfl
      exact ⟨s.flags, by simp only [BitVec.ofNat_eq_ofNat, BitVec.add_zero]; rfl⟩
    · simp only [ne_eq, plain, not_false_eq_true, if_true]
      have add : Does (ins (.alu .add .bits64 (.reg t) (.imm offset))) n () n
          (fun _ s => s.foreign t = false)
          (fun _ s s' => s' = (s.setReg t (s.regs t + offset) false).setFlags none) := by
        refine .instr (run_ins (encodable_reg_imm .add t fits) n) fun env s native => ?_
        obtain ⟨safe, next⟩ := step_alu_reg .add native (yields_imm env s offset)
        exact ⟨safe, _, next, rfl⟩
      refine load.seq add (fun _ _ holds => holds) ?_
      rintro env s s₁ - rfl
      refine ⟨by simp, ?_⟩
      rintro s₂ rfl
      exact ⟨none, by simp⟩

/-- `store_register` ends an instruction whose result is in `t`. -/
theorem does_storeRegister {t : X64R} (scratch : isScratch t = true) {r : Register}
    (nonzero : r ≠ Register.zero) (below : r ≠ Register.pc) (signExtend : Bool) (n : Nat) :
    Does (storeRegister r t signExtend) n () n
      (fun env s => Anchored st size env s ∧ s.foreign t = false)
      (fun env s s' => Retires st size (s.guest.setRegister r
        (extended signExtend (s.regs t))) env s') := by
  unfold storeRegister
  have store : Does (do ins (.mov .bits64 (← registerOperand r) (.reg t))) n () n
      (fun env s => Anchored st size env s ∧ s.foreign t = false)
      (fun env s s' => Retires st size (s.guest.setRegister r (s.regs t)) env s') := by
    refine .silent (run_registerOperand nonzero below n) ?_
    refine .instr (run_ins rfl n) fun env s ⟨anchored, native⟩ => ?_
    obtain ⟨safe, next⟩ := step_mov_slot anchored nonzero below (yields_reg env native)
    exact ⟨safe, _, next, anchored.setRegister r _, rfl⟩
  -- the word operations widen their result first
  cases signExtend with
  | false =>
    simp only [Bool.false_eq_true, if_false]
    exact store
  | true =>
    simp only [if_true]
    have extend : Does (ins (.extend .sxd t (.reg t))) n () n
        (fun env s => Anchored st size env s ∧ s.foreign t = false)
        (fun _ s s' => s' = s.setReg t (signextend32 (s.regs t)) false) := by
      refine .instr (run_ins rfl n) fun env s ⟨_, native⟩ => ?_
      obtain ⟨safe, next⟩ := @step_sxd_reg env s t native
      exact ⟨safe, _, next, rfl⟩
    refine extend.seq store (fun _ _ holds => holds) ?_
    rintro env s s₁ ⟨anchored, -⟩ rfl
    exact ⟨⟨anchored.setReg scratch _ _, by simp⟩, fun s₂ retires => by simpa [extended] using retires⟩

/-- `store_imm_to_register` changes no register but its scratch register. -/
theorem does_storeImmToRegister {t : X64R} (scratch : isScratch t = true) {r : Register}
    (below : r ≠ Register.pc) (imm : Word) (n : Nat) :
    Does (storeImmToRegister r t imm) n () n (Anchored st size)
      (fun env s s' => Retires st size (s.guest.setRegister r imm) env s' ∧
        ∀ q, q ≠ t → s'.regs q = s.regs q ∧ s'.foreign q = s.foreign q) := by
  unfold storeImmToRegister
  split
  next zero =>
    refine (Emitter.Straight.pure () n).conseq (fun _ _ _ => trivial) ?_
    rintro env s s' anchored rfl
    exact ⟨⟨anchored, by rw [zero, Guest.setRegister_zero]⟩, fun _ _ => ⟨rfl, rfl⟩⟩
  next nonzero =>
    split
    -- the slot takes an immediate of 32 bits, anything larger goes through a register
    next small =>
      refine .silent (run_registerOperand nonzero below n) ?_
      have encodable : (Instr.mov .bits64 (slot r) (.imm imm)).encodable = true := by
        simp [Instr.encodable, Operand.pairable, slot, Operand.isImm, Operand.isMem,
          fitsImm32_of_inInt32 small]
      refine .instr (run_ins encodable n) fun env s anchored => ?_
      obtain ⟨safe, next⟩ := step_mov_slot anchored nonzero below (yields_imm env s imm)
      exact ⟨safe, _, next, ⟨anchored.setRegister r imm, rfl⟩, fun _ _ => ⟨rfl, rfl⟩⟩
    next =>
      have load : Does (ins (.mov .bits64 (.reg t) (.imm imm))) n () n (Anchored st size)
          (fun _ s s' => s' = s.setReg t imm false) := by
        refine .instr (run_ins rfl n) fun env s _ => ?_
        obtain ⟨safe, next⟩ := step_mov_reg t (yields_imm env s imm)
        exact ⟨safe, _, next, rfl⟩
      have store : Does (do ins (.mov .bits64 (← registerOperand r) (.reg t))) n () n
          (fun env s => Anchored st size env s ∧ s.foreign t = false)
          (fun _ s s' => s' = s.setGuest (s.guest.setRegister r (s.regs t))) := by
        refine .silent (run_registerOperand nonzero below n) ?_
        refine .instr (run_ins rfl n) fun env s ⟨anchored, native⟩ => ?_
        obtain ⟨safe, next⟩ := step_mov_slot anchored nonzero below (yields_reg env native)
        exact ⟨safe, _, next, rfl⟩
      refine load.seq store (fun _ _ holds => holds) ?_
      rintro env s s₁ anchored rfl
      refine ⟨⟨anchored.setReg scratch _ _, by simp⟩, ?_⟩
      rintro s₂ rfl
      refine ⟨⟨(anchored.setReg scratch imm false).setRegister r _, by simp⟩, fun q other => ?_⟩
      simp [other]

end CodeGenerator

end Riscv64Emulator.Jit.X64
