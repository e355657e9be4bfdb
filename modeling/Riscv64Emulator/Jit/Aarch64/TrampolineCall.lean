import Riscv64Emulator.Jit.Execution
import Riscv64Emulator.Jit.Aarch64.Clobbers
import Riscv64Emulator.Jit.Aarch64.Results
import Riscv64Emulator.Jit.Aarch64.Trampoline
import Riscv64Emulator.Lib.Stack

/-!
# Calls of the AArch64 trampoline

`generate_trampoline` of `src/vm/jit/aarch64/Trampoline.cpp`. The executor calls the trampoline like
a C function with a block of words. The saver keeps the address of the block over the call of the
generated code, whose results go into registers that are not saved.
-/
namespace Riscv64Emulator.Jit.Aarch64

/-- The register that holds the block while the trampoline needs it. -/
abbrev RA.trampolineBlock : A64R := RA.a

/-- The first argument of a function. -/
abbrev argument : A64R := 0

/-- Where a return goes. -/
abbrev returnAddress : A64R := 30

/-! ### `TrampolineBlock` -/

structure TrampolineBlock where
  registerState : Word
  memoryBase : Word
  permissionsBase : Word
  memorySize : Word
  blockBase : Word
  maxExecutablePc : Word
  codeBase : Word
  entrypoint : Word
  exitReason : Word
  exitPc : Word
deriving DecidableEq, Repr

namespace TrampolineBlock

/-! The offsets of the fields. -/

abbrev atRegisterState : Word := 0
abbrev atMemoryBase : Word := 8
abbrev atPermissionsBase : Word := 16
abbrev atMemorySize : Word := 24
abbrev atBlockBase : Word := 32
abbrev atMaxExecutablePc : Word := 40
abbrev atCodeBase : Word := 48
abbrev atEntrypoint : Word := 56
abbrev atExitReason : Word := 64
abbrev atExitPc : Word := 72

/-- The block in the memory of the host. -/
def load (memory : Word → Byte) (address : Word) : TrampolineBlock where
  registerState := loadWord memory (address + atRegisterState)
  memoryBase := loadWord memory (address + atMemoryBase)
  permissionsBase := loadWord memory (address + atPermissionsBase)
  memorySize := loadWord memory (address + atMemorySize)
  blockBase := loadWord memory (address + atBlockBase)
  maxExecutablePc := loadWord memory (address + atMaxExecutablePc)
  codeBase := loadWord memory (address + atCodeBase)
  entrypoint := loadWord memory (address + atEntrypoint)
  exitReason := loadWord memory (address + atExitReason)
  exitPc := loadWord memory (address + atExitPc)

/-- The fields, written one behind the other. -/
def store (memory : Word → Byte) (address : Word) (block : TrampolineBlock) : Word → Byte :=
  [(atRegisterState, block.registerState), (atMemoryBase, block.memoryBase),
    (atPermissionsBase, block.permissionsBase), (atMemorySize, block.memorySize), (atBlockBase, block.blockBase),
    (atMaxExecutablePc, block.maxExecutablePc), (atCodeBase, block.codeBase), (atEntrypoint, block.entrypoint),
    (atExitReason, block.exitReason), (atExitPc, block.exitPc)].foldl
    (fun memory field => storeWord memory (address + field.1) field.2) memory

theorem load_store (memory : Word → Byte) (address : Word) (block : TrampolineBlock) :
    load (store memory address block) address = block := by
  have other : ∀ (f : Word → Byte) (v m n : Word), 8 ≤ (n - m).toNat ∧ 8 ≤ (m - n).toNat →
      loadWord (storeWord f (address + m) v) (address + n) = loadWord f (address + n) := by
    intro f v m n far
    refine loadWord_storeWord_apart f v ?_ ?_ <;> bv_omega
  unfold load store
  simp (disch := decide) only [List.foldl, loadWord_storeWord, other]

/-- The block `Executor::run` makes. -/
def ofCall (env : Env) (guest : Guest) (code : Word) : TrampolineBlock where
  registerState := env.layout.registerState
  memoryBase := env.layout.memoryBase
  permissionsBase := env.layout.memoryBase + BitVec.ofNat 64 guest.memory.permissionsOffset
  memorySize := guest.memory.size
  blockBase := env.layout.blockBase
  maxExecutablePc := BitVec.ofNat 64 env.maxBlocks * 4
  codeBase := env.layout.codeBase
  entrypoint := code
  exitReason := 0
  exitPc := 0

end TrampolineBlock

/-! ### The code of the trampoline -/

/-- The instructions of the trampoline, with operands in the memory of the host. -/
inductive TrampolineInstr where
  | stack (i : StackInstr)
  | mov (dst src : A64R)
  | ldr (dst base : A64R) (offset : Word)
  | str (src base : A64R) (offset : Word)
  | blr (target : A64R)
  | ret
deriving DecidableEq, Repr

namespace Trampoline

open TrampolineBlock

/-- The loads from the block; the last one takes the place of the block's address. -/
def loads : List TrampolineInstr :=
  [.ldr RA.registerState RA.trampolineBlock atRegisterState,
   .ldr RA.memoryBase RA.trampolineBlock atMemoryBase,
   .ldr RA.permissionsBase RA.trampolineBlock atPermissionsBase,
   .ldr RA.memorySize RA.trampolineBlock atMemorySize,
   .ldr RA.blockBase RA.trampolineBlock atBlockBase,
   .ldr RA.maxExecutablePc RA.trampolineBlock atMaxExecutablePc,
   .ldr RA.codeBase RA.trampolineBlock atCodeBase,
   .ldr RA.trampolineBlock RA.trampolineBlock atEntrypoint]

/-- The stores of what the generated code returns. -/
def stores : List TrampolineInstr :=
  [.str RA.exitReason RA.trampolineBlock atExitReason, .str RA.exitPc RA.trampolineBlock atExitPc]

/-- `generate_trampoline`. -/
def generateTrampoline : Except Abort (List TrampolineInstr) := do
  let registerSaver ← RegisterSaver.build RegisterSaver.trampolineCalls
  pure (.mov RA.trampolineBlock argument :: registerSaver.save.map .stack ++ loads ++
    .blr RA.trampolineBlock :: registerSaver.restore.map .stack ++ stores ++ [.ret])

end Trampoline

/-! ### The host around generated code -/

namespace HostState

def setReg (s : HostState) (r : A64R) (v : Word) : HostState :=
  { s with regs := fun q => if q = r then v else s.regs q }

@[simp] theorem regs_setReg (s : HostState) (r q : A64R) (v : Word) :
    (s.setReg r v).regs q = if q = r then v else s.regs q := rfl
@[simp] theorem sp_setReg (s : HostState) (r : A64R) (v : Word) : (s.setReg r v).sp = s.sp := rfl
@[simp] theorem memory_setReg (s : HostState) (r : A64R) (v : Word) : (s.setReg r v).memory = s.memory := rfl

/-- Generated code sees the registers and the guest. What it is entered with is no guest data. -/
def machine (s : HostState) (guest : Guest) : State := ⟨s.regs, fun _ => true, none, guest⟩

/-- It leaves the stack pointer and the memory of the host alone. -/
def behind (s : HostState) (m : State) : HostState := { s with regs := m.regs }

end HostState

/-- One instruction that is neither the call nor the return. -/
def TrampolineInstr.step : TrampolineInstr → HostState → Option HostState
  | .stack i, s => i.step s
  | .mov dst src, s => some (s.setReg dst (s.regs src))
  | .ldr dst base offset, s => some (s.setReg dst (loadWord s.memory (s.regs base + offset)))
  | .str src base offset, s =>
    some { s with memory := storeWord s.memory (s.regs base + offset) (s.regs src) }
  | .blr _, _ | .ret, _ => none

namespace Trampoline

open HostState

/-- The code runs to its return, from one state of the host and the guest to another and on to an
address. `invoke` is what a call of code at an address does. -/
inductive Returns (invoke : Word → HostState × Guest → HostState × Guest → Prop) :
    List TrampolineInstr → HostState × Guest → Word → HostState × Guest → Prop
  | step {i rest s s₁ guest target t} (plain : i.step s = some s₁)
      (later : Returns invoke rest (s₁, guest) target t) : Returns invoke (i :: rest) (s, guest) target t
  | blr {r rest s guest t₁ target t} (called : invoke (s.regs r) (s, guest) t₁)
      (later : Returns invoke rest t₁ target t) : Returns invoke (.blr r :: rest) (s, guest) target t
  | ret {rest s guest} : Returns invoke (.ret :: rest) (s, guest) (s.regs returnAddress) (s, guest)

section Invokes

variable {platform : Platform} {codeSize : List (LinearCode.Item Instr) → Nat}
  {codeSize_pos : ∀ code, 0 < codeSize code}
  (build : Build) (buffer : Buffer (arch platform codeSize codeSize_pos))

/-- A call of generated code. `back` is the address behind the call, which the return of the code
has to find in the register for it. -/
inductive Invokes (back address : Word) (s : HostState) (guest : Guest) : HostState × Guest → Prop
  | intro {block : CompiledBlock (arch platform codeSize codeSize_pos).Code} {m : State}
      (here : LiesAt build buffer block address)
      (executes : Executes build buffer block ((s.setReg returnAddress back).machine guest) m)
      (found : m.regs returnAddress = back) : Invokes back address s guest (s.behind m, m.guest)

end Invokes

/-- Straight-line code. -/
def run : List TrampolineInstr → HostState → Option HostState
  | [], s => some s
  | i :: rest, s => (i.step s).bind (run rest)

theorem run_append (code rest : List TrampolineInstr) (s : HostState) :
    run (code ++ rest) s = (run code s).bind (run rest) := by
  induction code generalizing s with
  | nil => rfl
  | cons i code ih =>
    rw [List.cons_append, run, run, Option.bind_assoc]
    exact congrArg _ (funext ih)

theorem run_stack (code : List StackInstr) (s : HostState) : run (code.map .stack) s = StackInstr.run code s := by
  induction code generalizing s with
  | nil => rfl
  | cons i code ih =>
    rw [List.map_cons, run, StackInstr.run]
    exact congrArg _ (funext ih)

/-- Straight-line code in front of the rest. -/
theorem Returns.after {invoke : Word → HostState × Guest → HostState × Guest → Prop}
    {code rest : List TrampolineInstr} {s s₁ : HostState} {guest : Guest} {target : Word} {t : HostState × Guest}
    (ran : run code s = some s₁) (later : Returns invoke rest (s₁, guest) target t) :
    Returns invoke (code ++ rest) (s, guest) target t := by
  induction code generalizing s with
  | nil =>
    cases ran
    exact later
  | cons i code ih =>
    obtain ⟨s₂, plain, ran⟩ := Option.bind_eq_some_iff.mp ran
    exact .step plain (ih ran)

/-! ### The registers on the stack -/

/-- The pairs in the order they are pushed. -/
def savedPairs : List (HostRegister × HostRegister) :=
  [(.x 30, .x 8), (.x 19, .x 20), (.x 21, .x 22), (.x 23, .x 24), (.x 25, .x 26), (.x 27, .x 28)]

/-- What the saver of the trampoline holds. -/
theorem generateTrampoline_eq : generateTrampoline =
    .ok (.mov RA.trampolineBlock argument :: (savedPairs.map fun p => RegisterSaver.push p.1 p.2).map .stack ++
      loads ++ .blr RA.trampolineBlock ::
      (savedPairs.reverse.map fun p => RegisterSaver.pop p.1 p.2).map .stack ++ stores ++ [.ret]) := rfl

open StackInstr in
/-- Pushes leave the registers alone. -/
theorem operand_pushes {pairs : List (HostRegister × HostRegister)} {s s₁ : HostState}
    (ran : StackInstr.run (pairs.map fun p => RegisterSaver.push p.1 p.2) s = some s₁) (r : HostRegister) :
    s₁.operand r = s.operand r := by
  induction pairs generalizing s with
  | nil =>
    cases ran
    rfl
  | cons p rest ih =>
    rw [List.map_cons, run_cons, step_push, Option.bind_some] at ran
    rw [ih ran, operand_pushed]

theorem regs_setOperand_of_ne (s : HostState) {a : HostRegister} {r : A64R} (other : .x r ≠ a) (v : Word) :
    (s.setOperand a v).regs r = s.regs r := by
  cases a with
  | sp => rfl
  | x q =>
    unfold setOperand
    dsimp only
    split
    · rfl
    · exact if_neg fun same => other (congrArg _ same)

/-- Pops leave the registers alone that are in none of the pairs. -/
theorem regs_pops {pairs : List (HostRegister × HostRegister)} {s s₁ : HostState} {r : A64R}
    (ran : StackInstr.run (pairs.map fun p => RegisterSaver.pop p.1 p.2) s = some s₁)
    (other : ∀ p ∈ pairs, .x r ≠ p.1 ∧ .x r ≠ p.2) : s₁.regs r = s.regs r := by
  induction pairs generalizing s with
  | nil =>
    cases ran
    rfl
  | cons p rest ih =>
    obtain ⟨s₂, step, later⟩ := Option.bind_eq_some_iff.mp ran
    obtain ⟨first, second⟩ := other p List.mem_cons_self
    rw [ih later fun q member => other q (List.mem_cons_of_mem _ member)]
    simp only [RegisterSaver.pop, StackInstr.step] at step
    split at step
    · cases step
    · cases step
      exact (regs_setOperand_of_ne _ second _).trans (regs_setOperand_of_ne _ first _)

/-- A push leaves what is off the stack alone. -/
theorem memory_stacks {pairs : List (HostRegister × HostRegister)} {s s₁ : HostState}
    (onStack : StackInstr.Stacks s pairs s₁) {a : Word} (off : OffStack s.sp (16 * pairs.length) a) :
    s₁.memory a = s.memory a := by
  have place : s.sp + BitVec.ofNat 64 (a - s.sp).toNat = a := by
    rw [BitVec.ofNat_toNat, BitVec.setWidth_eq]
    bv_omega
  have above := onStack.above _ off
  rwa [place] at above

/-! ### The calling convention -/

open TrampolineBlock

/-- The bytes of the stack a call uses. -/
def frameSize : Nat := 16 * savedPairs.length

/-- The trampoline is called as the executor does it: the argument is a block made for the guest and
for code, off the stack the call uses. -/
structure Prepared (env : Env) (guest : Guest) (address : Word) (s : HostState) : Prop where
  block : load s.memory (s.regs argument) = .ofCall env guest address
  apart : ∀ k < 80, OffStack s.sp frameSize (s.regs argument + BitVec.ofNat 64 k)

/-- What the caller of a function relies on: the registers from the platform register to the return address, the
stack pointer, and of its memory all but the two results. -/
structure Conforms (s s' : HostState) : Prop where
  sp : s'.sp = s.sp
  saved : ∀ r : A64R, 18 ≤ r.val → r.val ≤ 30 → s'.regs r = s.regs r
  memory : ∀ a, OffStack s.sp frameSize a → 16 ≤ (a - (s.regs argument + atExitReason)).toNat →
    s'.memory a = s.memory a

/-- A block is its bytes. -/
theorem load_congr {f g : Word → Byte} {p : Word}
    (same : ∀ k < 80, f (p + BitVec.ofNat 64 k) = g (p + BitVec.ofNat 64 k)) : load f p = load g p := by
  have field : ∀ n ≤ 72, loadWord f (p + BitVec.ofNat 64 n) = loadWord g (p + BitVec.ofNat 64 n) := by
    intro n inside
    refine loadWord_congr _ _ _ _ fun k low => ?_
    rw [BitVec.add_assoc, ← BitVec.ofNat_add]
    exact same (n + k) (by omega)
  simp only [load, TrampolineBlock.mk.injEq]
  exact ⟨field 0 (by decide), field 8 (by decide), field 16 (by decide), field 24 (by decide),
    field 32 (by decide), field 40 (by decide), field 48 (by decide), field 56 (by decide),
    field 64 (by decide), field 72 (by decide)⟩

theorem load_storePair (f : Word → Byte) (p reason pc : Word) :
    load (storePair f (p + atExitReason) reason pc) p = { load f p with exitReason := reason, exitPc := pc } := by
  have input : ∀ n ≤ 56, loadWord (storePair f (p + atExitReason) reason pc) (p + BitVec.ofNat 64 n)
      = loadWord f (p + BitVec.ofNat 64 n) := by
    intro n inside
    refine loadWord_congr _ _ _ _ fun k low => storePair_outside _ _ _ _ ?_
    have distance : p + BitVec.ofNat 64 n + BitVec.ofNat 64 k - (p + atExitReason)
        = BitVec.ofNat 64 (n + k) - 64 := by
      rw [BitVec.ofNat_add]
      bv_omega
    rw [distance]
    bv_omega
  obtain ⟨first, second⟩ := loadWord_storePair f (p + atExitReason) reason pc
  rw [BitVec.add_assoc] at second
  simp only [load, TrampolineBlock.mk.injEq]
  exact ⟨input 0 (by decide), input 8 (by decide), input 16 (by decide), input 24 (by decide),
    input 32 (by decide), input 40 (by decide), input 48 (by decide), input 56 (by decide), first, second⟩

/-- The registers of generated code, loaded from the block that `RA.trampolineBlock` points to. -/
structure Loaded (block : TrampolineBlock) (s s' : HostState) : Prop where
  memory : s'.memory = s.memory
  sp : s'.sp = s.sp
  registerState : s'.regs RA.registerState = block.registerState
  memoryBase : s'.regs RA.memoryBase = block.memoryBase
  permissionsBase : s'.regs RA.permissionsBase = block.permissionsBase
  memorySize : s'.regs RA.memorySize = block.memorySize
  blockBase : s'.regs RA.blockBase = block.blockBase
  maxExecutablePc : s'.regs RA.maxExecutablePc = block.maxExecutablePc
  codeBase : s'.regs RA.codeBase = block.codeBase
  entrypoint : s'.regs RA.trampolineBlock = block.entrypoint
  others : ∀ r : A64R, 9 ≤ r.val → s'.regs r = s.regs r

theorem run_loads (s : HostState) :
    ∃ s', run loads s = some s' ∧ Loaded (load s.memory (s.regs RA.trampolineBlock)) s s' := by
  refine ⟨_, rfl, ?_⟩
  constructor
  case others =>
    intro r high
    have apart : ∀ q : A64R, q.val ≤ 8 → r ≠ q := by
      rintro q low rfl
      omega
    simp [apart]
  all_goals rfl

/-- Generated code is entered as the executor's model says. -/
theorem machine_eq_enter {env : Env} {guest : Guest} {address : Word} {s₀ s : HostState}
    (loaded : Loaded (.ofCall env guest address) s₀ s) (back : Word) :
    (s.setReg returnAddress back).machine guest = enter env guest (s.setReg returnAddress back).regs := by
  unfold machine enter
  rw [State.mk.injEq]
  refine ⟨funext fun q => ?_, rfl, rfl, rfl⟩
  have value : ∀ r : A64R, r ≠ returnAddress → (s.setReg returnAddress back).regs r = s.regs r :=
    fun r other => if_neg other
  split
  · exact (value _ (by decide)).trans loaded.registerState
  · exact (value _ (by decide)).trans loaded.memoryBase
  · exact (value _ (by decide)).trans loaded.permissionsBase
  · exact (value _ (by decide)).trans loaded.memorySize
  · exact (value _ (by decide)).trans loaded.blockBase
  · exact (value _ (by decide)).trans loaded.maxExecutablePc
  · exact (value _ (by decide)).trans loaded.codeBase
  · rfl

/-! ### In front of the code and behind it -/

section Call

variable {env : Env} {guest : Guest} {address : Word} {s s₁ s₂ s₃ : HostState}

/-- The thread in front of the call of the code: the address of the block is in its register, then the registers are
on the stack, then the block is loaded. -/
structure AtCall (env : Env) (guest : Guest) (address : Word) (s s₁ s₂ s₃ : HostState) : Prop where
  pointed : s₁ = s.setReg RA.trampolineBlock (s.regs argument)
  onStack : StackInstr.Stacks s₁ savedPairs s₂
  kept : ∀ r : A64R, r ≠ A64R.xzr → s₂.regs r = s₁.regs r
  loaded : Loaded (.ofCall env guest address) s₂ s₃

theorem AtCall.memory_eq (call : AtCall env guest address s s₁ s₂ s₃) {a : Word}
    (off : OffStack s.sp frameSize a) : s₃.memory a = s.memory a := by
  obtain ⟨rfl, onStack, -, loaded⟩ := call
  rw [loaded.memory]
  exact memory_stacks onStack off

theorem exists_atCall (prepared : Prepared env guest address s) : ∃ s₁ s₂ s₃,
    run (.mov RA.trampolineBlock argument ::
      (savedPairs.map fun p => RegisterSaver.push p.1 p.2).map .stack ++ loads) s = some s₃ ∧
      AtCall env guest address s s₁ s₂ s₃ := by
  obtain ⟨s₂, pushed, onStack⟩ := StackInstr.exists_stacks savedPairs (by decide) (by decide)
    (s.setReg RA.trampolineBlock (s.regs argument))
  have kept : ∀ r : A64R, r ≠ A64R.xzr → s₂.regs r = (s.setReg RA.trampolineBlock (s.regs argument)).regs r := by
    intro r real
    have operand := operand_pushes pushed (.x r)
    rwa [HostState.operand, HostState.operand, if_neg real, if_neg real] at operand
  obtain ⟨s₃, loads, loaded⟩ := run_loads s₂
  have pointer : s₂.regs RA.trampolineBlock = s.regs argument := by
    rw [kept _ (by decide), regs_setReg, if_pos rfl]
  -- the block is read behind the pushes, which it does not overlap
  have block : load s₂.memory (s₂.regs RA.trampolineBlock) = .ofCall env guest address := by
    rw [pointer, ← prepared.block]
    exact load_congr fun k inside => memory_stacks onStack (prepared.apart k inside)
  rw [block] at loaded
  refine ⟨_, s₂, s₃, ?_, rfl, onStack, kept, loaded⟩
  rw [List.cons_append, run, TrampolineInstr.step, Option.bind_some, run_append, run_stack, pushed,
    Option.bind_some, loads]

/-- Behind the call of the code, whatever registers that are saved it has used. -/
theorem returns_behind (prepared : Prepared env guest address s) (call : AtCall env guest address s s₁ s₂ s₃)
    {m : State} (platform : m.regs 18 = s₃.regs 18) (frame : m.regs 29 = s₃.regs 29)
    (invoke : Word → HostState × Guest → HostState × Guest → Prop) :
    ∃ s', Returns invoke ((savedPairs.reverse.map fun p => RegisterSaver.pop p.1 p.2).map .stack ++ stores ++ [.ret])
        (s₃.behind m, m.guest) (s.regs returnAddress) (s', m.guest) ∧
      Conforms s s' ∧ load s'.memory (s.regs argument) = { TrampolineBlock.ofCall env guest address with
        exitReason := m.regs RA.exitReason
        exitPc := m.regs RA.exitPc } := by
  have memory₄ : (s₃.behind m).memory = s₂.memory := call.loaded.memory
  obtain ⟨s₅, popped, sp₅, memory₅, values⟩ :=
    call.onStack.pops (s₃.behind m) call.loaded.sp fun k low => congrFun memory₄ _
  have same : ∀ r : A64R, r ≠ RA.trampolineBlock → s₁.regs r = s.regs r := by
    intro r other
    rw [call.pointed]
    exact if_neg other
  have restored : ∀ r : A64R, r ≠ A64R.xzr → (∃ p ∈ savedPairs, .x r = p.1 ∨ .x r = p.2) →
      s₅.regs r = s₁.regs r := by
    rintro r real ⟨p, member, place⟩
    have operand : s₅.operand (.x r) = s₁.operand (.x r) := by
      obtain ⟨first, second⟩ := values p member
      rcases place with place | place
      · rw [place, first]
      · rw [place, second]
    rwa [HostState.operand, HostState.operand, if_neg real, if_neg real] at operand
  have others : ∀ r : A64R, (∀ p ∈ savedPairs.reverse, HostRegister.x r ≠ p.1 ∧ .x r ≠ p.2) →
      s₅.regs r = m.regs r := fun r other => regs_pops popped other
  have block : s₅.regs RA.trampolineBlock = s.regs argument := by
    rw [restored _ (by decide) (by decide), call.pointed, regs_setReg, if_pos rfl]
  have sp : s₅.sp = s.sp := by
    rw [sp₅, call.pointed]
    rfl
  let s₆ : HostState :=
    { s₅ with
      memory := storePair s₅.memory (s.regs argument + atExitReason) (m.regs RA.exitReason) (m.regs RA.exitPc) }
  have stored : run stores s₅ = some s₆ := by
    simp only [stores, run, TrampolineInstr.step, Option.bind_some, block, others RA.exitReason (by decide),
      others RA.exitPc (by decide), s₆, storePair, BitVec.add_assoc]
    rfl
  have saved : ∀ r : A64R, 18 ≤ r.val → r.val ≤ 30 → s₅.regs r = s.regs r := by
    intro r low high
    have place : ∀ r : A64R, 18 ≤ r.val → r.val ≤ 30 →
        (∃ p ∈ savedPairs, .x r = p.1 ∨ .x r = p.2) ∨ r = 18 ∨ r = 29 := by decide
    have apart : ∀ r : A64R, 18 ≤ r.val → r.val ≤ 30 → r ≠ RA.trampolineBlock ∧ r ≠ A64R.xzr ∧
        9 ≤ r.val := by decide
    obtain ⟨other, real, beyond⟩ := apart r low high
    -- the two registers that are not saved are not used either
    have untouched : s₃.regs r = s.regs r :=
      (call.loaded.others r beyond).trans ((call.kept r real).trans (same r other))
    rcases place r low high with inside | rfl | rfl
    · exact (restored r real inside).trans (same r other)
    · exact (others 18 (by decide)).trans (platform.trans untouched)
    · exact (others 29 (by decide)).trans (frame.trans untouched)
  have memory : ∀ a, OffStack s.sp frameSize a → s₅.memory a = s.memory a := fun a off =>
    (congrFun memory₅ a).trans (call.memory_eq off)
  refine ⟨s₆, ?_, ⟨sp, saved, fun a off far => ?_⟩, ?_⟩
  · have whole : run ((savedPairs.reverse.map fun p => RegisterSaver.pop p.1 p.2).map .stack ++ stores)
        (s₃.behind m) = some s₆ := by
      rw [run_append, run_stack, popped, Option.bind_some, stored]
    rw [← saved returnAddress (by decide) (by decide)]
    exact .after whole .ret
  · exact (storePair_outside _ _ _ _ far).trans (memory a off)
  · have input : load s₅.memory (s.regs argument) = .ofCall env guest address := by
      rw [← prepared.block]
      exact load_congr fun k inside => memory _ (prepared.apart k inside)
    rw [← input]
    exact load_storePair _ _ _ _

end Call

/-! ### The call -/

section Calls

variable {platform : Platform} {codeSize : List (LinearCode.Item Instr) → Nat}
  {codeSize_pos : ∀ code, 0 < codeSize code}

/-- A call of the trampoline from the executor's loop: the code of the block is entered with the
guest. When it comes back, so does the trampoline; it keeps to the convention, and the block it was
given holds the reason and the pc the run goes on with. -/
theorem trampoline_returns (build : Build) {vm₀ : VmState}
    {buffer₀ buffer : Buffer (arch platform codeSize codeSize_pos)}
    {c : Config (arch platform codeSize codeSize_pos)} {exit : Riscv64Emulator.Exit} {guest : Guest}
    {block : CompiledBlock (arch platform codeSize codeSize_pos).Code} {address : Word} {s : HostState}
    (starts : Starts build vm₀ buffer₀)
    (runs : Runs (arch platform codeSize codeSize_pos) build (.lookup vm₀ buffer₀) c)
    (enters : ∀ leftover, Next (arch platform codeSize codeSize_pos) build c
      (.inside exit buffer block (enter (build.env buffer) guest leftover)))
    (lies : LiesAt build buffer block address) (prepared : Prepared (build.env buffer) guest address s)
    (back : Word) : ∃ (code : List TrampolineInstr) (leftover : A64R → Word),
      generateTrampoline = .ok code ∧
      ∀ m, Executes build buffer block (enter (build.env buffer) guest leftover) m →
        ∃ (s' : HostState) (guest' : Guest) (reason : ArchExitReason)
          (c' : Config (arch platform codeSize codeSize_pos)),
          Returns (fun address t => Invokes build buffer back address t.1 t.2) code (s, guest)
            (s.regs returnAddress) (s', guest') ∧
          Conforms s s' ∧
          load s'.memory (s.regs argument) = { TrampolineBlock.ofCall (build.env buffer) guest address with
            exitReason := reason.code
            exitPc := m.regs RA.exitPc } ∧
          GoesOn buffer exit guest' (m.regs RA.exitPc) reason c' ∧
          Runs (arch platform codeSize codeSize_pos) build (.lookup vm₀ buffer₀) c' := by
  obtain ⟨s₁, s₂, s₃, front, call⟩ := exists_atCall prepared
  refine ⟨_, (s₃.setReg returnAddress back).regs, generateTrampoline_eq, fun m executes => ?_⟩
  have sound := ((starts.sound (refines platform codeSize codeSize_pos)).run runs).next
    (enters (s₃.setReg returnAddress back).regs)
  -- no code of a block writes a register that is preserved
  have kept : ∀ r ∈ preserved, m.regs r = (s₃.setReg returnAddress back).regs r := by
    intro r member
    have keeps : m.regs r = (enter (build.env buffer) guest (s₃.setReg returnAddress back).regs).regs r :=
      executes.keeps (fun _ _ _ _ genuine ran => runCode_keeps genuine.generated ran member) sound
    rw [keeps, ← machine_eq_enter call.loaded]
    rfl
  obtain ⟨reason, c', code, goes, later⟩ := executes.goesOn sound
  obtain ⟨s', behind, conforms, results⟩ := returns_behind prepared call (m := m) (kept 18 (by decide))
    (kept 29 (by decide)) fun address t => Invokes build buffer back address t.1 t.2
  refine ⟨s', m.guest, reason, c', ?_, conforms, ?_, goes, (runs.tail (enters _)).trans later.to_reflTransGen⟩
  · have found : m.regs returnAddress = back := by
      rw [kept _ (by decide), regs_setReg, if_pos rfl]
    have invokes : Invokes build buffer back address s₃ guest (s₃.behind m, m.guest) :=
      .intro lies (machine_eq_enter call.loaded back ▸ executes) found
    have entrypoint : s₃.regs RA.trampolineBlock = address := call.loaded.entrypoint
    rw [← entrypoint] at invokes
    have whole := Returns.after front (.blr invokes behind)
    simpa using whole
  · have reason' : m.regs RA.exitReason = reason.code := code
    rw [results, reason']

/-- The trampoline at a program that makes a system call. -/
theorem trampoline_returns_ecall :
    ∃ (buffer : Buffer (arch Platform.plain (fun _ => 1) fun _ => Nat.one_pos)) (address : Word)
      (code : List TrampolineInstr) (s s' : HostState) (guest : Guest),
      Prepared (SystemCall.build.env buffer) (guestOf SystemCall.vm) address s ∧
      generateTrampoline = .ok code ∧
      Returns (fun address t => Invokes SystemCall.build buffer 0x9000 address t.1 t.2) code
        (s, guestOf SystemCall.vm) (s.regs returnAddress) (s', guest) ∧ Conforms s s' := by
  obtain ⟨code, generated⟩ : ∃ code, (arch Platform.plain (fun _ => 1) fun _ => Nat.one_pos).generateBlockCode
      {} 4 SystemCall.memory false 0 = .ok code := ⟨_, rfl⟩
  obtain ⟨c, buffer, block, address, runs, lies, later⟩ :=
    SystemCall.enters (refines Platform.plain (fun _ => 1) fun _ => Nat.one_pos) generated rfl
  -- the caller's state: the trampoline block apart from the stack
  let called := TrampolineBlock.ofCall (SystemCall.build.env buffer) (guestOf SystemCall.vm) address
  let s : HostState :=
    { regs := fun r => if r = argument then 0x8000 else 0
      sp := 0x7000
      memory := store (fun _ => 0) 0x8000 called }
  have prepared : Prepared (SystemCall.build.env buffer) (guestOf SystemCall.vm) address s := by
    refine ⟨load_store _ _ _, fun k inside => ?_⟩
    show ((0x8000 : Word) + BitVec.ofNat 64 k - 0x7000).toNat + 96 < 2 ^ 64
    bv_omega
  obtain ⟨trampoline, leftover, made, calls⟩ := trampoline_returns SystemCall.build SystemCall.starts runs
    (fun leftover => (later leftover).1) lies prepared 0x9000
  obtain ⟨m, executes⟩ := (later leftover).2
  obtain ⟨s', guest, reason, c', returns, conforms, -⟩ := calls m executes
  exact ⟨buffer, address, trampoline, s, s', guest, prepared, made, returns, conforms⟩

end Calls

end Trampoline

end Riscv64Emulator.Jit.Aarch64
