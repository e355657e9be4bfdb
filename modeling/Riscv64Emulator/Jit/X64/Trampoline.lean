import Riscv64Emulator.Jit.Execution
import Riscv64Emulator.Jit.X64.Clobbers
import Riscv64Emulator.Lib.Stack

/-!
# The x64 trampoline

`src/vm/jit/x64/Trampoline.cpp` and `src/vm/jit/x64/Abi.cpp`. The executor calls the trampoline
like a C function. It saves the registers of the calling convention, loads those of the
generated code from the block it is given, calls the code and stores what comes back.
-/
namespace Riscv64Emulator.Jit.X64

/-! ### `Abi` -/

structure Abi where
  calleeSavedRegs : List X64R
  argumentReg : X64R

namespace Abi

def windows : Abi where
  calleeSavedRegs := [.rbx, .rbp, .rdi, .rsi, .r12, .r13, .r14, .r15]
  argumentReg := .rcx

def systemv : Abi where
  calleeSavedRegs := [.rbx, .rbp, .r12, .r13, .r14, .r15]
  argumentReg := .rdi

end Abi

/-- The register that holds the block while the trampoline needs it. -/
abbrev RA.trampolineBlock : X64R := .r11

/-! ### `TrampolineBlock` -/

structure TrampolineBlock where
  registerState : Word
  memoryBase : Word
  permissionsBase : Word
  blockBase : Word
  codeBase : Word
  entrypoint : Word
  exitReason : Word
  exitPc : Word
deriving DecidableEq, Repr

namespace TrampolineBlock

/-! The offsets of the fields. -/

abbrev atRegisterState : Word := 0
abbrev atMemoryBase : Word := 8
abbrev atPermissionsBase : Word := 16
abbrev atBlockBase : Word := 24
abbrev atCodeBase : Word := 32
abbrev atEntrypoint : Word := 40
abbrev atExitReason : Word := 48
abbrev atExitPc : Word := 56

/-- The block in the memory of the host. -/
def load (memory : Word → Byte) (address : Word) : TrampolineBlock where
  registerState := loadWord memory (address + atRegisterState)
  memoryBase := loadWord memory (address + atMemoryBase)
  permissionsBase := loadWord memory (address + atPermissionsBase)
  blockBase := loadWord memory (address + atBlockBase)
  codeBase := loadWord memory (address + atCodeBase)
  entrypoint := loadWord memory (address + atEntrypoint)
  exitReason := loadWord memory (address + atExitReason)
  exitPc := loadWord memory (address + atExitPc)

/-- The fields, written one behind the other. -/
def store (memory : Word → Byte) (address : Word) (block : TrampolineBlock) : Word → Byte :=
  [(atRegisterState, block.registerState), (atMemoryBase, block.memoryBase),
    (atPermissionsBase, block.permissionsBase), (atBlockBase, block.blockBase), (atCodeBase, block.codeBase),
    (atEntrypoint, block.entrypoint), (atExitReason, block.exitReason), (atExitPc, block.exitPc)].foldl
    (fun memory field => storeWord memory (address + field.1) field.2) memory

theorem load_store (memory : Word → Byte) (address : Word) (block : TrampolineBlock) :
    load (store memory address block) address = block := by
  have other : ∀ (f : Word → Byte) (v m n : Word), 8 ≤ (n - m).toNat ∧ 8 ≤ (m - n).toNat →
      loadWord (storeWord f (address + m) v) (address + n) = loadWord f (address + n) := by
    intro f v m n far
    refine loadWord_storeWord_apart f v ?_ ?_ <;> bv_omega
  unfold load store
  simp (disch := decide) only [List.foldl, loadWord_storeWord, other]

/-- The block `Executor::run` makes. -/
def ofCall (env : Env) (guest : Guest) (code : Word) : TrampolineBlock where
  registerState := env.layout.registerState
  memoryBase := env.layout.memoryBase
  permissionsBase := env.layout.memoryBase + BitVec.ofNat 64 guest.memory.permissionsOffset
  blockBase := env.layout.blockBase
  codeBase := env.layout.codeBase
  entrypoint := code
  exitReason := 0
  exitPc := 0

end TrampolineBlock

/-! ### The code of the trampoline -/

/-- The instructions of the trampoline, with operands in the memory of the host. -/
inductive TrampolineInstr where
  | push (r : X64R)
  | pop (r : X64R)
  | mov (dst src : X64R)
  | load (dst base : X64R) (disp : Word)
  | store (base : X64R) (disp : Word) (src : X64R)
  | call (base : X64R) (disp : Word)
  | ret
deriving DecidableEq, Repr

namespace Trampoline

open TrampolineBlock

/-- `needs_extra_push`. -/
def needsExtraPush (abi : Abi) : Bool := (abi.calleeSavedRegs.length + 1) % 16 == 0

/-- The loads from the block. -/
def loads : List TrampolineInstr :=
  [.load RA.registerState RA.trampolineBlock atRegisterState,
   .load RA.memoryBase RA.trampolineBlock atMemoryBase,
   .load RA.permissionsBase RA.trampolineBlock atPermissionsBase,
   .load RA.codeBase RA.trampolineBlock atCodeBase,
   .load RA.blockBase RA.trampolineBlock atBlockBase]

/-- The registers that keep the block over the call, twice if the stack needs it. -/
def keptBlock (abi : Abi) : List X64R :=
  if needsExtraPush abi then [RA.trampolineBlock, RA.trampolineBlock] else [RA.trampolineBlock]

/-- `generate_trampoline`. -/
def generateTrampoline (abi : Abi) : List TrampolineInstr :=
  abi.calleeSavedRegs.map .push ++
    .mov RA.trampolineBlock abi.argumentReg :: loads ++ (keptBlock abi).map .push ++
    .call RA.trampolineBlock atEntrypoint :: (keptBlock abi).map .pop ++
    [.store RA.trampolineBlock atExitReason RA.exitReason,
     .store RA.trampolineBlock atExitPc RA.exitPc] ++
    abi.calleeSavedRegs.reverse.map .pop ++ [.ret]

end Trampoline

/-! ### The host around generated code -/

/-- A thread of the host: its registers, its memory without the objects of the guest, and these. -/
structure HostState where
  regs : X64R → Word
  memory : Word → Byte
  guest : Guest

namespace HostState

def setReg (s : HostState) (r : X64R) (v : Word) : HostState :=
  { s with regs := fun q => if q = r then v else s.regs q }

def push (s : HostState) (v : Word) : HostState :=
  let sp := s.regs .rsp - 8
  { s.setReg .rsp sp with memory := storeWord s.memory sp v }

@[simp] theorem regs_setReg (s : HostState) (r q : X64R) (v : Word) :
    (s.setReg r v).regs q = if q = r then v else s.regs q := rfl
@[simp] theorem memory_setReg (s : HostState) (r : X64R) (v : Word) : (s.setReg r v).memory = s.memory := rfl
@[simp] theorem guest_setReg (s : HostState) (r : X64R) (v : Word) : (s.setReg r v).guest = s.guest := rfl

/-- Generated code sees the registers and the guest. What it is entered with is no guest data. -/
def machine (s : HostState) : State := ⟨s.regs, fun _ => true, none, s.guest⟩

/-- It leaves the memory of the host alone. -/
def behind (s : HostState) (m : State) : HostState := { s with regs := m.regs, guest := m.guest }

end HostState

/-- One instruction that is neither the call nor the return. -/
def TrampolineInstr.step : TrampolineInstr → HostState → Option HostState
  | .push r, s => some (s.push (s.regs r))
  | .pop r, s => some ((s.setReg .rsp (s.regs .rsp + 8)).setReg r (loadWord s.memory (s.regs .rsp)))
  | .mov dst src, s => some (s.setReg dst (s.regs src))
  | .load dst base disp, s => some (s.setReg dst (loadWord s.memory (s.regs base + disp)))
  | .store base disp src, s =>
    some { s with memory := storeWord s.memory (s.regs base + disp) (s.regs src) }
  | .call _ _, _ | .ret, _ => none

namespace Trampoline

open HostState

/-- The code runs to its return, from one state to another and on to an address. `invoke` is what
a call of code at an address does. -/
inductive Returns (invoke : Word → HostState → HostState → Prop) :
    List TrampolineInstr → HostState → Word → HostState → Prop
  | step {i rest s s₁ target s'} (plain : i.step s = some s₁) (later : Returns invoke rest s₁ target s') :
      Returns invoke (i :: rest) s target s'
  | call {base disp rest s s₁ target s'} (called : invoke (loadWord s.memory (s.regs base + disp)) s s₁)
      (later : Returns invoke rest s₁ target s') : Returns invoke (.call base disp :: rest) s target s'
  | ret {rest s} : Returns invoke (.ret :: rest) s (loadWord s.memory (s.regs .rsp))
      (s.setReg .rsp (s.regs .rsp + 8))

section Invokes

variable {codeSize : List (LinearCode.Item Instr) → Nat} {codeSize_pos : ∀ code, 0 < codeSize code}
  (build : Build) (buffer : Buffer (arch codeSize codeSize_pos))

/-- A call of generated code. `back` is the address behind the call, which the return of the code
has to find on the stack. -/
inductive Invokes (back address : Word) (s : HostState) : HostState → Prop
  | intro {block : CompiledBlock (arch codeSize codeSize_pos).Code} {m : State}
      (here : LiesAt build buffer block address)
      (executes : Executes build buffer block (s.push back).machine m)
      (found : loadWord (s.push back).memory (m.regs .rsp) = back) :
      Invokes back address s (((s.push back).behind m).setReg .rsp (m.regs .rsp + 8))

end Invokes

/-! ### The stack -/

/-- Straight-line code. -/
def run : List TrampolineInstr → HostState → Option HostState
  | [], s => some s
  | i :: rest, s => (i.step s).bind (run rest)

theorem run_append (code rest : List TrampolineInstr) (s : HostState) :
    run (code ++ rest) s = (run code s).bind (run rest) := by
  induction code generalizing s with
  | nil => rfl
  | cons i code ih =>
    rw [List.cons_append, run, run, Option.bind_assoc]
    exact congrArg _ (funext ih)

/-- Straight-line code in front of the rest. -/
theorem Returns.after {invoke : Word → HostState → HostState → Prop} {code rest : List TrampolineInstr}
    {s s₁ s' : HostState} {target : Word} (ran : run code s = some s₁)
    (later : Returns invoke rest s₁ target s') : Returns invoke (code ++ rest) s target s' := by
  induction code generalizing s with
  | nil =>
    cases ran
    exact later
  | cons i code ih =>
    obtain ⟨s₂, plain, ran⟩ := Option.bind_eq_some_iff.mp ran
    exact .step plain (ih ran)

/-- `s₁` is `s` with registers on the stack: whatever leaves the stack pointer and the stack above
it alone, the pops in the opposite order put the registers back. -/
structure Pushed (regs : List X64R) (s s₁ : HostState) : Prop where
  sp : s₁.regs .rsp = s.regs .rsp - BitVec.ofNat 64 (8 * regs.length)
  others : ∀ r, r ≠ .rsp → s₁.regs r = s.regs r
  guest : s₁.guest = s.guest
  above : ∀ a, OffStack (s.regs .rsp) (8 * regs.length) a → s₁.memory a = s.memory a
  pops : ∀ s₂ : HostState, s₂.regs .rsp = s₁.regs .rsp →
    (∀ k < 8 * regs.length, s₂.memory (s₁.regs .rsp + BitVec.ofNat 64 k)
      = s₁.memory (s₁.regs .rsp + BitVec.ofNat 64 k)) →
    ∃ s₃, run (regs.reverse.map .pop) s₂ = some s₃ ∧ s₃.regs .rsp = s.regs .rsp ∧
      s₃.memory = s₂.memory ∧ s₃.guest = s₂.guest ∧ (∀ r ∈ regs, s₃.regs r = s.regs r) ∧
      ∀ r, r ∉ regs → r ≠ .rsp → s₃.regs r = s₂.regs r

theorem exists_pushed (regs : List X64R) (others : .rsp ∉ regs) (small : 8 * regs.length < 2 ^ 64)
    (s : HostState) : ∃ s₁, run (regs.map .push) s = some s₁ ∧ Pushed regs s s₁ := by
  -- the first register pushed is popped last, so the induction takes it off at both ends
  induction regs generalizing s with
  | nil =>
    refine ⟨s, rfl, by simp, fun _ _ => rfl, rfl, fun _ _ => rfl, fun s₂ same _ => ⟨s₂, rfl, same, rfl, rfl, ?_, ?_⟩⟩
    · exact fun _ member => absurd member List.not_mem_nil
    · exact fun _ _ _ => rfl
  | cons r rest ih =>
    rw [List.length_cons] at small
    obtain ⟨apart, others⟩ := List.ne_and_not_mem_of_not_mem_cons others
    obtain ⟨s₁, ran, pushed⟩ := ih others (by omega) (s.push (s.regs r))
    have sp : (s.push (s.regs r)).regs .rsp = s.regs .rsp - 8 := rfl
    have length : BitVec.ofNat 64 (8 * (rest.length + 1)) = 8 + BitVec.ofNat 64 (8 * rest.length) := by
      rw [Nat.mul_add, Nat.add_comm, BitVec.ofNat_add]
      rfl
    have down : s₁.regs .rsp = s.regs .rsp - BitVec.ofNat 64 (8 * (rest.length + 1)) := by
      rw [pushed.sp, sp, length]
      bv_omega
    refine ⟨s₁, ?_, ?_, fun q other => ?_, pushed.guest, fun a off => ?_, fun s₂ same kept => ?_⟩
    · rw [List.map_cons, run]
      exact ran
    · rw [List.length_cons]
      exact down
    · exact (pushed.others q other).trans (if_neg other)
    · rw [List.length_cons, Nat.mul_add] at off
      rw [pushed.above a (by rw [sp]; exact off.down)]
      exact storeWord_offStack _ _ (off.mono (by omega))
    · rw [List.length_cons] at kept
      obtain ⟨s₃, popped, sp₃, memory₃, guest₃, saved, others₃⟩ :=
        pushed.pops s₂ same fun k low => kept k (by omega)
      -- the register lies above the others, untouched since its push
      have own : loadWord s₃.memory (s₃.regs .rsp) = s.regs r := by
        refine (loadWord_congr _ _ _ _ fun k low => ?_).trans
          (loadWord_storeWord s.memory (s.regs .rsp - 8) (s.regs r))
        have place : s₃.regs .rsp + BitVec.ofNat 64 k
            = s₁.regs .rsp + BitVec.ofNat 64 (8 * rest.length + k) := by
          rw [sp₃, sp, down, length, BitVec.ofNat_add]
          bv_omega
        rw [memory₃, place, kept _ (by omega), ← place, sp₃, sp]
        exact pushed.above _ (by rw [sp]; exact offStack_above _ (by omega))
      refine ⟨(s₃.setReg .rsp (s₃.regs .rsp + 8)).setReg r (loadWord s₃.memory (s₃.regs .rsp)),
        ?_, ?_, memory₃, guest₃, fun q member => ?_, fun q absent other => ?_⟩
      · rw [List.reverse_cons, List.map_append, run_append, popped]
        rfl
      · have back : s₃.regs .rsp + 8 = s.regs .rsp := by
          rw [sp₃, sp]
          bv_omega
        rw [regs_setReg, if_neg apart, regs_setReg, if_pos rfl]
        exact back
      · by_cases same : q = r
        · subst same
          exact (if_pos rfl).trans own
        · have later : q ∈ rest := (List.mem_cons.mp member).resolve_left same
          have other : q ≠ .rsp := fun same => others (same ▸ later)
          refine (if_neg same).trans ((if_neg other).trans ((saved q later).trans ?_))
          exact if_neg other
      · obtain ⟨apart', later⟩ := List.ne_and_not_mem_of_not_mem_cons absent
        exact (if_neg apart').trans ((if_neg other).trans (others₃ q later other))

/-! ### The calling convention -/

open TrampolineBlock

/-- The bytes of the stack a call uses: the saved registers, the block and the address behind the
call of the code. -/
def frameSize (abi : Abi) : Nat :=
  8 * abi.calleeSavedRegs.length + 8 * (keptBlock abi).length + 8

/-- The trampoline is called as the executor does it: the argument is a block made for the guest and
for code, off the stack the call uses and off the return address. -/
structure Prepared (abi : Abi) (env : Env) (guest : Guest) (address : Word) (s : HostState) : Prop where
  same : s.guest = guest
  block : load s.memory (s.regs abi.argumentReg) = .ofCall env guest address
  apart : ∀ k < 64, OffStack (s.regs .rsp + 8) (frameSize abi + 8)
    (s.regs abi.argumentReg + BitVec.ofNat 64 k)

/-- What the caller of a function relies on; of its memory only the two results change. -/
structure Conforms (abi : Abi) (s s' : HostState) : Prop where
  sp : s'.regs .rsp = s.regs .rsp + 8
  saved : ∀ r ∈ abi.calleeSavedRegs, s'.regs r = s.regs r
  memory : ∀ a, OffStack (s.regs .rsp) (frameSize abi) a →
    16 ≤ (a - (s.regs abi.argumentReg + atExitReason)).toNat → s'.memory a = s.memory a

/-- The registers of a calling convention, without the stack pointer. -/
structure Usable (abi : Abi) : Prop where
  saved : .rsp ∉ abi.calleeSavedRegs
  argument : abi.argumentReg ≠ .rsp
  short : abi.calleeSavedRegs.length ≤ 16

theorem usable_of_known {abi : Abi} (known : abi = .windows ∨ abi = .systemv) : Usable abi := by
  rcases known with rfl | rfl <;> exact ⟨by decide, by decide, by decide⟩

/-- The registers of generated code, loaded from the block at `p`. -/
structure Loaded (p : Word) (s s' : HostState) : Prop where
  memory : s'.memory = s.memory
  guest : s'.guest = s.guest
  sp : s'.regs .rsp = s.regs .rsp
  trampolineBlock : s'.regs RA.trampolineBlock = p
  registerState : s'.regs RA.registerState = (load s.memory p).registerState
  memoryBase : s'.regs RA.memoryBase = (load s.memory p).memoryBase
  permissionsBase : s'.regs RA.permissionsBase = (load s.memory p).permissionsBase
  codeBase : s'.regs RA.codeBase = (load s.memory p).codeBase
  blockBase : s'.regs RA.blockBase = (load s.memory p).blockBase

theorem run_loads (s : HostState) (arg : X64R) :
    ∃ s', run (.mov RA.trampolineBlock arg :: loads) s = some s' ∧ Loaded (s.regs arg) s s' := by
  refine ⟨_, rfl, ?_⟩
  constructor <;> simp [load]

/-- Generated code is entered as the executor's model says. -/
theorem machine_eq_enter {env : Env} {guest : Guest} {s : HostState} (same : s.guest = guest)
    (registerState : s.regs RA.registerState = env.layout.registerState)
    (memoryBase : s.regs RA.memoryBase = env.layout.memoryBase)
    (permissionsBase : s.regs RA.permissionsBase
      = env.layout.memoryBase + BitVec.ofNat 64 guest.memory.permissionsOffset)
    (codeBase : s.regs RA.codeBase = env.layout.codeBase)
    (blockBase : s.regs RA.blockBase = env.layout.blockBase) :
    s.machine = enter env guest s.regs := by
  unfold machine enter
  rw [State.mk.injEq]
  refine ⟨funext fun q => ?_, rfl, rfl, same⟩
  cases q <;> first | assumption | rfl

/-- A block is its bytes. -/
theorem load_congr {f g : Word → Byte} {p : Word}
    (same : ∀ k < 64, f (p + BitVec.ofNat 64 k) = g (p + BitVec.ofNat 64 k)) : load f p = load g p := by
  have field : ∀ n ≤ 56, loadWord f (p + BitVec.ofNat 64 n) = loadWord g (p + BitVec.ofNat 64 n) := by
    intro n inside
    refine loadWord_congr _ _ _ _ fun k low => ?_
    rw [BitVec.add_assoc, ← BitVec.ofNat_add]
    exact same (n + k) (by omega)
  simp only [load, TrampolineBlock.mk.injEq]
  exact ⟨field 0 (by decide), field 8 (by decide), field 16 (by decide), field 24 (by decide),
    field 32 (by decide), field 40 (by decide), field 48 (by decide), field 56 (by decide)⟩

/-- The two stores behind the call. -/
def storeResults (f : Word → Byte) (p reason pc : Word) : Word → Byte :=
  storeWord (storeWord f (p + atExitReason) reason) (p + atExitPc) pc

/-- They change the results of the block and nothing else. -/
theorem storeResults_outside (f : Word → Byte) (p reason pc : Word) {a : Word}
    (far : 16 ≤ (a - (p + atExitReason)).toNat) : storeResults f p reason pc a = f a := by
  have second : 8 ≤ (a - (p + atExitPc)).toNat := by bv_omega
  exact (storeWord_outside _ _ _ second).trans (storeWord_outside _ _ _ (by omega))

theorem load_storeResults (f : Word → Byte) (p reason pc : Word) :
    load (storeResults f p reason pc) p = { load f p with exitReason := reason, exitPc := pc } := by
  have input : ∀ n ≤ 40, loadWord (storeResults f p reason pc) (p + BitVec.ofNat 64 n)
      = loadWord f (p + BitVec.ofNat 64 n) := by
    intro n inside
    refine loadWord_congr _ _ _ _ fun k low => storeResults_outside _ _ _ _ ?_
    have distance : p + BitVec.ofNat 64 n + BitVec.ofNat 64 k - (p + atExitReason)
        = BitVec.ofNat 64 (n + k) - 48 := by
      rw [BitVec.ofNat_add]
      bv_omega
    rw [distance]
    bv_omega
  have reasons : loadWord (storeResults f p reason pc) (p + atExitReason) = reason := by
    refine (loadWord_congr _ _ _ _ fun k low => storeWord_outside _ _ _ ?_).trans
      (loadWord_storeWord f (p + atExitReason) reason)
    bv_omega
  simp only [load, TrampolineBlock.mk.injEq]
  exact ⟨input 0 (by decide), input 8 (by decide), input 16 (by decide), input 24 (by decide),
    input 32 (by decide), input 40 (by decide), reasons, loadWord_storeWord _ _ _⟩

section Call

variable {abi : Abi} {env : Env} {guest : Guest} {address : Word} {s s₁ s₂ s₃ : HostState}

theorem reverse_keptBlock (abi : Abi) : (keptBlock abi).reverse = keptBlock abi := by
  unfold keptBlock
  split <;> rfl

theorem mem_keptBlock (abi : Abi) {r : X64R} : r ∈ keptBlock abi ↔ r = RA.trampolineBlock := by
  unfold keptBlock
  split <;> simp

theorem length_keptBlock (abi : Abi) : (keptBlock abi).length ≤ 2 := by
  unfold keptBlock
  split <;> decide

/-- A byte of the block is no byte of the stack. -/
theorem Prepared.off (prepared : Prepared abi env guest address s) {k : Nat} (inside : k < 64) :
    OffStack (s.regs .rsp) (frameSize abi) (s.regs abi.argumentReg + BitVec.ofNat 64 k) := by
  have down := (prepared.apart k inside).down
  rwa [show s.regs .rsp + 8 - BitVec.ofNat 64 8 = s.regs .rsp by bv_omega] at down

/-- What lies on the stack, or is the return address, is no result. -/
theorem Prepared.far (prepared : Prepared abi env guest address s) {a : Word}
    (on : ¬OffStack (s.regs .rsp + 8) (frameSize abi + 8) a) :
    16 ≤ (a - (s.regs abi.argumentReg + atExitReason)).toNat := by
  by_contra near
  have place : a = s.regs abi.argumentReg
      + BitVec.ofNat 64 (48 + (a - (s.regs abi.argumentReg + atExitReason)).toNat) := by
    rw [BitVec.ofNat_add, BitVec.ofNat_toNat, BitVec.setWidth_eq]
    bv_omega
  rw [place] at on
  exact on (prepared.apart _ (by omega))

/-- The thread in front of the call of the code: the registers of the convention are on the stack,
then the block. -/
structure AtCall (abi : Abi) (env : Env) (guest : Guest) (address : Word) (s s₁ s₂ s₃ : HostState) : Prop where
  saved : Pushed abi.calleeSavedRegs s s₁
  memory : s₂.memory = s₁.memory
  sp : s₂.regs .rsp = s₁.regs .rsp
  block : s₂.regs RA.trampolineBlock = s.regs abi.argumentReg
  kept : Pushed (keptBlock abi) s₂ s₃
  entrypoint : loadWord s₃.memory (s₃.regs RA.trampolineBlock + atEntrypoint) = address
  enters : ∀ back, (s₃.push back).machine = enter env guest (s₃.push back).regs

theorem AtCall.sp_eq (call : AtCall abi env guest address s s₁ s₂ s₃) (back : Word) :
    (s₃.push back).regs .rsp = s.regs .rsp - BitVec.ofNat 64 (frameSize abi) := by
  have sp : (s₃.push back).regs .rsp = s₃.regs .rsp - 8 := rfl
  rw [sp, call.kept.sp, call.sp, call.saved.sp, frameSize, BitVec.ofNat_add, BitVec.ofNat_add]
  bv_omega

/-- The call writes to its part of the stack only. -/
theorem AtCall.memory_eq (call : AtCall abi env guest address s s₁ s₂ s₃) (back : Word) {a : Word}
    (off : OffStack (s.regs .rsp) (frameSize abi) a) : (s₃.push back).memory a = s.memory a := by
  have split : frameSize abi = (8 + 8 * (keptBlock abi).length) + 8 * abi.calleeSavedRegs.length := by
    unfold frameSize
    omega
  rw [split] at off
  -- the three parts of the frame lie below each other
  have second := off.down
  rw [← call.saved.sp, ← call.sp] at second
  have third := second.down
  rw [← call.kept.sp] at third
  have pushed : (s₃.push back).memory a = s₃.memory a := storeWord_offStack _ _ third
  rw [pushed, call.kept.above a (second.mono (by omega)), call.memory]
  exact call.saved.above a (off.mono (by omega))

/-- The saved registers and the return address behind them. -/
theorem AtCall.onStack (call : AtCall abi env guest address s s₁ s₂ s₃) {k : Nat}
    (low : k < 8 * abi.calleeSavedRegs.length + 8) :
    ¬OffStack (s.regs .rsp + 8) (frameSize abi + 8) (s₁.regs .rsp + BitVec.ofNat 64 k) := by
  intro off
  unfold OffStack frameSize at off
  rw [call.saved.sp] at off
  have distance : s.regs .rsp - BitVec.ofNat 64 (8 * abi.calleeSavedRegs.length) + BitVec.ofNat 64 k
      - (s.regs .rsp + 8) = BitVec.ofNat 64 k - BitVec.ofNat 64 (8 * abi.calleeSavedRegs.length + 8) := by
    rw [BitVec.ofNat_add]
    bv_omega
  rw [distance] at off
  bv_omega

/-- The saved registers are still there when the code is entered. -/
theorem AtCall.saved_bytes (call : AtCall abi env guest address s s₁ s₂ s₃) (usable : Usable abi)
    (back : Word) {k : Nat} (low : k < 8 * abi.calleeSavedRegs.length) :
    (s₃.push back).memory (s₁.regs .rsp + BitVec.ofNat 64 k) = s₁.memory (s₁.regs .rsp + BitVec.ofNat 64 k) := by
  have short := usable.short
  have few := length_keptBlock abi
  have above : ∀ n ≤ 24, OffStack (s₂.regs .rsp) n (s₁.regs .rsp + BitVec.ofNat 64 k) := fun n small => by
    rw [call.sp]
    exact offStack_above _ (by omega)
  have deep := (above (8 + 8 * (keptBlock abi).length) (by omega)).down
  rw [← call.kept.sp] at deep
  have pushed : (s₃.push back).memory (s₁.regs .rsp + BitVec.ofNat 64 k)
      = s₃.memory (s₁.regs .rsp + BitVec.ofNat 64 k) := storeWord_offStack _ _ deep
  rw [pushed, call.kept.above _ (above _ (by omega)), call.memory]

theorem exists_atCall (usable : Usable abi) (prepared : Prepared abi env guest address s) :
    ∃ s₁ s₂ s₃, run (abi.calleeSavedRegs.map .push ++
      .mov RA.trampolineBlock abi.argumentReg :: loads ++ (keptBlock abi).map .push) s = some s₃ ∧
        AtCall abi env guest address s s₁ s₂ s₃ := by
  have short := usable.short
  have few := length_keptBlock abi
  obtain ⟨s₁, first, saved⟩ := exists_pushed abi.calleeSavedRegs usable.saved (by omega) s
  obtain ⟨s₂, second, loaded⟩ := run_loads s₁ abi.argumentReg
  obtain ⟨s₃, third, kept⟩ := exists_pushed (keptBlock abi)
    (fun member => absurd ((mem_keptBlock abi).mp member) (by decide)) (by omega) s₂
  have argument : s₁.regs abi.argumentReg = s.regs abi.argumentReg := saved.others _ usable.argument
  -- the block is read behind the pushes, which it does not overlap
  have block : load s₁.memory (s.regs abi.argumentReg) = .ofCall env guest address := by
    refine Eq.trans (load_congr fun k inside => ?_) prepared.block
    exact saved.above _ ((prepared.off inside).mono (by unfold frameSize; omega))
  have held : s₃.regs RA.trampolineBlock = s.regs abi.argumentReg :=
    (kept.others _ (by decide)).trans (loaded.trampolineBlock.trans argument)
  rw [argument] at loaded
  refine ⟨s₁, s₂, s₃, ?_, saved, loaded.memory, loaded.sp, loaded.trampolineBlock, kept, ?_, fun back => ?_⟩
  · rw [run_append, run_append, first, Option.bind_some, second, Option.bind_some, third]
  · have entry : loadWord s₁.memory (s.regs abi.argumentReg + atEntrypoint) = address :=
      congrArg TrampolineBlock.entrypoint block
    rw [held, ← entry]
    refine loadWord_congr _ _ _ _ fun k low => ?_
    have place : s.regs abi.argumentReg + BitVec.ofNat 64 (40 + k)
        = s.regs abi.argumentReg + atEntrypoint + BitVec.ofNat 64 k := by
      rw [BitVec.ofNat_add, ← BitVec.add_assoc]
      rfl
    have off := prepared.off (k := 40 + k) (by omega)
    rw [place] at off
    have down := (off.mono (m := 8 * (keptBlock abi).length + 8 * abi.calleeSavedRegs.length)
      (by unfold frameSize; omega)).down
    rw [← saved.sp, ← loaded.sp] at down
    rw [kept.above _ down, loaded.memory]
  · have value : ∀ r, r ≠ .rsp → (s₃.push back).regs r = s₂.regs r := fun r other =>
      (if_neg other).trans (kept.others r other)
    refine machine_eq_enter (kept.guest.trans (loaded.guest.trans (saved.guest.trans prepared.same))) ?_ ?_ ?_ ?_ ?_
    · rw [value _ (by decide), loaded.registerState, block]
      rfl
    · rw [value _ (by decide), loaded.memoryBase, block]
      rfl
    · rw [value _ (by decide), loaded.permissionsBase, block]
      rfl
    · rw [value _ (by decide), loaded.codeBase, block]
      rfl
    · rw [value _ (by decide), loaded.blockBase, block]
      rfl

/-- Behind the call of the code, wherever it comes back with its stack pointer. -/
theorem returns_behind (usable : Usable abi) (prepared : Prepared abi env guest address s)
    (call : AtCall abi env guest address s s₁ s₂ s₃) (back : Word) {m : State}
    (sp : m.regs .rsp = (s₃.push back).regs .rsp) (invoke : Word → HostState → HostState → Prop) :
    ∃ s', Returns invoke ((keptBlock abi).map .pop ++
        [.store RA.trampolineBlock atExitReason RA.exitReason,
         .store RA.trampolineBlock atExitPc RA.exitPc] ++
        abi.calleeSavedRegs.reverse.map .pop ++ [.ret])
        (((s₃.push back).behind m).setReg .rsp (m.regs .rsp + 8)) (loadWord s.memory (s.regs .rsp)) s' ∧
      Conforms abi s s' ∧ s'.guest = m.guest ∧
      load s'.memory (s.regs abi.argumentReg) = { TrampolineBlock.ofCall env guest address with
        exitReason := m.regs RA.exitReason
        exitPc := m.regs RA.exitPc } := by
  have short := usable.short
  have few := length_keptBlock abi
  let s₄ := ((s₃.push back).behind m).setReg .rsp (m.regs .rsp + 8)
  have sp₄ : s₄.regs .rsp = s₃.regs .rsp := by
    show m.regs .rsp + 8 = s₃.regs .rsp
    rw [sp]
    show s₃.regs .rsp - 8 + 8 = s₃.regs .rsp
    bv_omega
  obtain ⟨s₅, popped, sp₅, memory₅, guest₅, block₅, others₅⟩ := call.kept.pops s₄ sp₄ fun k low =>
    storeWord_offStack _ _ (offStack_above _ (by omega))
  rw [reverse_keptBlock] at popped
  have block : s₅.regs RA.trampolineBlock = s.regs abi.argumentReg :=
    (block₅ _ ((mem_keptBlock abi).mpr rfl)).trans call.block
  have value : ∀ r, r ≠ RA.trampolineBlock → r ≠ .rsp → s₅.regs r = m.regs r := fun r other apart =>
    (others₅ r (fun member => other ((mem_keptBlock abi).mp member)) apart).trans (if_neg apart)
  -- the results are stored before the registers of the convention come back
  let s₆ : HostState :=
    { s₅ with
      memory := storeResults s₅.memory (s.regs abi.argumentReg) (m.regs RA.exitReason) (m.regs RA.exitPc) }
  have stored : run [.store RA.trampolineBlock atExitReason RA.exitReason,
      .store RA.trampolineBlock atExitPc RA.exitPc] s₅ = some s₆ := by
    simp only [run, TrampolineInstr.step, Option.bind_some, block, value RA.exitReason (by decide) (by decide),
      value RA.exitPc (by decide) (by decide), s₆, storeResults]
  have memory₆ : ∀ a, 16 ≤ (a - (s.regs abi.argumentReg + atExitReason)).toNat →
      s₆.memory a = (s₃.push back).memory a := fun a far =>
    (storeResults_outside _ _ _ _ far).trans (congrFun memory₅ a)
  obtain ⟨s₇, restored, sp₇, memory₇, guest₇, saved, -⟩ := call.saved.pops s₆ (sp₅.trans call.sp) fun k low =>
    (memory₆ _ (prepared.far (call.onStack (by omega)))).trans (call.saved_bytes usable back low)
  have target : loadWord s₇.memory (s₇.regs .rsp) = loadWord s.memory (s.regs .rsp) := by
    rw [sp₇, memory₇]
    refine loadWord_congr _ _ _ _ fun k low => ?_
    have place : s.regs .rsp + BitVec.ofNat 64 k
        = s₁.regs .rsp + BitVec.ofNat 64 (8 * abi.calleeSavedRegs.length + k) := by
      rw [call.saved.sp, BitVec.ofNat_add]
      bv_omega
    rw [memory₆ _ (by rw [place]; exact prepared.far (call.onStack (by omega)))]
    exact call.memory_eq back (offStack_above _ (by unfold frameSize; omega))
  refine ⟨s₇.setReg .rsp (s₇.regs .rsp + 8), ?_, ⟨?_, fun r member => ?_, fun a off far => ?_⟩, ?_, ?_⟩
  · have whole : run ((keptBlock abi).map .pop ++
        [.store RA.trampolineBlock atExitReason RA.exitReason,
         .store RA.trampolineBlock atExitPc RA.exitPc] ++ abi.calleeSavedRegs.reverse.map .pop) s₄ = some s₇ := by
      rw [run_append, run_append, popped, Option.bind_some, stored, Option.bind_some, restored]
    rw [← target]
    exact .after whole .ret
  · show s₇.regs .rsp + 8 = s.regs .rsp + 8
    rw [sp₇]
  · have other : r ≠ .rsp := fun same => usable.saved (same ▸ member)
    exact (if_neg other).trans (saved r member)
  · exact (congrFun memory₇ a).trans ((memory₆ a far).trans (call.memory_eq back off))
  · exact guest₇.trans guest₅
  · have input : load s₅.memory (s.regs abi.argumentReg) = .ofCall env guest address := by
      refine Eq.trans (load_congr fun k inside => ?_) prepared.block
      exact (congrFun memory₅ _).trans (call.memory_eq back (prepared.off inside))
    have results := load_storeResults s₅.memory (s.regs abi.argumentReg) (m.regs RA.exitReason)
      (m.regs RA.exitPc)
    rw [input] at results
    exact (congrArg (load · _) memory₇).trans results

end Call

/-! ### The call -/

/-- The frame is as long as the alignment of the stack asks for. -/
theorem frameSize_aligned {abi : Abi} (known : abi = .windows ∨ abi = .systemv) : frameSize abi % 16 = 0 := by
  rcases known with rfl | rfl <;> rfl

section Calls

variable {codeSize : List (LinearCode.Item Instr) → Nat} {codeSize_pos : ∀ code, 0 < codeSize code}

/-- A call of the trampoline from the executor's loop: the code of the block is entered with the
guest and with the alignment of the stack the convention asks for. When it comes back, so does the
trampoline; it keeps to the convention, and the block it was given holds the reason and the pc the
run goes on with. -/
theorem trampoline_calls (build : Build) {abi : Abi} (known : abi = .windows ∨ abi = .systemv) {vm₀ : VmState}
    {buffer₀ buffer : Buffer (arch codeSize codeSize_pos)} {c : Config (arch codeSize codeSize_pos)}
    {exit : Riscv64Emulator.Exit} {guest : Guest} {block : CompiledBlock (arch codeSize codeSize_pos).Code}
    {address : Word} {s : HostState} (starts : Starts build vm₀ buffer₀)
    (runs : Runs (arch codeSize codeSize_pos) build (.lookup vm₀ buffer₀) c)
    (enters : ∀ leftover, Next (arch codeSize codeSize_pos) build c
      (.inside exit buffer block (enter (build.env buffer) guest leftover)))
    (lies : LiesAt build buffer block address) (prepared : Prepared abi (build.env buffer) guest address s)
    (back : Word) : ∃ leftover : X64R → Word,
      ((leftover .rsp).toNat % 16 = (s.regs .rsp).toNat % 16) ∧
      ∀ m, Executes build buffer block (enter (build.env buffer) guest leftover) m →
        ∃ (s' : HostState) (reason : ArchExitReason) (c' : Config (arch codeSize codeSize_pos)),
          Returns (Invokes build buffer back) (generateTrampoline abi) s (loadWord s.memory (s.regs .rsp)) s' ∧
          Conforms abi s s' ∧
          load s'.memory (s.regs abi.argumentReg) = { TrampolineBlock.ofCall (build.env buffer) guest address with
            exitReason := reason.code
            exitPc := m.regs RA.exitPc } ∧
          GoesOn buffer exit s'.guest (m.regs RA.exitPc) reason c' ∧
          Runs (arch codeSize codeSize_pos) build (.lookup vm₀ buffer₀) c' := by
  have usable := usable_of_known known
  obtain ⟨s₁, s₂, s₃, front, call⟩ := exists_atCall usable prepared
  refine ⟨(s₃.push back).regs, ?_, fun m executes => ?_⟩
  · have lines := frameSize_aligned known
    have short : frameSize abi < 2 ^ 64 := by rcases known with rfl | rfl <;> decide
    rw [call.sp_eq]
    bv_omega
  · have sound := ((starts.sound (refines codeSize codeSize_pos)).run runs).next (enters (s₃.push back).regs)
    -- no code of a block writes the stack pointer
    have sp : m.regs .rsp = (s₃.push back).regs .rsp :=
      executes.keeps (fun _ _ _ _ genuine ran => runCode_keeps genuine.generated ran (by decide)) sound
    obtain ⟨reason, c', code, goes, later⟩ := executes.goesOn sound
    obtain ⟨s', behind, conforms, same, results⟩ :=
      returns_behind usable prepared call back sp (Invokes build buffer back)
    refine ⟨s', reason, c', ?_, conforms, ?_, ?_, (runs.tail (enters _)).trans later.to_reflTransGen⟩
    · have found : loadWord (s₃.push back).memory (m.regs .rsp) = back := by
        rw [sp]
        exact loadWord_storeWord _ _ _
      have invokes : Invokes build buffer back address s₃ _ := .intro lies (call.enters back ▸ executes) found
      rw [← call.entrypoint] at invokes
      have whole := Returns.after front (.call invokes behind)
      simpa [generateTrampoline] using whole
    · rw [results]
      have reason' : m.regs RA.exitReason = reason.code := code
      rw [reason']
    · rw [same]
      exact goes

/-- The trampoline of System V at a program that makes a system call. -/
theorem trampoline_calls_ecall : ∃ (buffer : Buffer (arch (fun _ => 1) fun _ => Nat.one_pos))
    (address : Word) (s s' : HostState) (c : Config (arch (fun _ => 1) fun _ => Nat.one_pos)),
    Prepared .systemv (SystemCall.build.env buffer) (guestOf SystemCall.vm) address s ∧
      Returns (Invokes SystemCall.build buffer 0x9000) (generateTrampoline .systemv) s
        (loadWord s.memory (s.regs .rsp)) s' ∧ Conforms .systemv s s' ∧
      Runs _ SystemCall.build (.lookup SystemCall.vm SystemCall.buffer) c := by
  obtain ⟨code, generated⟩ : ∃ code, (arch (fun _ => 1) fun _ => Nat.one_pos).generateBlockCode {} 4
      SystemCall.memory false 0 = .ok code := ⟨_, rfl⟩
  obtain ⟨c, buffer, block, address, runs, lies, later⟩ :=
    SystemCall.enters (refines (fun _ => 1) fun _ => Nat.one_pos) generated rfl
  -- the caller's state: its stack below the trampoline block, with a return address on it
  let called := TrampolineBlock.ofCall (SystemCall.build.env buffer) (guestOf SystemCall.vm) address
  let s : HostState :=
    { regs := fun r => if r = .rsp then 0x7008 else if r = .rdi then 0x8000 else 0
      memory := store (fun _ => 0) 0x8000 called
      guest := guestOf SystemCall.vm }
  have prepared : Prepared .systemv (SystemCall.build.env buffer) (guestOf SystemCall.vm) address s := by
    refine ⟨rfl, load_store _ _ _, fun k inside => ?_⟩
    show ((0x8000 : Word) + BitVec.ofNat 64 k - (0x7008 + 8)).toNat + 72 < 2 ^ 64
    bv_omega
  obtain ⟨leftover, -, calls⟩ := trampoline_calls SystemCall.build (.inr rfl) SystemCall.starts runs
    (fun leftover => (later leftover).1) lies prepared 0x9000
  obtain ⟨m, executes⟩ := (later leftover).2
  obtain ⟨s', reason, c', returns, conforms, -, -, later⟩ := calls m executes
  exact ⟨buffer, address, s, s', c', prepared, returns, conforms, later⟩

end Calls

end Trampoline

end Riscv64Emulator.Jit.X64
