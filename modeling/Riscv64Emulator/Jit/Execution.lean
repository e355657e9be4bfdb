import Riscv64Emulator.Jit.FallBack
import Riscv64Emulator.Jit.Progress

/-!
# Calls of generated code

A trampoline enters the code of one block and gets control back from another: in between the
blocks jump to each other. What the trampoline stores afterwards is what the run loop goes on
with.
-/
namespace Riscv64Emulator.Jit

section Executes

variable {arch : Arch} (build : Build) (buffer : Buffer arch)

/-- The code of a block, entered in one state, comes back to its caller in another. -/
inductive Executes : CompiledBlock arch.Code → arch.State → arch.State → Prop
  | returns {block s s'} (ran : arch.run (build.env buffer) block.code s = some (none, s')) :
      Executes block s s'
  | chains {block block' s s₁ s' offset}
      (ran : arch.run (build.env buffer) block.code s
        = some (some (build.layout.codeBase + BitVec.setWidth 64 offset), s₁))
      (here : buffer.written offset = some (.block block')) (rest : Executes block' s₁ s') :
      Executes block s s'

/-- The code of a block lies at an address of the host. -/
def LiesAt (block : CompiledBlock arch.Code) (address : Word) : Prop :=
  ∃ offset : BitVec 32, address = build.layout.codeBase + BitVec.setWidth 64 offset ∧
    buffer.written offset = some (.block block)

/-- How `Executor::run` and `Vm::run` go on with what a trampoline stored: a reason, a pc and the
guest behind the call. -/
inductive GoesOn (exit : Exit) (g : Guest) (pc : Word) : ArchExitReason → Config arch → Prop
  | again {reason : ArchExitReason} (kind : reason.again = true) :
      GoesOn exit g pc reason (.lookup (g.toVm pc exit) buffer)
  | fallsBack {reason : ArchExitReason} (kind : reason.fallsBack = true) :
      GoesOn exit g pc reason (.fallBack (g.toVm pc exit) buffer)
  | leaves {reason : ArchExitReason} {reported : ExitReason} (kind : reason.exitReason = some reported) :
      GoesOn exit g pc reason (.stopped (g.toVm pc { exit with reason := reported }) buffer)

variable {build buffer} {be : BackEnd} {refines : arch.Refines be} {size : Word} {exit : Exit}
  {block : CompiledBlock arch.Code} {s s' : arch.State}

/-- What no code of a genuine block changes is the same behind a call. -/
theorem Executes.keeps {ρ : Type} {view : arch.State → ρ}
    (stays : ∀ (block : CompiledBlock arch.Code) (target : Option Word) (s s' : arch.State),
      block.Genuine build.singleStep size buffer →
        arch.run (build.env buffer) block.code s = some (target, s') → view s' = view s)
    (sound : Sound refines build size (.inside exit buffer block s))
    (executes : Executes build buffer block s s') : view s' = view s := by
  -- along the chain every block that is entered is sound
  induction executes with
  | returns ran => exact stays _ _ _ _ sound.2.2 ran
  | chains ran here rest ih => exact (ih (sound.next (.chain ran here))).trans (stays _ _ _ _ sound.2.2 ran)

/-- A call ends with one of the reasons the run loop knows, and the run goes on from there. -/
theorem Executes.goesOn (sound : Sound refines build size (.inside exit buffer block s))
    (executes : Executes build buffer block s s') : ∃ (reason : ArchExitReason) (c : Config arch),
      arch.exitReason s' = reason.code ∧
      GoesOn buffer exit (arch.guest s') (arch.exitPc s') reason c ∧
      Relation.TransGen (Next arch build) (.inside exit buffer block s) c := by
  induction executes with
  | returns ran =>
    obtain ⟨reason, -, code, -⟩ := sound.returned ran
    rcases reason.kinds with kind | kind | ⟨reported, kind⟩
    · exact ⟨reason, _, code, .again kind, .single (.again reason kind ran code)⟩
    · exact ⟨reason, _, code, .fallsBack kind, .single (.fallsBack reason kind ran code)⟩
    · exact ⟨reason, _, code, .leaves kind, .single (.leaves reason kind ran code)⟩
  | chains ran here rest ih =>
    obtain ⟨reason, c, code, goes, runs⟩ := ih (sound.next (.chain ran here))
    exact ⟨reason, c, code, goes, .head (.chain ran here) runs⟩

end Executes

/-! ### A program that makes a system call -/

namespace SystemCall

/-- `ecall` alone. -/
def memory : Memory := Memory.ofImage 16 Overwrite.size_lt [0x73, 0x00, 0x00, 0x00] MemoryFlags.execute

def build : Build := Overwrite.build

def vm : VmState := ⟨memory, ⟨fun _ => 0⟩, {}⟩

variable {arch : Arch}

def buffer : Buffer arch := CodeBuffer.create {} (2 ^ 20) Overwrite.capacity_le 16

theorem starts : Starts build vm (buffer : Buffer arch) where
  genuine := genuine_create _ _ _ _ _
  zero := rfl
  layout := by
    have extent : (guestOf vm).extent = 2 * memory.permissionsOffset := rfl
    have blocks : (buffer : Buffer arch).maxBlocks = 4 := rfl
    rw [extent, blocks]
    constructor <;> decide

theorem inside : (0 : Word).toNat / 4 < (buffer : Buffer arch).maxBlocks.toNat := by
  have blocks : (buffer : Buffer arch).maxBlocks = 4 := rfl
  rw [blocks]
  decide

theorem outcome (be : BackEnd) (st : Setting) :
    blockEffect be st memory (blockFuel memory) 0 (guestOf vm) = .depart (.exit .ecall 0) (guestOf vm) := by
  have fuel : blockFuel memory = 6 := by decide
  have first : codeAt memory 0 = some (.ofWord 0x00000073) := by decide
  rw [fuel]
  simp only [blockEffect, first]
  rfl

/-- The executor compiles the block and enters it, whatever the caller's registers hold, and the
code comes back with the system call. -/
theorem enters {be : BackEnd} (refines : arch.Refines be) {code : arch.Code}
    (generated : arch.generateBlockCode {} 4 memory false 0 = .ok code) (short : arch.codeSize code = 1) :
    ∃ (c : Config arch) (buffer' : Buffer arch) (block : CompiledBlock arch.Code) (address : Word),
      Runs arch build (.lookup vm buffer) c ∧ LiesAt build buffer' block address ∧
        ∀ leftover, Next arch build c
            (.inside {} buffer' block (arch.enter (build.env buffer') (guestOf vm) leftover)) ∧
          ∃ m, Executes build buffer' block
              (arch.enter (build.env buffer') (guestOf vm) leftover) m := by
  let block : CompiledBlock arch.Code := ⟨code, 0, memory⟩
  have absent : (buffer : Buffer arch).get 0 = .ok none :=
    CodeBuffer.get_of_admits ⟨rfl, inside⟩
  have fits : CodeBuffer.alignedOffset 16 + 1 ≤ 2 ^ 20 := by decide
  obtain ⟨buffer', inserted, here⟩ := (buffer : Buffer arch).exists_insert (arch.codeSize code) (.block block)
    ⟨rfl, inside⟩ rfl (by rw [short]; exact fits)
  have miss : Next arch build (.lookup vm buffer) (.compile vm buffer) := .miss absent
  refine ⟨.compile vm buffer, buffer', block, _, .single miss, ⟨_, rfl, here⟩, fun leftover => ?_⟩
  have next : Next arch build (.compile vm buffer)
      (.inside {} buffer' block (arch.enter (build.env buffer') (guestOf vm) leftover)) :=
    .compiled leftover generated inserted here
  have performs := (((starts.sound refines).next miss).next next).performs
  obtain ⟨-, limit, -⟩ := starts.genuine.insert generated rfl inserted
  have guest := (refines.enter leftover ((starts.sound refines).right.transfer limit)).2
  rw [guest, show blockEffect be (build.setting buffer') block.memory (blockFuel block.memory) block.pc
    (guestOf vm) = _ from outcome be _] at performs
  obtain ⟨m, ran, -⟩ := performs
  exact ⟨next, m, .returns ran⟩

end SystemCall

/-! ### A program that counts to five -/

namespace Counting

export Interpreter.Counting (memory vm counted steps stops)

def host : Host := .aarch64 Aarch64.Platform.plain (fun _ => 1) fun _ => by decide

def build (singleStep : Bool) : Build := { Overwrite.build with singleStep }

def buffer : Buffer host.arch := CodeBuffer.create {} (2 ^ 20) Overwrite.capacity_le 8

theorem generates (flags : CodeBufferFlags) (limit : Word) (m : Memory) (singleStep : Bool) (pc : Word) :
    ∃ code, host.arch.generateBlockCode flags limit m singleStep pc = .ok code :=
  Aarch64.arch_generates _ _ _ flags limit m singleStep pc

theorem starts (singleStep : Bool) : Starts (build singleStep) vm buffer where
  genuine := genuine_create _ _ _ _ _
  zero := rfl
  layout := by
    have extent : (guestOf vm).extent = 2 * memory.permissionsOffset := rfl
    rw [extent]
    constructor <;> exact of_decide_eq_true rfl

/-- The guest behind the addition. -/
def added : Guest := (guestOf vm).setRegister 1 5

theorem toVm_added : added.toVm 4 {} = counted := rfl

theorem outcome (st : Setting) : blockEffect host.backEnd st memory (blockFuel memory) 0 (guestOf vm)
    = .depart (.exit (if st.singleStep then .singleStep else .ecall) 4) added := by
  have fuel : blockFuel memory = 6 := by decide
  have first : codeAt memory 0 = some (.ofWord 0x00500093) := by decide
  have second : codeAt memory (0 + 4) = some (.ofWord 0x00000073) := by decide
  have adds : effect host.backEnd st 0 (.ofWord 0x00500093) (guestOf vm) = .next added := rfl
  have calls : effect host.backEnd st (0 + 4) (.ofWord 0x00000073) added = .depart (.exit .ecall 4) added := rfl
  rw [fuel]
  simp only [blockEffect, first, adds, second, calls]
  cases st.singleStep <;> rfl

/-- The executor compiles the block, enters it, and comes back behind the addition: with the system call, or
because it steps. -/
theorem enters (singleStep : Bool) : ∃ (offset : BitVec 32) (buffer' : Buffer host.arch)
    (block : CompiledBlock host.arch.Code) (s s' : host.arch.State),
    Next host.arch (build singleStep) (.lookup vm buffer) (.compile vm buffer) ∧
      Next host.arch (build singleStep) (.compile vm buffer) (.inside {} buffer' block s) ∧
      buffer.insert 0 1 (.block block) = .ok (offset, buffer') ∧ block.memory = memory ∧
      host.arch.run ((build singleStep).env buffer') block.code s = some (none, s') ∧
      host.arch.exitReason s' = (if singleStep then ArchExitReason.singleStep else .ecall).code ∧
      host.arch.exitPc s' = 4 ∧ host.arch.guest s' = added := by
  obtain ⟨code, generated⟩ := generates {} 2 memory singleStep 0
  have start := (starts singleStep).sound host.refines
  obtain ⟨offset, buffer', s, miss, compiled, inserted, -, before, -⟩ :=
    start.enters (fun _ => (0 : Word)) (by decide) rfl generated (show CodeBuffer.alignedOffset 16 + 1 ≤ 2 ^ 20 by decide)
  obtain ⟨s', ran, reason, at_pc, behind⟩ := ((start.next miss).next compiled).exits (by
    rw [before]
    exact outcome ((build singleStep).setting buffer'))
  exact ⟨offset, buffer', _, s, s', miss, compiled, inserted, rfl, ran, reason, at_pc, behind⟩

end Counting

end Riscv64Emulator.Jit
