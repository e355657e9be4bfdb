import Riscv64Emulator.Jit.Isolation

/-!
# Code that cannot be written

A memory in which no byte may be written and executed keeps its code: neither engine changes what
can be fetched, and every block in the buffer stays a translation of it.
-/
namespace Riscv64Emulator

open Interpreter

/-- No byte may be both written and executed. -/
def Memory.WriteXorExecute (m : Memory) : Prop :=
  ∀ j, ¬(m.permissions j &&& MemoryFlags.write = MemoryFlags.write ∧
    m.permissions j &&& MemoryFlags.execute = MemoryFlags.execute)

namespace Jit

section Fetch

variable {m m' : Memory}

/-- Writes to writable bytes change nothing that can be fetched. -/
theorem codeAt_undisturbed (fixed : m.WriteXorExecute) (moderate : m.size.toNat ≤ 2 ^ 63)
    (undisturbed : Memory.Undisturbed True m m') : codeAt m' = codeAt m := by
  funext pc
  have verified : m'.verifyPermissions pc (BitVec.ofNat 64 4) MemoryFlags.execute
      = m.verifyPermissions pc (BitVec.ofNat 64 4) MemoryFlags.execute := by
    unfold Memory.verifyPermissions Memory.outOfRange
    simp only [undisturbed.size, undisturbed.permissions]
  unfold codeAt
  rw [Memory.readT_eq _ _ _ _ (by decide), Memory.readT_eq _ _ _ _ (by decide), verified]
  split
  · next granted =>
    have bytes : bytesAt m'.allocation pc.toNat 4 = bytesAt m.allocation pc.toNat 4 := by
      refine List.map_congr_left fun k low => ?_
      obtain ⟨-, execute⟩ := (grants_of_verifyPermissions moderate (by decide) granted).2 k (List.mem_range.mp low)
      -- a byte that changed could be written, and this one is executed
      by_contra changed
      exact fixed _ ⟨undisturbed.written trivial _ changed, execute⟩
    rw [bytes]
  · rfl

end Fetch

/-! ### Runs of the interpreter -/

/-- The interpreter executes the code it was started on. -/
theorem codeAt_run {vm v : VmState} (fixed : vm.memory.WriteXorExecute)
    (moderate : vm.memory.size.toNat ≤ 2 ^ 63) (run : Run vm v) : codeAt v.memory = codeAt vm.memory :=
  codeAt_undisturbed fixed moderate (run_undisturbed moderate run)

/-! ### Runs of the executor -/

section Executor

variable {arch : Arch}

/-- The guest, the blocks in the buffer and the one that runs all have the same code. -/
structure Executing (code : Word → Option Instruction) (c : Config arch) : Prop where
  guest : codeAt c.guest.memory = code
  blocks : GenuineBuffer.CompiledFrom (fun m => codeAt m = code) c.buffer
  inside : ∀ exit buffer block s, c = .inside exit buffer block s → codeAt block.memory = code

variable {be : BackEnd} {refines : arch.Refines be} {build : Build} {size : Word} {c c' : Config arch}
  {code : Word → Option Instruction}

theorem Executing.next (sound : Sound refines build size c) (next : Next arch build c c')
    (kept : codeAt c'.guest.memory = codeAt c.guest.memory) (executing : Executing code c) :
    Executing code c' := by
  have guest := kept.trans executing.guest
  cases next with
  | miss | again | fallsBack | leaves | resumed | refused =>
    exact ⟨guest, executing.blocks, fun _ _ _ _ same => by cases same⟩
  | hit leftover found here =>
    refine ⟨guest, executing.blocks, fun _ _ _ _ same => ?_⟩
    cases same
    -- a block of the table
    obtain ⟨rfl, published⟩ := CodeBuffer.get_eq_some found
    exact executing.blocks _ (CodeBuffer.admits_of_get found).2 published _ here
  | compiled leftover generated inserted here =>
    -- the new block is compiled from the guest's memory, in which the code has not changed
    obtain ⟨blocks, new⟩ := sound.1.insert_compiledFrom executing.blocks executing.guest inserted
    refine ⟨guest, blocks, fun _ _ _ _ same => ?_⟩
    cases same
    exact new _ here
  | chain ran here =>
    refine ⟨guest, executing.blocks, fun _ _ _ _ same => ?_⟩
    cases same
    obtain ⟨index, inside, rfl, published⟩ := blockEffect_enter _ (sound.jumped ran).1
    exact executing.blocks index inside published _ here

end Executor

section Hosts

variable {host : Host} {build : Build} {vm : VmState} {buffer : Buffer host.arch} {c : Config host.arch}

/-- Generated code, too, is a translation of the code it was started on, as long as it checks what
it writes. -/
theorem executing_runs (starts : Starts build vm buffer) (fixed : vm.memory.WriteXorExecute)
    (checks : buffer.flags.skipPermissionChecks = false)
    (blocks : GenuineBuffer.CompiledFrom (fun m => codeAt m = codeAt vm.memory) buffer)
    (run : Runs host.arch build (.lookup vm buffer) c) : Executing (codeAt vm.memory) c := by
  have same : ∀ {c}, Runs host.arch build (.lookup vm buffer) c → codeAt c.guest.memory = codeAt vm.memory :=
    fun run => codeAt_undisturbed fixed starts.moderate ((starts.undisturbed run).2.mono fun _ => checks)
  induction run with
  | refl => exact ⟨rfl, blocks, fun _ _ _ _ same => by cases same⟩
  | tail before next ih =>
    exact ih.next ((starts.sound host.refines).run before) next
      ((same (before.tail next)).trans (same before).symm)

end Hosts

end Jit

end Riscv64Emulator
