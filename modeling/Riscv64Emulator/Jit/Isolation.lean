import Riscv64Emulator.Jit.Execution
import Riscv64Emulator.Jit.Sandbox
import Riscv64Emulator.Vm.Writes

/-!
# Isolation over runs of the executor

What one block may touch is settled by its code. Over a run the blocks of either back end, the jumps
between them and the steps of the interpreter add up: whatever the program does to itself, the
permissions stay, and only bytes it may write change.
-/
namespace Riscv64Emulator

open Interpreter

namespace Jit

open LinearCode

/-! ### What generated code does to the memory -/

/-- A guest an instruction or a block ends with. -/
def Outcome.Leaves (o : Outcome) (g : Guest) : Prop := o = .next g ∨ ∃ d, o = .depart d g

section Effects

variable {be : BackEnd} {st : Setting} {pc : Word} {i : Instruction} {g g' : Guest}

/-- Only a store replaces the memory. -/
theorem effect_memory (leaves : (effect be st pc i g).Leaves g') : g'.memory = g.memory ∨
    isStore i.type = true ∧
      st.accessAllowed g.memory (accessLog2 i.type) MemoryFlags.write (g.registers.get i.rs1 + i.imm) = true ∧
      g' = g.storeBytes (g.registers.get i.rs1 + i.imm) (accessLog2 i.type) (g.registers.get i.rs2) := by
  -- an outcome of either form names the guest it ends with
  have departs : ∀ {o : Outcome} {g₁ : Guest}, o.Leaves g' → (∃ d, o = .depart d g₁) →
      g₁.memory = g.memory → g'.memory = g.memory := by
    rintro o g₁ (next | ⟨d', here⟩) ⟨d, rfl⟩ same
    · cases next
    · cases here
      exact same
  have stays : ∀ {g₁ : Guest}, (Outcome.next g₁).Leaves g' → g₁.memory = g.memory → g'.memory = g.memory := by
    rintro g₁ (next | ⟨d', here⟩) same
    · cases next
      exact same
    · cases here
  rcases instruction_family i.type with
    load | store | branch | ⟨reason, exits⟩ | jal | jalr | fence | computes
  · -- a load writes a register, whether it is done or refused
    left
    rw [effect_load _ _ _ _ load] at leaves
    split at leaves
    · exact stays leaves rfl
    · split at leaves
      · exact stays leaves rfl
      · exact departs leaves ⟨_, rfl⟩ rfl
  · -- a store that is admitted replaces the bytes; one that is refused leaves the block
    rw [effect_store _ _ _ _ store] at leaves
    split at leaves
    · next allowed =>
      rcases leaves with next | ⟨d, here⟩
      · cases next
        exact .inr ⟨store, allowed, rfl⟩
      · cases here
    · exact .inl (departs leaves ⟨_, rfl⟩ rfl)
  · -- a branch is taken or not
    left
    rw [effect_branch _ _ _ _ branch] at leaves
    split at leaves
    · exact departs leaves (st.staticBranch_departs _ _ g) rfl
    · exact stays leaves rfl
  · -- an instruction that leaves the VM
    rw [effect_exit _ _ _ _ exits] at leaves
    exact .inl (departs leaves ⟨_, rfl⟩ rfl)
  · -- a direct jump
    left
    simp only [effect, jal] at leaves
    exact departs leaves (st.staticBranch_departs _ _ _) rfl
  · -- an indirect jump
    left
    simp only [effect, jalr] at leaves
    exact departs leaves (st.dynamicBranch_departs _ _) rfl
  · -- a fence
    left
    simp only [effect, fence] at leaves
    exact stays leaves rfl
  · -- a computation: left to the interpreter, into `x0`, or its value written
    left
    rw [effect_computation _ _ _ _ computes] at leaves
    split at leaves
    · exact departs leaves ⟨_, rfl⟩ rfl
    · split at leaves
      · exact stays leaves rfl
      · cases value : be.value i pc g.registers with
        | some v =>
          rw [value] at leaves
          exact stays leaves rfl
        | none =>
          rw [value] at leaves
          rcases leaves with next | ⟨d, here⟩
          · cases next
          · cases here

theorem effect_undisturbed (leaves : (effect be st pc i g).Leaves g') :
    Memory.Undisturbed (st.flags.skipPermissionChecks = false) g.memory g'.memory := by
  rcases effect_memory leaves with same | ⟨store, allowed, rfl⟩
  · exact .of_eq same
  · obtain ⟨-, small⟩ := memoryAccessSizeLog2_eq (.inr store)
    refine .overwrite ?_ fun checks k within => ?_
    · rw [length_leBytes]
      exact Setting.accessAllowed_inside small allowed
    · rw [length_leBytes] at within
      obtain ⟨-, -, granted⟩ := Setting.accessAllowed_iff.mp allowed
      exact granted.resolve_left (by rw [checks]; exact Bool.false_ne_true) k within

theorem blockEffect_undisturbed {m : Memory} {fuel : Nat} (leaves : (blockEffect be st m fuel pc g).Leaves g') :
    Memory.Undisturbed (st.flags.skipPermissionChecks = false) g.memory g'.memory := by
  induction fuel generalizing pc g with
  | zero => rcases leaves with next | ⟨d, here⟩ <;> contradiction
  | succ fuel ih =>
    unfold blockEffect at leaves
    split at leaves
    · rcases leaves with next | ⟨d, here⟩
      · cases next
      · cases here
        exact .refl _ _
    · split at leaves
      -- the instruction passes, and what follows starts from its memory
      · next g₁ passes =>
        have first := effect_undisturbed (.inl passes)
        split at leaves
        · rcases leaves with next | ⟨d, here⟩
          · cases next
          · cases here
            exact first
        · exact first.trans (ih leaves)
      · exact effect_undisturbed leaves

end Effects

/-! ### Runs -/

section Runs

variable {arch : Arch}

/-- The registers and the memory of the guest, wherever the run loop is. -/
def Config.guest : Config arch → Guest
  | .lookup vm _ | .compile vm _ | .fallBack vm _ | .stopped vm _ => guestOf vm
  | .inside _ _ _ s => arch.guest s

variable {be : BackEnd} {refines : arch.Refines be} {build : Build} {size : Word}

/-- One step of the run loop. -/
theorem Next.undisturbed {c c' : Config arch} (sound : Sound refines build size c)
    (moderate : c.guest.memory.size.toNat ≤ 2 ^ 63) (next : Next arch build c c') :
    c'.buffer.flags = c.buffer.flags ∧
      Memory.Undisturbed (c.buffer.flags.skipPermissionChecks = false) c.guest.memory c'.guest.memory := by
  cases next with
  | hit leftover found here =>
    exact ⟨rfl, .of_eq (congrArg Guest.memory (refines.enter leftover sound.2).2)⟩
  | miss => exact ⟨rfl, .refl _ _⟩
  | compiled leftover generated inserted here =>
    obtain ⟨-, maxBlocks, flags, -⟩ := sound.1.insert generated sound.2.size inserted
    exact ⟨flags, .of_eq (congrArg Guest.memory (refines.enter leftover (sound.2.transfer maxBlocks)).2)⟩
  | chain ran here => exact ⟨rfl, blockEffect_undisturbed (.inr ⟨_, (sound.jumped ran).1⟩)⟩
  -- the executor takes the guest over as the code has left it
  | again _ _ ran | fallsBack _ _ ran | leaves _ _ ran =>
    obtain ⟨reason, outcome, -⟩ := sound.returned ran
    exact ⟨rfl, blockEffect_undisturbed (.inr ⟨_, outcome⟩)⟩
  | resumed stepped | refused stepped => exact ⟨rfl, step_undisturbed moderate stepped⟩

/-- The zero register, also of the guest a run ends with. -/
theorem Next.zero {c c' : Config arch} (sound : Sound refines build size c) (next : Next arch build c c') :
    c'.guest.registers.get Register.zero = 0 := by
  cases next with
  | hit leftover found here => exact (refines.serves (refines.enter leftover sound.2).1).zero
  | miss => exact sound.2.zero
  | compiled leftover generated inserted here =>
    obtain ⟨-, maxBlocks, -⟩ := sound.1.insert generated sound.2.size inserted
    exact (refines.serves (refines.enter leftover (sound.2.transfer maxBlocks)).1).zero
  | chain ran here => exact (refines.serves (sound.jumped ran).2).zero
  | again _ _ ran | fallsBack _ _ ran | leaves _ _ ran =>
    obtain ⟨-, -, -, serves⟩ := sound.returned ran
    exact (serves.toVm _ {}).zero
  | resumed stepped | refused stepped => exact (step_keeps stepped).1.trans sound.2.zero

/-- What a return of `Vm::run` reports: never nothing, and a refused access so that its instruction
can be tried again. -/
theorem Next.reports {c : Config arch} {vm : VmState} {buffer : Buffer arch}
    (next : Next arch build c (.stopped vm buffer)) :
    vm.exit.reason ≠ .none ∧ (vm.exit.reason.isFault = true → step vm = .ok (false, vm)) := by
  cases next with
  | leaves reason kind ran code =>
    cases reason <;> cases kind <;> 
      exact ⟨fun same => (by cases same), fun fault => (by cases fault)⟩
  | refused stepped => exact ⟨step_refused_reason stepped, fun _ => step_refused_again stepped⟩

end Runs

/-- Every instruction of `code` that is executed is confined. -/
def Host.StaysConfined (host : Host) (env : Env) (code : host.arch.Code) (s : host.arch.State) : Prop :=
  match host with
  | .x64 .. => X64.StaysConfined env code s
  | .aarch64 .. => Aarch64.StaysConfined env code s

/-- What holds wherever a run of `Vm::run` from `vm` gets to. -/
structure Isolated (host : Host) (build : Build) (vm : VmState) (checked : Prop) (c : Config host.arch) :
    Prop where
  zero : c.guest.registers.get Register.zero = 0
  memory : Memory.Undisturbed checked vm.memory c.guest.memory
  confined : ∀ exit buffer block s, c = .inside exit buffer block s →
    host.StaysConfined (build.env buffer) block.code s
  reported : ∀ v buffer, c = .stopped v buffer →
    v.exit.reason ≠ .none ∧ (v.exit.reason.isFault = true → step v = .ok (false, v))

variable {host : Host} {build : Build} {vm : VmState} {buffer : Buffer host.arch} {c c' : Config host.arch}

/-- The code of a block that a sound run enters. -/
theorem Sound.confined {size : Word} {exit : Exit} {block : CompiledBlock host.arch.Code} {s : host.arch.State}
    (sound : Sound host.refines build size (.inside exit buffer block s)) :
    host.StaysConfined (build.env buffer) block.code s := by
  obtain ⟨-, anchored, genuine⟩ := sound
  have sized := genuine.size
  cases host with
  | x64 codeSize codeSize_pos =>
    exact X64.generateCode_confined _ genuine.generated (sized.symm ▸ anchored)
  | aarch64 platform codeSize codeSize_pos =>
    exact Aarch64.generateCode_confined _ genuine.generated (sized.symm ▸ anchored)

/-- What a run keeps of the buffer's flags and of the memory. -/
theorem Starts.undisturbed (starts : Starts build vm buffer) (run : Runs host.arch build (.lookup vm buffer) c) :
    c.buffer.flags = buffer.flags ∧
      Memory.Undisturbed (buffer.flags.skipPermissionChecks = false) vm.memory c.guest.memory := by
  induction run with
  | refl => exact ⟨rfl, .refl _ _⟩
  | @tail c c' before next ih =>
    obtain ⟨flags, disturbed⟩ := ih
    have moderate : c.guest.memory.size.toNat ≤ 2 ^ 63 := by
      rw [disturbed.size]
      exact starts.moderate
    obtain ⟨flags', disturbed'⟩ := next.undisturbed ((starts.sound host.refines).run before) moderate
    rw [flags] at disturbed'
    exact ⟨flags'.trans flags, disturbed.trans disturbed'⟩

/-- Along every run of `Vm::run`, on either back end and whatever the program does to itself: `x0`
stays zero, the permissions stay, with checks on only writable bytes change, the host code touches
what it may, and what is reported is a reason, for a refused access one that can be reproduced. -/
theorem runs_isolated (host : Host) (build : Build) {vm : VmState} {buffer : Buffer host.arch}
    {c : Config host.arch} (starts : Starts build vm buffer) (run : Runs host.arch build (.lookup vm buffer) c) :
    Isolated host build vm (buffer.flags.skipPermissionChecks = false) c where
  zero := by
    rcases run.cases_tail with rfl | ⟨c', before, next⟩
    · exact starts.zero
    · exact next.zero ((starts.sound host.refines).run before)
  memory := (starts.undisturbed run).2
  confined := by
    rintro exit buffer' block s rfl
    exact ((starts.sound host.refines).run run).confined
  reported := by
    rintro v buffer' rfl
    rcases run.cases_tail with same | ⟨c', before, next⟩
    · cases same
    · exact next.reports

/-- The program that counts to five, run to its end. -/
theorem runs_isolated_addi : ∃ (v : VmState) (buffer : Buffer Counting.host.arch),
    v.cpu.get 1 = 5 ∧ v.exit.reason = .ecall ∧
      Isolated Counting.host (Counting.build false) Counting.vm
        (Counting.buffer.flags.skipPermissionChecks = false) (.stopped v buffer) := by
  obtain ⟨-, buffer, block, s, s', miss, compiled, -, -, ran, reason, at_pc, guest⟩ := Counting.enters false
  have run : Runs Counting.host.arch (Counting.build false) (.lookup Counting.vm Counting.buffer) _ :=
    ((Relation.ReflTransGen.single miss).tail compiled).tail (.leaves .ecall rfl ran reason)
  refine ⟨_, _, ?_, rfl, runs_isolated Counting.host (Counting.build false) (Counting.starts false) run⟩
  rw [guest, at_pc]
  rfl

end Jit

end Riscv64Emulator
