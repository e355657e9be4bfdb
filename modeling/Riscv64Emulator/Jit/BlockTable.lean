import Riscv64Emulator.Jit.FallBack

/-!
# Accesses to the block table

`CodeBuffer::get` does not check its index and `CodeBuffer::insert` aborts for a misaligned
address, so every pc the executor starts over with has to be an address of the table.
Generated code and the interpreter keep to that, but for indirect jumps to odd addresses,
and for steps over the end of the table that do not go through a checked branch.
-/
namespace Riscv64Emulator.Jit

/-- `p` holds of every instruction of a block that is executed, with the guest before it. -/
def EveryExecuted (be : BackEnd) (st : Setting) (m : Memory)
    (p : Word → Instruction → Guest → Prop) : Nat → Word → Guest → Prop
  | 0, _, _ => True
  | n + 1, pc, g =>
    match codeAt m pc with
    | none => True
    | some i => p pc i g ∧
      match effect be st pc i g with
      | .next g' => st.singleStep = false → EveryExecuted be st m p n (pc + 4) g'
      | _ => True

/-- An indirect jump to an odd address in the table finds code there. In a build that steps
through blocks, an instruction in front of the end of the table is not run through. -/
structure StaysInTable (be : BackEnd) (st : Setting) (pc : Word) (i : Instruction) (g : Guest) :
    Prop where
  jumps : i.type = .jalr →
    let target := g.registers.get i.rs1 + i.imm
    target &&& 1 = 0 ∨ target &&& 2 ≠ 0 ∨ st.maxBlockCount.toNat ≤ target.toNat / 4 ∨
      (st.singleStep = false ∧ st.blockToOffset (target.toNat / 4) ≠ 0)
  steps : st.singleStep = true → (∃ g', effect be st pc i g = .next g') →
    (pc + 4).toNat / 4 < st.maxBlockCount.toNat

/-- The instruction goes on somewhere else than behind itself. -/
def Redirects (vm : VmState) (i : Instruction) : Prop :=
  i.type = .jal ∨ i.type = .jalr ∨
    Interpreter.branchTaken i.type (vm.cpu.get i.rs1) (vm.cpu.get i.rs2) = .ok true

/-- An instruction the interpreter executes is not the last one of the table, unless it is a jump or a
branch that is taken: that has its target in the table. -/
structure ResumesInTable (limit : Word) (vm : VmState) (i : Instruction) : Prop where
  behind : ¬Redirects vm i → (vm.cpu.pc + 4).toNat / 4 < limit.toNat
  target : Redirects vm i →
    Interpreter.successor vm i &&& 3 = 0 ∧ (Interpreter.successor vm i).toNat / 4 < limit.toNat

/-- The condition on the steps of a run: on the instructions of the block that is entered, and
on the instruction the interpreter executes. -/
def Careful {arch : Arch} (be : BackEnd) (build : Build) : Config arch → Prop
  | .inside _ buffer block s =>
    EveryExecuted be (build.setting buffer) block.memory (StaysInTable be (build.setting buffer))
      (blockFuel block.memory) block.pc (arch.guest s)
  | .fallBack vm buffer => ∀ i, Interpreter.fetched vm = some i →
    (∃ vm', Interpreter.step vm = .ok (true, vm')) → ResumesInTable buffer.maxBlocks vm i
  | _ => True

/-- The address `get` or `insert` is called with is one of the table. -/
def AdmittedAccess {arch : Arch} : Config arch → Prop
  | .lookup vm buffer | .compile vm buffer => buffer.Admits vm.cpu.pc
  | _ => True

/-- The runs whose steps all meet the condition. -/
def CarefulRuns (arch : Arch) (be : BackEnd) (build : Build) : Config arch → Config arch → Prop :=
  Relation.ReflTransGen fun c c' => Careful be build c ∧ Next arch build c c'

theorem successor_of_not_redirects {vm : VmState} {i : Instruction} (straight : ¬Redirects vm i) :
    Interpreter.successor vm i = vm.cpu.pc + 4 := by
  unfold Redirects at straight
  push Not at straight
  obtain ⟨jal, jalr, taken⟩ := straight
  unfold Interpreter.successor
  -- a branch that is not taken goes on behind itself, like everything else
  split
  next kind => exact absurd kind jal
  next kind => exact absurd kind jalr
  all_goals first
    | rfl
    | (split
       next chosen => exact absurd chosen taken
       next => rfl)

theorem ResumesInTable.admits {arch : Arch} {buffer : Buffer arch} {vm : VmState} {i : Instruction}
    (resumes : ResumesInTable buffer.maxBlocks vm i) (fetch : Interpreter.fetched vm = some i) :
    buffer.Admits (Interpreter.successor vm i) := by
  by_cases redirects : Redirects vm i
  · exact resumes.target redirects
  · have behind := resumes.behind redirects
    rw [← successor_of_not_redirects redirects] at behind
    refine ⟨?_, behind⟩
    -- the word behind an aligned one
    have aligned := (Interpreter.aligned_of_fetched fetch).1
    rw [successor_of_not_redirects redirects]
    exact aligned_add ((and_mask_eq_zero vm.cpu.pc (k := 2) (by decide)).mpr aligned) 1

theorem aligned_of_bits {a : Word} (first : a &&& 1 = 0) (second : a &&& 2 = 0) : a &&& 3 = 0 := by
  have both : a &&& 3 = (a &&& 1) ||| (a &&& 2) := by
    rw [← BitVec.and_or_distrib_left]
    rfl
  rw [both, first, second]
  rfl

/-- A block goes back to the executor's loop with an address of the table. -/
theorem blockEffect_again {be : BackEnd} {st : Setting} {m : Memory} (fuel : Nat) {pc pc' : Word}
    {g g' : Guest} {reason : ArchExitReason} (aligned : pc &&& 3 = 0)
    (stays : EveryExecuted be st m (StaysInTable be st) fuel pc g)
    (departs : blockEffect be st m fuel pc g = .depart (.exit reason pc') g')
    (again : reason.again = true) :
    pc' &&& 3 = 0 ∧ pc'.toNat / 4 < st.maxBlockCount.toNat := by
  induction fuel generalizing pc g with
  | zero => cases departs
  | succ fuel ih =>
    unfold blockEffect at departs
    unfold EveryExecuted at stays
    cases fetched : codeAt m pc with
    | none =>
      simp only [fetched] at departs
      cases departs
      cases again
    | some i =>
      simp only [fetched] at departs stays
      obtain ⟨here, behind⟩ := stays
      have next : (pc + 4) &&& 3 = 0 := aligned_add aligned 1
      cases outcome : effect be st pc i g with
      | fault =>
        simp only [outcome] at departs
        cases departs
      | next guest =>
        simp only [outcome] at departs behind
        -- single stepping departs behind the instruction, otherwise the block goes on
        split at departs
        · next stepping =>
          cases departs
          exact ⟨next, here.steps stepping ⟨_, outcome⟩⟩
        · next running => exact ih next (behind (by simpa using running)) departs
      | depart d guest =>
        simp only [outcome] at departs
        cases departs
        obtain ⟨target, branch, inside, low⟩ := effect_goesOn outcome again
        -- only an indirect jump can have an odd half: bit 1 of its target is not cleared
        rcases low with low | ⟨kind, rfl, second⟩
        · rcases branchTo_cases branch with ⟨-, same⟩ | ⟨-, -, same⟩ | ⟨-, -, same⟩ <;> cases same <;>
            exact ⟨low, inside⟩
        · rcases here.jumps kind with even | odd | outside | ⟨running, published⟩
          · rcases branchTo_cases branch with ⟨-, same⟩ | ⟨-, -, same⟩ | ⟨-, -, same⟩ <;>
              cases same <;> exact ⟨aligned_of_bits even second, inside⟩
          · exact absurd second odd
          · omega
          · rcases branchTo_cases branch with ⟨stepping, -⟩ | ⟨-, absent, -⟩ | ⟨-, -, same⟩
            · cases running.symm.trans stepping
            · exact absurd absent published
            · cases same

section Runs

variable {host : Host} {build : Build} {size : Word}

/-- One careful step keeps the accesses in the table. -/
theorem AdmittedAccess.next {c c' : Config host.arch} (sound : Sound host.refines build size c)
    (admitted : AdmittedAccess c) (careful : Careful host.backEnd build c)
    (next : Next host.arch build c c') : AdmittedAccess c' := by
  cases next with
  | hit | compiled | chain | fallsBack | leaves | refused => trivial
  | miss => exact admitted
  -- the exit reports the address the executor looks up next
  | again reason kind ran code =>
    obtain ⟨reason', outcome, code', -⟩ := sound.returned ran
    cases ArchExitReason.code_injective (code.symm.trans code')
    have table := blockEffect_again _ sound.2.2.admitted.1 careful outcome kind
    show CodeBuffer.Admits _ _
    rw [Guest.pc_toVm]
    exact table
  -- after an interpreted instruction the successor is looked up
  | @resumed vm buffer vm' stepped =>
    have after := Interpreter.step_cases vm
    rw [stepped] at after
    cases after with
    | executed fetch _ =>
      show buffer.Admits vm'.cpu.pc
      rw [Interpreter.step_successor fetch stepped]
      exact (careful _ fetch ⟨_, stepped⟩).admits fetch

end Runs

/-- In a careful run from an address of the table, the executor calls `get` and `insert` with
addresses of the table only. -/
theorem tableAccess_admitted (host : Host) (build : Build) {vm : VmState} {buffer : Buffer host.arch}
    {c : Config host.arch} (starts : Starts build vm buffer) (admitted : buffer.Admits vm.cpu.pc)
    (run : CarefulRuns host.arch host.backEnd build (.lookup vm buffer) c) : AdmittedAccess c := by
  have invariant : Sound host.refines build vm.memory.size c ∧ AdmittedAccess c := by
    induction run with
    | refl => exact ⟨starts.sound host.refines, admitted⟩
    | tail _ step ih =>
      obtain ⟨careful, next⟩ := step
      exact ⟨ih.1.next next, ih.2.next ih.1 careful next⟩
  exact invariant.2

/-- The program that loads a misaligned half word: the run loop comes back behind the load. -/
theorem tableAccess_admitted_resumed : ∃ (vm : VmState) (buffer : Buffer Overwrite.host.arch),
    vm.cpu.pc = 8 ∧ AdmittedAccess (.lookup vm buffer) := by
  obtain ⟨buffer, block, s, s', miss, compiled, from_memory, at_start, before, flags, limit, ran,
    reason, at_pc, guest⟩ := Overwrite.enters 0x00101103
  let vm := (Overwrite.host.arch.guest s').toVm (Overwrite.host.arch.exitPc s') {}
  have same : vm = (Overwrite.stored 0x00101103).toVm 4 {} := by
    show Guest.toVm _ _ _ = _
    rw [guest, at_pc]
  obtain ⟨vm', stepped, behind⟩ : ∃ vm',
      Interpreter.step ((Overwrite.stored 0x00101103).toVm 4 {}) = .ok (true, vm') ∧ vm'.cpu.pc = 8 :=
    ⟨_, rfl, rfl⟩
  -- neither instruction of the block is an indirect jump, and nothing single steps
  have careful : Careful Overwrite.host.backEnd Overwrite.build (.inside {} buffer block s) := by
    show EveryExecuted _ _ _ _ _ _ _
    rw [from_memory, at_start, before, Overwrite.blockFuel_memory]
    have stays (pc : Word) (i : Instruction) (g : Guest) (direct : i.type ≠ .jalr) :
        StaysInTable Overwrite.host.backEnd (Overwrite.build.setting buffer) pc i g :=
      ⟨fun kind => absurd kind direct, fun stepping => by cases stepping⟩
    have store := Overwrite.effect_sw 0x00101103 (Overwrite.build.setting buffer) flags
    simp only [EveryExecuted, Overwrite.codeAt_store, store, Overwrite.codeAt_load, Overwrite.effect_lh]
    exact ⟨stays _ _ _ (by decide), fun _ => ⟨stays _ _ _ (by decide), trivial⟩⟩
  have retried : Careful Overwrite.host.backEnd Overwrite.build (.fallBack vm buffer) := by
    intro i fetch executes
    rw [same] at fetch ⊢
    have next := Interpreter.step_successor fetch stepped
    rw [behind] at next
    cases fetch.symm.trans (show Interpreter.fetched ((Overwrite.stored 0x00101103).toVm 4 {})
      = some (.ofWord 0x00101103) from rfl)
    refine ⟨fun straight => ?_, fun redirects => ?_⟩
    · rw [← successor_of_not_redirects straight, ← next, limit]
      decide
    · rw [← next, limit]
      decide
  have run : CarefulRuns Overwrite.host.arch Overwrite.host.backEnd Overwrite.build
      (.lookup (Overwrite.vm 0x00101103) Overwrite.buffer) (.lookup vm' buffer) :=
    ((((Relation.ReflTransGen.single ⟨trivial, miss⟩).tail ⟨trivial, compiled⟩).tail
      ⟨careful, .fallsBack .memoryReadFault rfl ran reason⟩).tail
      ⟨retried, .resumed (same ▸ stepped)⟩)
  exact ⟨vm', buffer, behind, tableAccess_admitted Overwrite.host Overwrite.build
    (Overwrite.starts 0x00101103) (by decide) run⟩

/-! ### An indirect jump to an odd address -/

namespace OddJump

/-- `jalr x0, 5(x0)`. -/
def memory : Memory := Memory.ofImage 16 Overwrite.size_lt [0x67, 0x00, 0x50, 0x00]
  (MemoryFlags.read ||| MemoryFlags.execute)

def vm : VmState := ⟨memory, ⟨fun _ => 0⟩, {}⟩

def host : Host := Overwrite.host

def buffer : Buffer host.arch := CodeBuffer.create {} (2 ^ 20) Overwrite.capacity_le 8

theorem starts : Starts Overwrite.build vm buffer where
  genuine := genuine_create _ _ _ _ _
  zero := rfl
  layout := by constructor <;> decide

theorem outcome (st : Setting) (limit : st.maxBlockCount = 2) (running : st.singleStep = false)
    (absent : st.blockToOffset 1 = 0) :
    blockEffect host.backEnd st memory (blockFuel memory) 0 (guestOf vm)
      = .depart (.exit .blockNotGenerated 5) (guestOf vm) := by
  have first : codeAt memory 0 = some (.ofWord 0x00500067) := by decide
  have fuel : blockFuel memory = 6 := by decide
  have jump : effect host.backEnd st 0 (.ofWord 0x00500067) (guestOf vm)
      = .depart (.exit .blockNotGenerated 5) (guestOf vm) := by
    show st.dynamicBranch 5 (guestOf vm) = _
    unfold Setting.dynamicBranch Setting.branchTo
    rw [limit, running]
    exact if_pos absent
  rw [fuel]
  simp only [blockEffect, first, jump]

end OddJump

/-- The executor calls `get` with the odd address. -/
theorem tableAccess_odd : ¬∀ (host : Host) (build : Build) (flags : CodeBufferFlags) (bytes : Nat)
    (size_le : bytes ≤ 2 ^ 32) (limit : Word) (vm : VmState) (c : Config host.arch),
    let buffer : Buffer host.arch := .create flags bytes size_le limit
    Starts build vm buffer → buffer.Admits vm.cpu.pc →
    (∀ a, vm.memory.permissions a &&& MemoryFlags.execute ≠ 0 → a < limit.toNat) →
    Runs host.arch build (.lookup vm buffer) c → AdmittedAccess c := fun claim => by
  obtain ⟨code, generated⟩ : ∃ code,
      OddJump.host.arch.generateBlockCode {} 2 OddJump.memory false 0 = .ok code := ⟨_, rfl⟩
  have start := OddJump.starts.sound OddJump.host.refines
  obtain ⟨_, buffer', s, miss, compiled, inserted, -, before, -, limit⟩ := start.enters (fun _ => (0 : Word))
    (show OddJump.buffer.Admits 0 by decide) rfl generated (show CodeBuffer.alignedOffset 16 + 1 ≤ 2 ^ 20 by decide)
  have unpublished : buffer'.blockToOffset 1 = 0 := by
    cases inserted
    rfl
  -- the jump goes to address 5, for which no block is published
  obtain ⟨s', ran, reason, at_pc, -⟩ := ((start.next miss).next compiled).exits (by
    rw [before]
    exact OddJump.outcome (Overwrite.build.setting buffer') limit rfl unpublished)
  have run := (Relation.ReflTransGen.single miss).tail compiled
  -- nothing behind the table is executable, so that is not what goes wrong
  have executable : ∀ a, OddJump.memory.permissions a &&& MemoryFlags.execute ≠ 0 → a < 8 := by
    intro a executable
    by_contra behind
    have none := Memory.permissions_ofImage 16 (by decide) [0x67, 0x00, 0x50, 0x00]
      (MemoryFlags.read ||| MemoryFlags.execute) (i := a) (by simp only [List.length_cons, List.length_nil]; omega)
    exact executable (by rw [OddJump.memory, none]; rfl)
  have admitted := claim OddJump.host Overwrite.build {} (2 ^ 20) (by decide) 8 OddJump.vm _
    OddJump.starts (by decide) executable (run.tail (.again .blockNotGenerated rfl ran reason))
  have odd : CodeBuffer.Admits _ _ := admitted
  rw [Guest.pc_toVm, at_pc] at odd
  exact absurd odd.1 (by decide)

end Riscv64Emulator.Jit
