import Riscv64Emulator.Jit.Threads

/-!
# Threads that run any programs

What a `Vm` keeps to depends neither on the programs of the others nor on the calls of the buffer
they are in: code that was compiled for another program is as confined as its own, and nobody enters
it before all of it is there.
-/
namespace Riscv64Emulator.Jit

open Interference (System)

section Thread

variable {Thread : Type} {host : Host} {assembler : Assembler host.arch} {layouts : Thread → Layout}
  {singleStep : Bool} {vm : Thread → VmState} {initial : CodeBufferFlags} {t : Thread}
  {spot spot' : Spot host.arch} {c c' : SharedCode host.arch Thread}

/-- What a thread keeps, whatever the others run. -/
structure StaysApart (host : Host) (assembler : Assembler host.arch) (layouts : Thread → Layout)
    (singleStep : Bool) (vm : Thread → VmState) (initial : CodeBufferFlags) (t : Thread)
    (spot : Spot host.arch) (c : SharedCode host.arch Thread) : Prop where
  proper : spot.Proper assembler singleStep (vm t).memory.size t c
  apart : KeepsApart host layouts singleStep vm initial t spot.place c.view

/-- A missing block can be compiled where it was looked up. -/
theorem KeepsApart.compile {v : VmState} {b : Buffer host.arch}
    (keeps : KeepsApart host layouts singleStep vm initial t (.lookup v) b) :
    KeepsApart host layouts singleStep vm initial t (.compile v) b := by
  obtain ⟨genuine, flags, sound, zero, memory, -⟩ := keeps
  exact ⟨genuine, flags, sound, zero, memory, by rintro _ ⟨⟩⟩

variable [DecidableEq Thread]

theorem StaysApart.grows (stays : StaysApart host assembler layouts singleStep vm initial t spot c)
    (step : ThreadStep assembler ⟨layouts t, singleStep⟩ t (spot, c) (spot', c')) :
    c.Grows assembler singleStep (vm t).memory.size c' ∧ ∀ t' ≠ t, c'.calls.phase t' = c.calls.phase t' := by
  obtain ⟨proper, apart⟩ := stays
  refine proper.grows ?_ step
  rintro v code rfl
  exact apart.sound.2.size

theorem StaysApart.step (stays : StaysApart host assembler layouts singleStep vm initial t spot c)
    (moderate : (vm t).memory.size.toNat ≤ 2 ^ 63)
    (step : ThreadStep assembler ⟨layouts t, singleStep⟩ t (spot, c) (spot', c')) :
    StaysApart host assembler layouts singleStep vm initial t spot' c' := by
  have grows := (stays.grows step).1
  obtain ⟨proper, apart⟩ := stays
  refine ⟨step.proper proper grows, ?_⟩
  have grown := apart.grown grows.grown
  rcases step.moves proper with ⟨same, -⟩ | ⟨v, rfl, rfl⟩ | ⟨view, -, next⟩
  · rwa [same]
  · exact grown.compile
  · rw [view]
    exact apart.next moderate next

/-- The others publish code that is as confined as a thread's own. -/
theorem staysApart_cooperates (assembler : Assembler host.arch) (initial : CodeBufferFlags)
    (sized : ∀ t t', (vm t').memory.size = (vm t).memory.size)
    (moderate : ∀ t, (vm t).memory.size.toNat ≤ 2 ^ 63) :
    Interference.Cooperates (fun _ _ => True) (threadActs assembler layouts singleStep)
      (fun t (_ : Unit) => StaysApart host assembler layouts singleStep vm initial t) fun t c c' =>
      c.Grows assembler singleStep (vm t).memory.size c' ∧ c'.calls.phase t = c.calls.phase t where
  advances stays step := ⟨(), trivial, stays.step (moderate _) step⟩
  guarantees := by
    intro t t' _ spot c spot' c' stays step other
    obtain ⟨grows, phases⟩ := stays.grows step
    rw [← sized t t'] at grows
    exact ⟨grows, phases t' other⟩
  stable := by
    rintro t - spot c c' ⟨proper, apart⟩ ⟨grows, phase⟩
    exact ⟨proper.stable grows phase, apart.grown grows.grown⟩

/-- However threads with one code buffer interleave, also inside of its calls, each of them keeps to its
own guest, and all bytes of the code it is in are in place, whoever has compiled it. -/
theorem threads_isolated (assembler : Assembler host.arch) {flags : CodeBufferFlags} {bytes : Nat}
    {size_le : bytes ≤ 2 ^ 32} {limit : Word}
    (starts : ∀ t, Starts ⟨layouts t, singleStep⟩ (vm t)
      (CodeBuffer.create flags bytes size_le limit : Buffer host.arch))
    (sized : ∀ t t', (vm t').memory.size = (vm t).memory.size)
    {s : System Thread (Spot host.arch) (SharedCode host.arch Thread)}
    (run : Relation.ReflTransGen (Interference.Steps (threadActs assembler layouts singleStep))
      (entered vm flags size_le limit) s) (t : Thread) :
    Isolated host ⟨layouts t, singleStep⟩ (vm t) (flags.skipPermissionChecks = false)
        ((s.own t).place.config s.shared.view) ∧
      ∀ exit block state, s.own t = .running (.inside exit block state) → ∃ offset,
        s.shared.blocks offset = some block ∧
        s.shared.calls.Holds ⟨offset.toNat, assembler.bytes block.code⟩ := by
  have start (t : Thread) : StaysApart host assembler layouts singleStep vm flags t (.starting (vm t))
      (.create flags size_le limit) :=
    ⟨⟨SharedCode.sound_create _ _ _ flags size_le limit, .inl rfl, trivial⟩, (starts t).keepsApart⟩
  obtain ⟨-, stays⟩ := (staysApart_cooperates assembler flags sized fun t => (starts t).moderate).run
    (m := fun _ => ()) start run
  -- what holds of a thread in every state of the system
  obtain ⟨⟨sound, -, backed⟩, apart⟩ := stays t
  refine ⟨apart.isolated, fun exit block state here => ?_⟩
  rw [here] at backed
  obtain ⟨offset, there⟩ := backed
  exact ⟨offset, there, sound.holds there⟩

end Thread

namespace TwoVms

/-- Code of one byte. -/
def assembler : Assembler Overwrite.host.arch := ⟨fun _ => [0x90], fun _ => rfl, [0xcc], List.cons_ne_nil _ _⟩

/-- A buffer for both threads, with no call under way. -/
structure Quiet (c : SharedBuffer Bool) : Prop where
  idle : ∀ t, c.phase t = .idle
  free : c.mutex = none
  size : c.buffer.size = 2 ^ 20
  flags : c.buffer.flags = {}
  maxBlocks : c.buffer.maxBlocks = 4

variable {t : Bool} {c : SharedCode Overwrite.host.arch Bool}

theorem constructs (vm : VmState) (quiet : Quiet c.calls)
    (fits : CodeBuffer.alignedOffset c.calls.buffer.nextFreeOffset + 1 ≤ 2 ^ 20) :
    ∃ calls, Relation.ReflTransGen (ThreadStep assembler ⟨layouts t, false⟩ t) (.starting vm, c)
        (.running (.lookup vm), { c with calls := calls }) ∧ Quiet calls ∧
      calls.buffer.blockToOffset = c.calls.buffer.blockToOffset ∧
      calls.buffer.nextFreeOffset = CodeBuffer.alignedOffset c.calls.buffer.nextFreeOffset + 1 := by
  have run : Relation.ReflTransGen (ThreadStep assembler ⟨layouts t, false⟩ t) (.starting vm, c) _ :=
    .single (.construct (.call (quiet.idle t) (List.cons_ne_nil _ _)))
  -- the trampoline is copied with the mutex held, and published nowhere
  have run := run.tail (.within rfl rfl (.lockStandalone (SharedBuffer.setPhase_self _ _ _) quiet.free))
  have run := run.tail (.within rfl rfl (.allocate (SharedBuffer.setPhase_self _ _ _) rfl (by
    show CodeBuffer.alignedOffset c.calls.buffer.nextFreeOffset + 1 ≤ c.calls.buffer.size
    rwa [quiet.size])))
  have run := run.tail (.within rfl rfl (.copy (i := 0) (SharedBuffer.setPhase_self _ _ _) (by decide) rfl))
  have run := run.tail (.within rfl rfl (.advance (SharedBuffer.setPhase_self _ _ _) rfl))
  have run := run.tail (.within rfl rfl (.keep (SharedBuffer.setPhase_self _ _ _)))
  have run := run.tail (.within rfl rfl (.unlock (SharedBuffer.setPhase_self _ _ _)))
  have run := run.tail (.constructed (.finish (SharedBuffer.setPhase_self _ _ _)))
  refine ⟨_, run, ⟨fun t' => ?_, rfl, quiet.size, quiet.flags, quiet.maxBlocks⟩, rfl, rfl⟩
  by_cases same : t' = t <;> simp [SharedBuffer.setPhase, same, quiet.idle]

theorem misses (vm : VmState) (quiet : Quiet c.calls) (admits : c.calls.buffer.Admits vm.cpu.pc)
    (absent : c.calls.buffer.blockToOffset (vm.cpu.pc.toNat / 4) = 0) :
    ∃ calls, Relation.ReflTransGen (ThreadStep assembler ⟨layouts t, false⟩ t) (.running (.lookup vm), c)
        (.running (.compile vm), { c with calls := calls }) ∧ Quiet calls ∧ calls.buffer = c.calls.buffer := by
  have got := CodeBuffer.get_of_absent admits absent
  have run : Relation.ReflTransGen (ThreadStep assembler ⟨layouts t, false⟩ t) (.running (.lookup vm), c) _ :=
    .single (.get (.call (quiet.idle t) admits))
  have run := run.tail (.within rfl rfl (.look (SharedBuffer.setPhase_self _ _ _) got))
  have run := run.tail (.miss (.finish (SharedBuffer.setPhase_self _ _ _)))
  refine ⟨_, run, ⟨fun t' => ?_, quiet.free, quiet.size, quiet.flags, quiet.maxBlocks⟩, rfl⟩
  by_cases same : t' = t <;> simp [SharedBuffer.setPhase, same, quiet.idle]

theorem hits (vm : VmState) {offset : BitVec 32} {block : CompiledBlock Overwrite.host.arch.Code}
    (quiet : Quiet c.calls) (admits : c.calls.buffer.Admits vm.cpu.pc) (present : offset ≠ 0)
    (published : c.calls.buffer.blockToOffset (vm.cpu.pc.toNat / 4) = offset) (here : c.blocks offset = some block) :
    ∃ calls state, Relation.ReflTransGen (ThreadStep assembler ⟨layouts t, false⟩ t) (.running (.lookup vm), c)
      (.running (.inside vm.exit block state), { c with calls := calls }) := by
  have got : c.calls.buffer.get vm.cpu.pc = .ok (some offset) := by
    rw [CodeBuffer.get_of_admits admits, published, if_pos present]
  have run : Relation.ReflTransGen (ThreadStep assembler ⟨layouts t, false⟩ t) (.running (.lookup vm), c) _ :=
    .single (.get (.call (quiet.idle t) admits))
  have run := run.tail (.within rfl rfl (.look (SharedBuffer.setPhase_self _ _ _) got))
  exact ⟨_, _, run.tail (.hit (fun _ => (0 : Word)) (.finish (SharedBuffer.setPhase_self _ _ _)) here)⟩

theorem inserts (vm : VmState) {code : Overwrite.host.arch.Code} (quiet : Quiet c.calls)
    (admits : c.calls.buffer.Admits vm.cpu.pc)
    (absent : c.calls.buffer.blockToOffset (vm.cpu.pc.toNat / 4) = 0)
    (generated : Overwrite.host.arch.generateBlockCode {} 4 vm.memory false vm.cpu.pc = .ok code)
    (fits : CodeBuffer.alignedOffset c.calls.buffer.nextFreeOffset + 1 ≤ 2 ^ 20)
    (positive : BitVec.ofNat 32 (CodeBuffer.alignedOffset c.calls.buffer.nextFreeOffset) ≠ 0) :
    ∃ c' offset state, Relation.ReflTransGen (ThreadStep assembler ⟨layouts t, false⟩ t) (.running (.compile vm), c)
        (.running (.inside vm.exit ⟨code, vm.cpu.pc, vm.memory⟩ state), c') ∧ Quiet c'.calls ∧
      c'.blocks offset = some ⟨code, vm.cpu.pc, vm.memory⟩ ∧ offset ≠ 0 ∧
      c'.calls.buffer.blockToOffset (vm.cpu.pc.toNat / 4) = offset ∧
      c'.calls.buffer.nextFreeOffset = CodeBuffer.alignedOffset c.calls.buffer.nextFreeOffset + 1 := by
  have got := CodeBuffer.get_of_absent admits absent
  have generated : Overwrite.host.arch.generateBlockCode c.view.flags c.view.maxBlocks vm.memory false
      vm.cpu.pc = .ok code := by
    rw [show c.view.flags = {} from quiet.flags, show c.view.maxBlocks = 4 from quiet.maxBlocks, generated]
  -- the steps of `CodeBuffer::insert`, one by one
  have run : Relation.ReflTransGen (ThreadStep assembler ⟨layouts t, false⟩ t) (.running (.compile vm), c) _ :=
    .single (.insert generated (.call (quiet.idle t) ⟨admits, List.cons_ne_nil _ _⟩))
  have run := run.tail (.within rfl rfl (.lock (SharedBuffer.setPhase_self _ _ _) quiet.free))
  have run := run.tail (.within rfl rfl (.missed (SharedBuffer.setPhase_self _ _ _) got))
  have run := run.tail (.within rfl rfl (.allocate (SharedBuffer.setPhase_self _ _ _) rfl (by
    show CodeBuffer.alignedOffset c.calls.buffer.nextFreeOffset + 1 ≤ c.calls.buffer.size
    rwa [quiet.size])))
  have run := run.tail (.within rfl rfl (.copy (i := 0) (SharedBuffer.setPhase_self _ _ _)
    (Finset.mem_range.mpr Nat.one_pos) rfl))
  have run := run.tail (.within rfl rfl (.advance (SharedBuffer.setPhase_self _ _ _) rfl))
  have run := run.tail (.publish (.publish (SharedBuffer.setPhase_self _ _ _)))
  have run := run.tail (.within rfl rfl (.unlock (SharedBuffer.setPhase_self _ _ _)))
  have run := run.tail (.inserted (fun _ => (0 : Word)) (.finish (SharedBuffer.setPhase_self _ _ _))
    (Function.update_self _ _ _))
  refine ⟨_, _, _, run, ⟨fun t' => ?_, rfl, quiet.size, quiet.flags, quiet.maxBlocks⟩, Function.update_self _ _ _,
    positive, if_pos rfl, rfl⟩
  by_cases same : t' = t <;>
    simp [SharedBuffer.setPhase, SharedBuffer.noteFirst, SharedCode.published, same, quiet.idle]

end TwoVms

/-- One thread compiles its program, and the other one, in an executor of its own, enters that block. -/
theorem threads_isolated_foreign :
    ∃ (s : System Bool (Spot Overwrite.host.arch) (SharedCode Overwrite.host.arch Bool)) (exit : Exit)
      (block : CompiledBlock Overwrite.host.arch.Code) (state : Overwrite.host.arch.State) (offset : BitVec 32),
      s.own true = .running (.inside exit block state) ∧ block.memory = SystemCall.memory ∧
      Isolated Overwrite.host ⟨TwoVms.layouts true, false⟩ Counting.vm
        (({} : CodeBufferFlags).skipPermissionChecks = false) ((s.own true).place.config s.shared.view) ∧
      s.shared.blocks offset = some block ∧
      s.shared.calls.Holds ⟨offset.toNat, TwoVms.assembler.bytes block.code⟩ := by
  obtain ⟨code, generated⟩ : ∃ code,
      Overwrite.host.arch.generateBlockCode {} 4 SystemCall.vm.memory false SystemCall.vm.cpu.pc = .ok code :=
    ⟨_, rfl⟩
  let c₀ : SharedCode Overwrite.host.arch Bool := .create {} Overwrite.capacity_le 16
  have quiet₀ : TwoVms.Quiet c₀.calls := ⟨fun _ => rfl, rfl, rfl, rfl, rfl⟩
  -- the first thread, up to the block it has compiled
  obtain ⟨calls₁, construct₁, quiet₁, table₁, next₁⟩ := TwoVms.constructs (t := false) SystemCall.vm quiet₀ (by decide)
  obtain ⟨calls₂, miss, quiet₂, same⟩ := TwoVms.misses (t := false) (c := ⟨calls₁, c₀.blocks⟩) SystemCall.vm
    quiet₁ ⟨rfl, by rw [quiet₁.maxBlocks]; decide⟩ (by rw [table₁]; rfl)
  obtain ⟨c₃, offset, state₃, insert, quiet₃, here₃, present, table₃, next₃⟩ :=
    TwoVms.inserts (t := false) (c := ⟨calls₂, c₀.blocks⟩) SystemCall.vm quiet₂
      ⟨rfl, by rw [quiet₂.maxBlocks]; decide⟩ (by rw [same, table₁]; rfl) generated
      (by rw [same, next₁]; decide) (by rw [same, next₁]; decide)
  -- the second thread finds it
  obtain ⟨calls₄, construct₄, quiet₄, table₄, -⟩ := TwoVms.constructs (t := true) (c := c₃) Counting.vm quiet₃
    (by rw [next₃, same, next₁]; decide)
  obtain ⟨calls₅, state, hit⟩ := TwoVms.hits (t := true) (c := ⟨calls₄, c₃.blocks⟩) Counting.vm quiet₄
    ⟨rfl, by rw [quiet₄.maxBlocks]; decide⟩ present (by rw [table₄]; exact table₃) here₃
  let s₀ : System Bool (Spot Overwrite.host.arch) (SharedCode Overwrite.host.arch Bool) :=
    entered TwoVms.vm {} Overwrite.capacity_le 16
  let s₃ : System Bool (Spot Overwrite.host.arch) (SharedCode Overwrite.host.arch Bool) :=
    ⟨Function.update s₀.own false (.running (.inside {} ⟨code, 0, SystemCall.memory⟩ state₃)), c₃⟩
  have first : Relation.ReflTransGen (Interference.Steps (threadActs TwoVms.assembler TwoVms.layouts false)) s₀ s₃ :=
    Interference.steps_of_party ((construct₁.trans miss).trans insert)
  have second := Interference.steps_of_party
    (show Relation.ReflTransGen (threadActs TwoVms.assembler TwoVms.layouts false true) (s₃.own true, s₃.shared) _ from
      construct₄.trans hit)
  have sized (t : Bool) : (TwoVms.vm t).memory.size = 16 := by cases t <;> rfl
  have starts (t : Bool) : Starts ⟨TwoVms.layouts t, false⟩ (TwoVms.vm t)
      (CodeBuffer.create {} (2 ^ 20) Overwrite.capacity_le 16 : Buffer Overwrite.host.arch) :=
    TwoVms.starts (genuine_create _ _ _ _ _) (sized t) (by cases t <;> rfl) (by decide) t
  obtain ⟨isolated, whole⟩ := threads_isolated TwoVms.assembler starts
    (fun t t' => (sized t').trans (sized t).symm) (first.trans second) true
  obtain ⟨offset', there, holds⟩ := whole _ _ _ rfl
  exact ⟨_, _, _, state, offset', rfl, rfl, isolated, there, holds⟩

end Riscv64Emulator.Jit
