import Riscv64Emulator.Lib.LabelledRuns
import Riscv64Emulator.Jit.SharedBuffer

/-!
# Publication of code

What executors that share a code buffer find in it over a whole run: a block is published
once, with the code of its first insert, and the calls take effect as if they were made one
after the other.
-/
namespace Riscv64Emulator.Jit

open LabelledRuns

namespace SharedBuffer

variable {Executor : Type}

/-! ### Runs -/

/-- What an executor finds out about a block in one run. -/
structure PublishesOnce (size : Nat) (events : List (Event Executor)) (s : SharedBuffer Executor) :
    Prop where
  inside : ∀ r ∈ s.regions, 16 ≤ r.start ∧ r.start % 16 = 0 ∧ r.stop ≤ size
  disjoint : s.regions.Pairwise Region.Disjoint
  /-- A block leads to the code of its first insert, which is all there. -/
  published : ∀ block, s.buffer.blockToOffset block ≠ 0 → ∃ code, s.first block = some code ∧
    ⟨(s.buffer.blockToOffset block).toNat, code⟩ ∈ s.regions ∧
    s.Holds ⟨(s.buffer.blockToOffset block).toNat, code⟩
  /-- After a call has returned an offset, the calls for the same address do. -/
  same : ∀ {before between during after : List (Event Executor)} {t t' call call' guestAddress}
    {offset : BitVec 32} {result}, events = before ++ .returned t call (some offset) ::
      (between ++ .called t' call' :: (during ++ .returned t' call' result :: after)) →
    call.guestAddress = some guestAddress → call'.guestAddress = some guestAddress →
    (∀ call'' result', .returned t' call'' result' ∉ during) → result = some offset
  /-- A `get` that returns nothing looked before the block was published. -/
  absent : ∀ {before after : List (Event Executor)} {t guestAddress},
    events = before ++ .returned t (.get guestAddress) none :: after →
    ∃ earlier since, before = earlier ++ .looked t guestAddress none :: since ∧
      (∀ t' offset, .published t' guestAddress offset ∉ earlier) ∧ ∀ call, .called t call ∉ since

section Runs

variable [DecidableEq Executor] {s s₀ s' : SharedBuffer Executor} {events : List (Event Executor)}
  {t t' : Executor}

theorem Inv.run (inv : s₀.Inv) (run : Run Step s₀ events s) : s.Inv :=
  run.keeps inv fun _ => Inv.step

theorem Step.size {e : Event Executor} (step : Step s e s') : s'.buffer.size = s.buffer.size := by
  cases step <;> rfl

/-- The step of an executor leaves the others where they are. -/
theorem Step.other {e : Event Executor} (step : Step s e s') (other : t ≠ e.executor) :
    s'.phase t = s.phase t := by
  cases step <;> exact Function.update_of_ne other _ _

/-- A published offset stays. -/
theorem Step.keepsBlock {e : Event Executor} (inv : s.Inv) (step : Step s e s') {block : Nat}
    (published : s.buffer.blockToOffset block ≠ 0) :
    s'.buffer.blockToOffset block = s.buffer.blockToOffset block := by
  cases step with
  | @publish t guestAddress code offset here =>
    have sound := inv.phases t
    rw [here] at sound
    obtain ⟨⟨-, publishes⟩, -⟩ := sound
    refine if_neg fun same => ?_
    subst same
    exact published (publishes guestAddress code rfl).1
  | _ => rfl

/-- An executor is in a call for a block that is published at the offset, and if it has an
offset then this one. -/
structure Sees (t : Executor) (call : Call) (guestAddress : Word) (offset : BitVec 32)
    (s : SharedBuffer Executor) : Prop where
  inv : s.Inv
  nonzero : offset ≠ 0
  published : s.buffer.blockToOffset (guestAddress.toNat / 4) = offset
  phase : s.phase t = .called call ∨ s.phase t = .locked call ∨ s.phase t = .unlocking call offset ∨
    s.phase t = .returning call (some offset)

theorem Sees.step {call : Call} {guestAddress : Word} {offset : BitVec 32} {e : Event Executor}
    (about : call.guestAddress = some guestAddress) (sees : Sees t call guestAddress offset s)
    (step : Step s e s') (stays : ∀ call' result, e ≠ .returned t call' result) :
    Sees t call guestAddress offset s' := by
  obtain ⟨inv, nonzero, published, phase⟩ := sees
  refine ⟨inv.step step, nonzero, (step.keepsBlock inv (published ▸ nonzero)).trans published, ?_⟩
  by_cases mine : t = e.executor
  · -- what the table gives for the block
    have looks {result : Option (BitVec 32)} (admits : s.buffer.Admits guestAddress)
        (got : s.buffer.get guestAddress = .ok result) : result = some offset := by
      rw [CodeBuffer.get_of_admits admits, published, if_pos nonzero] at got
      exact (Except.ok.inj got).symm
    cases step with
    | @call t₀ call' idle admitted =>
      obtain rfl : t = t₀ := mine
      rw [idle] at phase
      simp at phase
    | @look t₀ guestAddress' result here got =>
      obtain rfl : t = t₀ := mine
      rw [here] at phase
      simp only [Phase.called.injEq, reduceCtorEq, or_false] at phase
      subst phase
      cases about
      have admitted := inv.admitted t (.get guestAddress) (by rw [here]; rfl)
      rw [looks admitted got, setPhase_self]
      exact .inr (.inr (.inr rfl))
    | @lock t₀ _ _ here free =>
      obtain rfl : t = t₀ := mine
      rw [here] at phase
      simp only [Phase.called.injEq, reduceCtorEq, or_false] at phase
      rw [setPhase_self, phase]
      exact .inr (.inl rfl)
    -- the call that found the block goes on to return its offset
    | @found t₀ guestAddress' code offset' here got =>
      obtain rfl : t = t₀ := mine
      rw [here] at phase
      simp only [Phase.locked.injEq, reduceCtorEq, or_false, false_or] at phase
      subst phase
      cases about
      have admitted := inv.admitted t (.insert guestAddress code) (by rw [here]; rfl)
      cases looks admitted.1 got
      rw [setPhase_self]
      exact .inr (.inr (.inl rfl))
    -- it cannot miss: the offset is published and stays so
    | @missed t₀ guestAddress' code here got =>
      obtain rfl : t = t₀ := mine
      rw [here] at phase
      simp only [Phase.locked.injEq, reduceCtorEq, or_false, false_or] at phase
      subst phase
      cases about
      have admitted := inv.admitted t (.insert guestAddress code) (by rw [here]; rfl)
      cases looks admitted.1 got
    | @lockStandalone t₀ _ here free =>
      obtain rfl : t = t₀ := mine
      rw [here] at phase
      simp only [Phase.called.injEq, reduceCtorEq, or_false] at phase
      subst phase
      cases about
    -- a call that allocates has missed before
    | @allocate t₀ _ _ here | @copy t₀ _ _ _ _ _ here | @advance t₀ _ _ _ here
    | @publish t₀ _ _ _ here | @keep t₀ _ _ here =>
      obtain rfl : t = t₀ := mine
      rw [here] at phase
      simp at phase
    | @unlock t₀ _ _ here =>
      obtain rfl : t = t₀ := mine
      rw [here] at phase
      simp only [Phase.unlocking.injEq, reduceCtorEq, or_false, false_or] at phase
      rw [setPhase_self, phase.1, phase.2]
      exact .inr (.inr (.inr rfl))
    | @finish t₀ _ _ here =>
      obtain rfl : t = t₀ := mine
      exact absurd rfl (stays _ _)
  · rwa [step.other mine]

/-- What the events of a run tell about its last state. -/
structure History (events : List (Event Executor)) (s : SharedBuffer Executor) : Prop where
  inv : s.Inv
  published : ∀ t guestAddress offset, .published t guestAddress offset ∈ events →
    s.buffer.blockToOffset (guestAddress.toNat / 4) ≠ 0
  looked : ∀ t guestAddress, s.phase t = .returning (.get guestAddress) none →
    ∃ earlier since, events = earlier ++ .looked t guestAddress none :: since ∧
      (∀ t' offset, .published t' guestAddress offset ∉ earlier) ∧ ∀ call, .called t call ∉ since

theorem History.step {e : Event Executor} (history : History events s) (step : Step s e s') :
    History (events ++ [e]) s' := by
  obtain ⟨inv, published, looked⟩ := history
  refine ⟨inv.step step, fun t guestAddress offset mem => ?_, fun t guestAddress here => ?_⟩
  -- published offsets stay, and a step publishes at most one
  · rcases List.mem_append.mp mem with mem | mem
    · have before := published t guestAddress offset mem
      rwa [step.keepsBlock inv before]
    · cases List.mem_singleton.mp mem
      cases step with
      | publish here =>
        have sound := inv.phases t
        rw [here] at sound
        exact (if_pos rfl).trans_ne sound.2.1
  -- a call that missed did so before anyone published; what others do since is kept as `since`
  · by_cases mine : t = e.executor
    · cases step with
      | @look t₀ _ result here' got =>
        obtain rfl : t = t₀ := mine
        rw [setPhase_self] at here
        cases here
        have admitted := inv.admitted t (.get guestAddress) (by rw [here']; rfl)
        refine ⟨events, [], rfl, fun t' offset mem => ?_, fun _ => List.not_mem_nil⟩
        have present := published t' guestAddress offset mem
        rw [CodeBuffer.get_of_admits admitted, if_pos present] at got
        cases got
      | @call t₀ | @lock t₀ | @found t₀ | @missed t₀ | @lockStandalone t₀ | @allocate t₀ | @copy t₀
      | @advance t₀ | @publish t₀ | @keep t₀ | @unlock t₀ | @finish t₀ =>
        obtain rfl : t = t₀ := mine
        rw [setPhase_self] at here
        cases here
    · rw [step.other mine] at here
      obtain ⟨earlier, since, rfl, unpublished, same⟩ := looked t guestAddress here
      refine ⟨earlier, since ++ [e], by simp, unpublished, fun call mem => ?_⟩
      rcases List.mem_append.mp mem with mem | mem
      · exact same call mem
      · cases List.mem_singleton.mp mem
        exact mine rfl

end Runs

/-- Whatever executors call in whatever order, and however their calls interleave, the buffer
publishes one code for a block, in a part of its own. -/
theorem publishesOnce {flags : CodeBufferFlags} {size : Nat} (size_le : size ≤ 2 ^ 32) {limit : Word}
    [DecidableEq Executor] {events : List (Event Executor)} {s : SharedBuffer Executor}
    (run : Run Step (create flags size size_le limit) events s) : PublishesOnce size events s := by
  have inv : s.Inv := (inv_create flags size_le limit).run run
  have sized : s.buffer.size = size :=
    run.keeps (P := fun s => s.buffer.size = size) rfl fun _ sized step => step.size.trans sized
  refine ⟨fun r mem => sized ▸ inv.inside r mem, inv.disjoint, fun block published => ?_, ?_, ?_⟩
  · obtain ⟨code, first, mem, settled⟩ := inv.published block published
    exact ⟨code, first, mem, settled.2⟩
  · rintro before between during after t t' call call' guestAddress offset result rfl about about' alone
    obtain ⟨s₁, s₂, first, returned, rest⟩ := run.cut_cons
    obtain ⟨s₃, s₄, second, called, rest⟩ := rest.cut_cons
    obtain ⟨s₅, s₆, third, returned', -⟩ := rest.cut_cons
    have inv₁ := (inv_create flags size_le limit).run first
    -- the first call has left its offset in the table
    have published : s₂.buffer.blockToOffset (guestAddress.toNat / 4) = offset ∧ offset ≠ 0 := by
      cases returned with
      | finish here =>
        have sound := inv₁.phases t
        rw [here] at sound
        exact ⟨sound.2 guestAddress about, sound.1⟩
    have kept : s₃.Inv ∧ s₃.buffer.blockToOffset (guestAddress.toNat / 4) = offset := by
      refine Run.keeps (P := fun s => s.Inv ∧ s.buffer.blockToOffset (guestAddress.toNat / 4) = offset)
        ⟨inv₁.step returned, published.1⟩ second ?_
      rintro s e s' - ⟨inv, here⟩ step
      exact ⟨inv.step step, (step.keepsBlock inv (here ▸ published.2)).trans here⟩
    have sees : Sees t' call' guestAddress offset s₄ := by
      refine ⟨kept.1.step called, published.2,
        (called.keepsBlock kept.1 (kept.2 ▸ published.2)).trans kept.2, .inl ?_⟩
      cases called with
      | call idle admitted => exact setPhase_self _ _ _
    have sees' : Sees t' call' guestAddress offset s₅ :=
      third.keeps sees fun mem sees step => sees.step about' step fun call'' result' same =>
        alone call'' result' (same ▸ mem)
    cases returned' with
    | finish here =>
      have phase := sees'.phase
      rw [here] at phase
      simpa using phase
  · rintro before after t guestAddress rfl
    obtain ⟨s₁, s₂, first, returned, -⟩ := run.cut_cons
    have history : History before s₁ := first.invariant
      ⟨inv_create flags size_le limit, fun _ _ _ none => absurd none List.not_mem_nil, fun _ _ idle => by cases idle⟩
      fun history step => history.step step
    cases returned with
    | finish here => exact history.looked t guestAddress here

/-- Two executors insert code for the same block, and the later one is given the other's. -/
theorem publishesOnce_race : ∃ (events : List (Event Bool)) (s : SharedBuffer Bool),
    .returned false (.insert 4 [0xcc]) (some 16) ∈ events ∧ PublishesOnce 64 events s := by
  have run : Run Step (create {} 64 (by decide) 16 : SharedBuffer Bool) [] _ := .start
  have run := run.next (show Step _ (.called true (.insert 4 [0x90])) _ from
    .call rfl ⟨by decide, List.cons_ne_nil _ _⟩)
  have run := run.next (show Step _ (.called false (.insert 4 [0xcc])) _ from
    .call rfl ⟨by decide, List.cons_ne_nil _ _⟩)
  have run := run.next (.lock (t := true) rfl rfl)
  have run := run.next (.missed (t := true) rfl rfl)
  have run := run.next (.allocate (t := true) rfl rfl (by decide))
  have run := run.next (.copy (t := true) (i := 0) rfl (by decide) rfl)
  have run := run.next (.advance (t := true) rfl rfl)
  have run := run.next (.publish (t := true) rfl)
  have run := run.next (.unlock (t := true) rfl)
  have run := run.next (.lock (t := false) rfl rfl)
  have run := run.next (.found (t := false) rfl rfl)
  have run := run.next (.unlock (t := false) rfl)
  have run := run.next (show Step _ (.returned false (.insert 4 [0xcc]) (some 16)) _ from .finish rfl)
  exact ⟨_, _, List.mem_append_right _ (List.mem_singleton_self _), publishesOnce (by decide) run⟩

/-! ### The calls one after the other -/

/-- The calls of `CodeBuffer` take effect in a single step: where they look, or where they have
written the code and, for a block, publish it. -/
inductive TakesEffect : CodeBuffer MachineCode → Event Executor → CodeBuffer MachineCode → Prop
  | get {b t guestAddress result} (got : b.get guestAddress = .ok result) :
      TakesEffect b (.looked t guestAddress result) b
  | insert {b b' t guestAddress offset} (code : MachineCode)
      (inserted : b.insert guestAddress code.length code = .ok (offset, b')) :
      TakesEffect b (.published t guestAddress offset) b'
  | insertStandalone {b b' t offset} (code : MachineCode)
      (inserted : b.insertStandalone code.length code = .ok (offset, b')) :
      TakesEffect b (.kept t offset) b'
  | called {b t call} : TakesEffect b (.called t call) b
  | locked {b t call} : TakesEffect b (.locked t call) b
  | allocated {b t r} : TakesEffect b (.allocated t r) b
  | copied {b t offset} : TakesEffect b (.copied t offset) b
  | advanced {b t} : TakesEffect b (.advanced t) b
  | unlocked {b t} : TakesEffect b (.unlocked t) b
  | returned {b t call result} : TakesEffect b (.returned t call result) b

/-- The code is written, and its offset not delivered. -/
def isAllocated : Phase → Bool
  | .allocated _ _ => true
  | _ => false

/-- The buffer as the calls that have taken effect left it: without the code that is written but
not published. -/
def Effective (s : SharedBuffer Executor) (b : CodeBuffer MachineCode) : Prop :=
  ((∀ t, isAllocated (s.phase t) = false) ∧ b = s.buffer) ∨
    ∃ t call offset, s.phase t = .allocated call offset ∧
      b.allocateExecutableMemory call.code.length call.code = .ok (offset, s.buffer)

section Linearization

variable {s s' : SharedBuffer Executor} {t : Executor} {phase : Phase} {b : CodeBuffer MachineCode}
  {e : Event Executor}

/-- The table the unlocked calls see is that of the calls that have taken effect. -/
theorem Effective.get (effective : Effective s b) (inv : s.Inv) (guestAddress : Word) :
    b.get guestAddress = s.buffer.get guestAddress := by
  rcases effective with ⟨-, rfl⟩ | ⟨t, call, offset, here, allocation⟩
  · rfl
  · have sound := inv.phases t
    rw [here] at sound
    have allocated := CodeBuffer.allocated (List.length_pos_of_ne_nil sound.1.1) allocation
    unfold CodeBuffer.get
    rw [allocated.blocks, allocated.maxBlocks]

/-- Behind an allocation, the code written is what is not in effect. -/
theorem Effective.allocated (effective : Effective s b) (inv : s.Inv) {call : Call}
    {offset : BitVec 32} (here : s.phase t = .allocated call offset) :
    b.allocateExecutableMemory call.code.length call.code = .ok (offset, s.buffer) := by
  rcases effective with ⟨none, -⟩ | ⟨t', call', offset', there, allocation⟩
  · have absent := none t
    rw [here] at absent
    cases absent
  · have same : t' = t := by
      by_contra other
      have free := inv.alone (t := t) (by rw [here]; rfl) other
      rw [there] at free
      cases free
    subst same
    cases here.symm.trans there
    exact allocation

variable [DecidableEq Executor]

theorem Inv.none_allocated (inv : s.Inv) {call : Call} {offset : BitVec 32}
    (here : s.phase t = .allocated call offset) (moved : s'.phase = Function.update s.phase t phase)
    (after : isAllocated phase = false) (t' : Executor) : isAllocated (s'.phase t') = false := by
  by_cases mine : t' = t
  · rw [mine, moved, Function.update_self]
    exact after
  · have free := inv.alone (t := t) (by rw [here]; rfl) mine
    rw [moved, Function.update_of_ne mine]
    cases there : s.phase t' <;> first | rfl | (rw [there] at free; cases free)

theorem Effective.moves (effective : Effective s b) (before : isAllocated (s.phase t) = false)
    (after : isAllocated phase = false) (moved : s'.phase = Function.update s.phase t phase) (same : s'.buffer = s.buffer) : Effective s' b := by
  have self : s'.phase t = phase := by rw [moved, Function.update_self]
  have other {t' : Executor} (other : t' ≠ t) : s'.phase t' = s.phase t' := by
    rw [moved, Function.update_of_ne other]
  rcases effective with ⟨none, rfl⟩ | ⟨t', call, offset, here, allocation⟩
  · refine .inl ⟨fun t' => ?_, same.symm⟩
    by_cases mine : t' = t
    · rw [mine, self]
      exact after
    · rw [other mine]
      exact none t'
  · have theirs : t' ≠ t := by
      rintro rfl
      rw [here] at before
      cases before
    exact .inr ⟨t', call, offset, (other theirs).trans here, same.symm ▸ allocation⟩

/-- The insert that publishes is a whole `insert`. -/
theorem insert_of_allocate {b' : CodeBuffer MachineCode} {guestAddress : Word} {code : MachineCode}
    {offset : BitVec 32} (admits : b.Admits guestAddress)
    (absent : b.blockToOffset (guestAddress.toNat / 4) = 0)
    (allocation : b.allocateExecutableMemory code.length code = .ok (offset, b')) :
    b.insert guestAddress code.length code = .ok (offset, { b' with
      blockToOffset := fun block =>
        if block = guestAddress.toNat / 4 then offset else b'.blockToOffset block }) := by
  unfold CodeBuffer.insert
  rw [if_neg (fun misaligned => misaligned admits.1), CodeBuffer.get_of_admits admits]
  simp only [absent, allocation, bind, Except.bind, pure, Except.pure, ne_eq, not_true_eq_false, if_false]

/-- A step of an executor is one of the calls, as if they were made one after the other. -/
theorem Inv.takesEffect (inv : s.Inv) (effective : Effective s b) (step : Step s e s') :
    ∃ b', TakesEffect b e b' ∧ Effective s' b' := by
  cases step with
  | call here =>
    exact ⟨b, .called, effective.moves (by rw [here]; rfl) rfl rfl rfl⟩
  | look here got =>
    exact ⟨b, .get ((effective.get inv _).trans got),
      effective.moves (by rw [here]; rfl) rfl rfl rfl⟩
  | lock here free =>
    exact ⟨b, .locked, effective.moves (by rw [here]; rfl) rfl rfl rfl⟩
  | found here got =>
    exact ⟨b, .get ((effective.get inv _).trans got),
      effective.moves (by rw [here]; rfl) rfl rfl rfl⟩
  | missed here got =>
    exact ⟨b, .get ((effective.get inv _).trans got),
      effective.moves (by rw [here]; rfl) rfl rfl rfl⟩
  | lockStandalone here free =>
    exact ⟨b, .locked, effective.moves (by rw [here]; rfl) rfl rfl rfl⟩
  | allocate here =>
    exact ⟨b, .allocated, effective.moves (by rw [here]; rfl) rfl rfl rfl⟩
  | copy here =>
    exact ⟨b, .copied, effective.moves (by rw [here]; rfl) rfl rfl rfl⟩
  | @advance t call start offset here truncated =>
    -- the allocation is the effect: no other thread is between its own and a publication
    have sound := inv.phases t
    rw [here] at sound
    obtain ⟨-, aligned, fits, -⟩ := sound
    obtain ⟨-, rfl⟩ : (∀ t, isAllocated (s.phase t) = false) ∧ b = s.buffer := by
      refine effective.resolve_right fun ⟨t', call', offset', there, _⟩ => ?_
      have same : t' = t := by
        by_contra other
        have free := inv.alone (t := t) (by rw [here]; rfl) other
        rw [there] at free
        cases free
      rw [same, here] at there
      cases there
    refine ⟨s.buffer, .advanced, .inr ⟨t, call, offset, setPhase_self _ _ _, ?_⟩⟩
    unfold CodeBuffer.allocateExecutableMemory
    subst aligned
    dsimp only
    rw [if_pos fits, ← truncated]
    rfl
  | @publish t guestAddress code offset here =>
    -- the entry is still empty, as it was when the lock was taken
    have sound := inv.phases t
    rw [here] at sound
    obtain ⟨⟨nonempty, publishes⟩, -⟩ := sound
    have allocation := effective.allocated inv here
    have allocated := CodeBuffer.allocated (List.length_pos_of_ne_nil nonempty) allocation
    have admitted := inv.admitted t (.insert guestAddress code) (by rw [here]; rfl)
    have admits : b.Admits guestAddress := by
      have admits := admitted.1
      unfold CodeBuffer.Admits at admits ⊢
      rwa [← allocated.maxBlocks]
    have absent : b.blockToOffset (guestAddress.toNat / 4) = 0 := by
      rw [← allocated.blocks]
      exact (publishes guestAddress code rfl).1
    exact ⟨_, .insert code (insert_of_allocate admits absent allocation),
      .inl ⟨inv.none_allocated here rfl rfl, rfl⟩⟩
  | @keep t code offset here =>
    exact ⟨_, .insertStandalone code (effective.allocated inv here),
      .inl ⟨inv.none_allocated here rfl rfl, rfl⟩⟩
  | unlock here =>
    exact ⟨b, .unlocked, effective.moves (by rw [here]; rfl) rfl rfl rfl⟩
  | finish here =>
    exact ⟨b, .returned, effective.moves (by rw [here]; rfl) rfl rfl rfl⟩

/-- Every run is one in which the calls take effect one after the other. -/
theorem run_takesEffect {flags : CodeBufferFlags} {size : Nat} (size_le : size ≤ 2 ^ 32) {limit : Word}
    {events : List (Event Executor)} (run : Run Step (create flags size size_le limit) events s) :
    ∃ b, Run TakesEffect (.create flags size size_le limit) events b ∧ Effective s b := by
  have init : (create flags size size_le limit : SharedBuffer Executor).Inv ∧
      Effective (create flags size size_le limit : SharedBuffer Executor)
        (.create flags size size_le limit) := ⟨inv_create flags size_le limit, .inl ⟨fun _ => rfl, rfl⟩⟩
  obtain ⟨b, run', -, effective⟩ :=
    run.simulates (R := fun s b => s.Inv ∧ Effective s b) init fun ⟨inv, effective⟩ step => by
      obtain ⟨b', takes, effective'⟩ := inv.takesEffect effective step
      exact ⟨b', takes, inv.step step, effective'⟩
  exact ⟨b, run', effective⟩

end Linearization

end SharedBuffer

end Riscv64Emulator.Jit
