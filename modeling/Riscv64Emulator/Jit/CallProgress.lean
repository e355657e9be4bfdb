import Riscv64Emulator.Jit.Publication
import Mathlib.Data.Prod.Lex

/-!
# The calls of the code buffer come to an end

A call passes its phases in one direction. Nothing holds it up but the mutex, and nothing holds up
the executor that has the mutex but a buffer that is full.
-/
namespace Riscv64Emulator.Jit

/-- A step inside a call that leaves the table as it is. -/
def Event.internal {Executor : Type} : Event Executor → Bool
  | .called .. | .returned .. | .published .. => false
  | _ => true

/-- Only an insert looks for its block with the mutex, and only a `get` comes back with nothing. -/
def Phase.Proper : Phase → Prop
  | .locked call => ∃ guestAddress code, call = .insert guestAddress code
  | .copying call _ remaining => remaining ⊆ Finset.range call.code.length
  | .returning call result => result = none → ∃ guestAddress, call = .get guestAddress
  | _ => True

/-- How far an executor is from the end of a call: the phases in front of it, and the bytes to copy. -/
def Phase.left : Phase → ℕ ×ₗ ℕ
  | .idle => toLex (7, 0)
  | .called _ => toLex (6, 0)
  | .locked _ => toLex (5, 0)
  | .allocating _ => toLex (4, 0)
  | .copying _ _ remaining => toLex (3, remaining.card)
  | .allocated _ _ => toLex (2, 0)
  | .unlocking _ _ => toLex (1, 0)
  | .returning _ _ => toLex (0, 0)

namespace SharedBuffer

variable {Executor : Type} {s s' : SharedBuffer Executor} {e : Event Executor} {t t' : Executor}

/-- The mutex is held by an executor that gives it back. -/
structure Live (s : SharedBuffer Executor) : Prop where
  held : ∀ t, s.mutex = some t → (s.phase t).critical = true
  proper : ∀ t, (s.phase t).Proper

/-- There is no room for the code of a call. -/
def Full (s : SharedBuffer Executor) (t : Executor) : Prop :=
  ∃ call, s.phase t = .allocating call ∧
    s.buffer.size < CodeBuffer.alignedOffset s.buffer.nextFreeOffset + call.code.length

theorem live_create (flags : CodeBufferFlags) {size : Nat} (size_le : size ≤ 2 ^ 32) (limit : Word) :
    (create flags size size_le limit : SharedBuffer Executor).Live where
  held _ held := by cases held
  proper _ := trivial

variable [DecidableEq Executor]

/-! ### What a step changes -/

theorem Step.flags (step : Step s e s') : s'.buffer.flags = s.buffer.flags := by
  cases step <;> rfl

theorem Step.maxBlocks (step : Step s e s') : s'.buffer.maxBlocks = s.buffer.maxBlocks := by
  cases step <;> rfl

theorem Step.table (step : Step s e s') (kept : ∀ t guestAddress offset, e ≠ .published t guestAddress offset) :
    s'.buffer.blockToOffset = s.buffer.blockToOffset := by
  cases step <;> first | rfl | exact absurd rfl (kept _ _ _)

/-- The first code of a block stays the first. -/
theorem Step.first (step : Step s e s') {block : Nat} {code : MachineCode} (noted : s.first block = some code) :
    s'.first block = some code := by
  cases step with
  | @lock t guestAddress code' =>
    show Function.update s.first _ _ block = _
    by_cases same : block = guestAddress.toNat / 4
    · subst same
      rw [Function.update_self, noted]
      rfl
    · rwa [Function.update_of_ne same]
  | _ => exact noted

theorem Inv.nextFreeOffset_le (inv : s.Inv) (step : Step s e s') :
    s.buffer.nextFreeOffset ≤ s'.buffer.nextFreeOffset := by
  cases step with
  | @advance t call start offset here =>
    have sound := inv.phases t
    rw [here] at sound
    obtain ⟨-, aligned, -⟩ := sound
    have behind := CodeBuffer.le_alignedOffset s.buffer.nextFreeOffset
    show s.buffer.nextFreeOffset ≤ start + call.code.length
    omega
  | _ => exact Nat.le_refl _

/-- Between its beginning and its end an executor stays in a call. -/
theorem Step.call_eq (step : Step s e s') (begins : ∀ call, e ≠ .called e.executor call)
    (ends : ∀ call result, e ≠ .returned e.executor call result) :
    (s'.phase e.executor).call = (s.phase e.executor).call := by
  cases step with
  | call => exact absurd rfl (begins _)
  | finish => exact absurd rfl (ends _ _)
  | look here | lock here | found here | missed here | lockStandalone here | allocate here | copy here
  | advance here | publish here | keep here | unlock here =>
    simp only [Event.executor, setPhase_self, here, Phase.call]

/-- Behind a call an executor is in none. -/
theorem Step.call_eq_none {call : Call} {result : Option (BitVec 32)}
    (step : Step s (.returned t call result) s') : (s'.phase t).call = none := by
  cases step
  rw [setPhase_self]
  rfl

/-- A call comes closer to its end. -/
theorem Step.left_lt (step : Step s e s') (ends : ∀ call result, e ≠ .returned e.executor call result) :
    (s'.phase e.executor).left < (s.phase e.executor).left := by
  cases step with
  | call idle =>
    simp only [Event.executor, setPhase_self, idle, Phase.left, Prod.Lex.toLex_lt_toLex]
    omega
  | @copy t call start remaining i byte here left =>
    simp only [Event.executor, setPhase_self, here, Phase.left, Prod.Lex.toLex_lt_toLex]
    exact .inr ⟨trivial, Finset.card_erase_lt_of_mem left⟩
  | look here | lock here | found here | missed here | lockStandalone here | allocate here
  | advance here | publish here | keep here | unlock here =>
    simp only [Event.executor, setPhase_self, here, Phase.left, Prod.Lex.toLex_lt_toLex]
    omega
  | finish here => exact absurd rfl (ends _ _)

/-! ### Calls go on -/

/-- A step moves one executor, which keeps or gives back the mutex if it had it. -/
theorem Live.moves (live : s.Live) {phase : Phase} (moved : s'.phase = Function.update s.phase t phase)
    (mutex : ∀ t', s'.mutex = some t' → if t' = t then phase.critical = true else s.mutex = some t')
    (proper : phase.Proper) : s'.Live where
  held t' held := by
    have holds := mutex t' held
    rw [moved]
    split at holds
    · next same =>
      rw [same, Function.update_self]
      exact holds
    · next other =>
      rw [Function.update_of_ne other]
      exact live.held t' holds
  proper t' := by
    rw [moved]
    by_cases same : t' = t
    · rw [same, Function.update_self]
      exact proper
    · rw [Function.update_of_ne same]
      exact live.proper t'

theorem Live.step (live : s.Live) (step : Step s e s') : s'.Live := by
  -- where the mutex stays, an executor that holds it was in the critical section and still is
  have keeps {t : Executor} {phase : Phase} (stays : (s.phase t).critical = true → phase.critical = true)
      (t' : Executor) (held : s.mutex = some t') :
      if t' = t then phase.critical = true else s.mutex = some t' := by
    split
    · next same => exact stays (same ▸ live.held t' held)
    · exact held
  cases step with
  | call idle => exact live.moves rfl (keeps fun critical => by rw [idle] at critical; cases critical) trivial
  | look here =>
    exact live.moves rfl (keeps fun critical => by rw [here] at critical; cases critical) fun _ => ⟨_, rfl⟩
  | @lock t =>
    refine live.moves rfl (fun t' held => ?_) ⟨_, _, rfl⟩
    cases held
    exact (if_pos rfl).mpr rfl
  | @lockStandalone t =>
    refine live.moves rfl (fun t' held => ?_) trivial
    cases held
    exact (if_pos rfl).mpr rfl
  | found here => exact live.moves rfl (keeps fun _ => rfl) trivial
  | missed here => exact live.moves rfl (keeps fun _ => rfl) trivial
  | allocate here => exact live.moves rfl (keeps fun _ => rfl) (Finset.Subset.refl _)
  | @copy t call start remaining i byte here =>
    have proper := live.proper t
    rw [here] at proper
    exact live.moves rfl (keeps fun _ => rfl) ((Finset.erase_subset _ _).trans proper)
  | advance here => exact live.moves rfl (keeps fun _ => rfl) trivial
  | publish here => exact live.moves rfl (keeps fun _ => rfl) trivial
  | keep here => exact live.moves rfl (keeps fun _ => rfl) trivial
  | unlock here => exact live.moves rfl (fun t' held => by cases held) (fun none => by cases none)
  | finish here =>
    exact live.moves rfl (keeps fun critical => by rw [here] at critical; cases critical) trivial

/-- What an executor in a call can do next. -/
inductive Ahead (s : SharedBuffer Executor) (t : Executor) : Prop
  | internal (e : Event Executor) (s' : SharedBuffer Executor) (mine : e.executor = t)
      (internal : e.internal = true) (step : Step s e s')
  | publish (guestAddress : Word) (code : MachineCode) (offset : BitVec 32)
      (here : s.phase t = .allocated (.insert guestAddress code) offset)
  | returns (call : Call) (result : Option (BitVec 32)) (here : s.phase t = .returning call result)
  | full (full : s.Full t)
  | waits (t' : Executor) (holds : s.mutex = some t') (other : t' ≠ t)

/-- In the critical section nothing is waited for. -/
theorem Inv.ahead_critical (inv : s.Inv) (live : s.Live) (critical : (s.phase t).critical = true) :
    (∃ e s', e.executor = t ∧ e.internal = true ∧ Step s e s') ∨
      (∃ guestAddress code offset, s.phase t = .allocated (.insert guestAddress code) offset) ∨ s.Full t := by
  have sound := inv.phases t
  have proper := live.proper t
  cases here : s.phase t with
  | idle | called | returning =>
    rw [here] at critical
    cases critical
  | locked call =>
    rw [here] at proper
    obtain ⟨guestAddress, code, rfl⟩ := proper
    have admitted := inv.admitted t (.insert guestAddress code) (by rw [here]; rfl)
    have got := CodeBuffer.get_of_admits admitted.1
    split at got
    · exact .inl ⟨_, _, rfl, rfl, .found here got⟩
    · exact .inl ⟨_, _, rfl, rfl, .missed here got⟩
  | allocating call =>
    by_cases fits : CodeBuffer.alignedOffset s.buffer.nextFreeOffset + call.code.length ≤ s.buffer.size
    · exact .inl ⟨_, _, rfl, rfl, .allocate here rfl fits⟩
    · exact .inr (.inr ⟨call, here, Nat.lt_of_not_le fits⟩)
  | copying call start remaining =>
    rw [here] at proper
    -- another byte, or the end of the copy
    rcases remaining.eq_empty_or_nonempty with rfl | ⟨i, left⟩
    · exact .inl ⟨_, _, rfl, rfl, .advance here rfl⟩
    · have inside := Finset.mem_range.mp (proper left)
      exact .inl ⟨_, _, rfl, rfl, .copy here left (List.getElem?_eq_getElem inside)⟩
  | allocated call offset =>
    rw [here] at sound
    cases call with
    | get guestAddress => exact absurd rfl sound.1.1
    | insert guestAddress code => exact .inr (.inl ⟨_, _, _, rfl⟩)
    | insertStandalone code => exact .inl ⟨_, _, rfl, rfl, .keep here⟩
  | unlocking call offset => exact .inl ⟨_, _, rfl, rfl, .unlock here⟩

theorem Inv.ahead (inv : s.Inv) (live : s.Live) (busy : s.phase t ≠ .idle) : s.Ahead t := by
  by_cases critical : (s.phase t).critical = true
  · rcases inv.ahead_critical live critical with ⟨e, s', mine, internal, step⟩ | ⟨_, _, _, here⟩ | full
    · exact .internal e s' mine internal step
    · exact .publish _ _ _ here
    · exact .full full
  · cases here : s.phase t with
    | idle => exact absurd here busy
    | locked | allocating | copying | allocated | unlocking =>
      rw [here] at critical
      exact absurd rfl critical
    | returning call result => exact .returns call result here
    | called call =>
      have admitted := inv.admitted t call (by rw [here]; rfl)
      -- a `get` looks at once, the others need the mutex
      cases call with
      | get guestAddress => exact .internal _ _ rfl rfl (.look here (CodeBuffer.get_of_admits admitted))
      | insert guestAddress code =>
        cases free : s.mutex with
        | none => exact .internal _ _ rfl rfl (.lock here free)
        | some t' =>
          refine .waits t' free ?_
          rintro rfl
          exact critical (live.held _ free)
      | insertStandalone code =>
        cases free : s.mutex with
        | none => exact .internal _ _ rfl rfl (.lockStandalone here free)
        | some t' =>
          refine .waits t' free ?_
          rintro rfl
          exact critical (live.held _ free)

end SharedBuffer

end Riscv64Emulator.Jit
