import Riscv64Emulator.Jit.Threads

/-!
# Threads that run one program

Threads with one code buffer, next to their interpreters. A thread relies on the others for no more
than blocks of its program in the table, and on the executor with the mutex to give it back.
-/
namespace Riscv64Emulator.Jit

open Interference (System)
open Interpreter (Run)

/-! ### A thread next to its interpreter -/

section Thread

variable {Thread : Type} {host : Host} {assembler : Assembler host.arch} {build : Build}
  {layouts : Thread → Layout} {singleStep : Bool} {vm final : Thread → VmState} {t : Thread}
  {left : ℕ ×ₗ ℕ ×ₗ ℕ ×ₗ ℕ} {spot spot' : Spot host.arch} {c c' : SharedCode host.arch Thread} {n : Nat}

/-- A thread at a place next to its interpreter's run. What is left are steps of the interpreter, then places
and phases up to the next of them. -/
structure KeepsUp (host : Host) (assembler : Assembler host.arch) (layouts : Thread → Layout)
    (singleStep : Bool) (vm final : Thread → VmState) (t : Thread) (left : ℕ ×ₗ ℕ ×ₗ ℕ ×ₗ ℕ)
    (spot : Spot host.arch) (c : SharedCode host.arch Thread) : Prop where
  proper : spot.Proper assembler singleStep (vm t).memory.size t c
  tracks : ∃ n, left = toLex (n, toLex (spot.rank, (c.calls.phase t).left)) ∧
    Tracks host ⟨layouts t, singleStep⟩ (vm t) (final t) n (spot.place.config c.view)

/-- A missing block can be compiled where it was looked up. -/
theorem Tracks.compile {v final : VmState} {vm : VmState} {buffer : Buffer host.arch}
    (tracks : Tracks host build vm final n (.lookup v buffer)) :
    Tracks host build vm final n (.compile v buffer) := by
  obtain ⟨sound, same, current, beside⟩ := tracks
  cases beside with
  | lookup run ends table => exact ⟨sound, same, current, .compile run ends table⟩

/-- Where the table leads to. -/
theorem KeepsUp.published (keeps : KeepsUp host assembler layouts singleStep vm final t left spot c)
    {index : Nat} (inside : index < c.calls.buffer.maxBlocks.toNat)
    (published : c.calls.buffer.blockToOffset index ≠ 0) :
    ∃ block, block.pc.toNat = 4 * index ∧
      c.Whole assembler (vm t) (c.calls.buffer.blockToOffset index) block := by
  obtain ⟨⟨sound, -, -⟩, n, -, tracks⟩ := keeps
  obtain ⟨block, here, at_pc, bytes⟩ := sound.whole inside published
  have current := tracks.current
  rw [Place.buffer_config] at current
  have code := current index inside published block (congrArg (Option.map Written.block) here)
  exact ⟨block, at_pc, here, code, bytes⟩

/-- Where a thread is. -/
theorem KeepsUp.executed {exit : Exit} {block : CompiledBlock host.arch.Code} {state : host.arch.State}
    (keeps : KeepsUp host assembler layouts singleStep vm final t left
      (.running (.inside exit block state)) c) :
    ∃ offset, c.Whole assembler (vm t) offset block := by
  obtain ⟨⟨sound, -, offset, here⟩, n, -, tracks⟩ := keeps
  cases tracks.beside with
  | inside _ _ _ _ _ holds => exact ⟨offset, here, holds, sound.holds here⟩

variable [DecidableEq Thread]

theorem KeepsUp.grows (keeps : KeepsUp host assembler layouts singleStep vm final t left spot c)
    (step : ThreadStep assembler ⟨layouts t, singleStep⟩ t (spot, c) (spot', c')) :
    c.Grows assembler singleStep (vm t).memory.size c' ∧ ∀ t' ≠ t, c'.calls.phase t' = c.calls.phase t' := by
  obtain ⟨proper, n, -, tracks⟩ := keeps
  refine proper.grows ?_ step
  rintro v code rfl
  exact tracks.sound.2.size

/-- What a thread publishes, another one that has its code can run. -/
theorem KeepsUp.current (keeps : KeepsUp host assembler layouts singleStep vm final t left spot c)
    (step : ThreadStep assembler ⟨layouts t, singleStep⟩ t (spot, c) (spot', c')) {vm' : VmState}
    (holds : ∀ v, Run (vm t) v → HoldsCode vm' v.memory) (current : Current vm' c.view) :
    Current vm' c'.view := by
  obtain ⟨⟨sound, -, -⟩, n, -, tracks⟩ := keeps
  rcases step.shared with rfl | ⟨e, calls', mine, kept, stepped, rfl⟩ |
    ⟨v, code, calls', offset, rfl, stepped, rfl⟩
  · exact current
  · -- a step inside of a call leaves the table and the blocks
    intro index inside published block here
    replace inside : index < calls'.buffer.maxBlocks.toNat := inside
    replace published : calls'.buffer.blockToOffset index ≠ 0 := published
    replace here : (c.blocks (calls'.buffer.blockToOffset index)).map Written.block
      = some (.block block) := here
    rw [stepped.maxBlocks] at inside
    rw [stepped.table kept] at published here
    exact current index inside published block here
  · -- a publication: the new block holds the code of the thread's memory
    intro index inside published block here
    replace inside : index < calls'.buffer.maxBlocks.toNat := inside
    replace here : ((c.published calls' offset _).blocks (calls'.buffer.blockToOffset index)).map
      Written.block = some (.block block) := here
    rw [stepped.maxBlocks] at inside
    rcases sound.published_cases _ stepped inside published with ⟨-, new⟩ | ⟨-, published', same⟩
    · rw [new] at here
      cases here
      cases tracks.beside with
      | compile run => exact holds v run
    · rw [same] at here
      exact current index inside published' block here

/-- A step of a thread brings it closer to its end. -/
theorem KeepsUp.advances (keeps : KeepsUp host assembler layouts singleStep vm final t left spot c)
    (unmodified : ∀ v, Run (vm t) v → HoldsCode (vm t) v.memory)
    (step : ThreadStep assembler ⟨layouts t, singleStep⟩ t (spot, c) (spot', c')) :
    ∃ left' < left, KeepsUp host assembler layouts singleStep vm final t left' spot' c' := by
  have grows := (keeps.grows step).1
  have current := keeps.current step unmodified
  obtain ⟨proper, n, rfl, tracks⟩ := keeps
  have proper' := step.proper proper grows
  -- steps of the interpreter count first, then places and phases
  have closer {n' : ℕ} {p p' : ℕ ×ₗ ℕ ×ₗ ℕ} (lower : n' < n ∨ n' = n ∧ p' < p) :
      toLex (n', p') < toLex (n, p) := Prod.Lex.toLex_lt_toLex.mpr lower
  have passes {r r' : ℕ} {p p' : ℕ ×ₗ ℕ} (lower : r' < r) : toLex (r', p') < toLex (r, p) :=
    Prod.Lex.toLex_lt_toLex.mpr (.inl lower)
  rcases step.moves proper with ⟨same, lower⟩ | ⟨v, rfl, rfl⟩ | ⟨view, ⟨place, rfl⟩, next⟩
  -- a phase of a call is passed
  · refine ⟨_, closer (.inr ⟨rfl, lower⟩), proper', n, rfl, ?_⟩
    rw [same]
    exact grows.grown.tracks current tracks
  -- a block is missing
  · exact ⟨_, closer (.inr ⟨rfl, passes (show 6 < 8 by decide)⟩), proper', n, rfl,
      grows.grown.tracks current tracks.compile⟩
  -- the run makes a step
  · obtain ⟨n', tracks', lower⟩ := tracks.descends unmodified next
    have rank := spot.le_rank c.view
    have rank' := Spot.rank_running place c.view
    have ranks (less : ((Spot.running place).place.config c.view).rank < (spot.place.config c.view).rank) :
        (Spot.running place).rank < spot.rank := by
      change (place.config c.view).rank < _ at less
      omega
    refine ⟨_, closer (lower.imp_right fun ⟨same, less⟩ => ⟨same, passes (ranks less)⟩), proper', n', rfl, ?_⟩
    rw [view]
    exact tracks'

/-- A thread whose executor can not compile a block, or has no room for its code or trampoline. -/
def Fails (host : Host) (singleStep : Bool) (t : Thread) (spot : Spot host.arch)
    (c : SharedCode host.arch Thread) : Prop :=
  (∃ v, spot = .running (.compile v) ∧
    host.Lacks c.view.flags c.view.maxBlocks v.memory singleStep v.cpu.pc) ∨ c.calls.Full t

/-- Outside of the compiler a step leaves the buffer as it is. -/
theorem Next.keeps {k k' : Config host.arch} (next : Next host.arch build k k')
    (elsewhere : ∀ vm buffer, k ≠ .compile vm buffer) : Next host.arch build k (k'.place.config k.buffer) := by
  rcases next.inserts with same | ⟨v, code, offset, here, -⟩
  · rwa [← same, Config.config_place]
  · exact absurd here (elsewhere _ _)

/-- In a call there are the room in the buffer and the mutex to wait for. -/
theorem KeepsUp.goesOn_busy (keeps : KeepsUp host assembler layouts singleStep vm final t left spot c)
    (busy : c.calls.phase t ≠ .idle) :
    (∃ spot' c', ThreadStep assembler ⟨layouts t, singleStep⟩ t (spot, c) (spot', c')) ∨
      c.calls.Full t ∨ ∃ t', t' ≠ t ∧ c.calls.mutex = some t' := by
  obtain ⟨leftover⟩ := host.nonempty_leftover
  obtain ⟨⟨sound, calls, -⟩, -⟩ := keeps
  cases sound.inv.ahead sound.live busy with
  | internal e s' mine internal step => exact .inl ⟨_, _, .within mine internal step⟩
  | full full => exact .inr (.inl full)
  | waits t' holds other => exact .inr (.inr ⟨t', other, holds⟩)
  | publish guestAddress code offset here =>
    rw [here] at calls
    -- only a thread that inserts publishes
    rcases Spot.calls_cases calls with ⟨v, rfl, same⟩ | ⟨v, code', rfl, same⟩ | ⟨v, rfl, same⟩
    · cases same
    · cases same
      exact .inl ⟨_, _, .publish (.publish here)⟩
    · cases same
  | returns call result here =>
    -- the call returns to the constructor, to the insertion of a block, or to the lookup
    have proper := sound.live.proper t
    rw [here] at calls proper
    rcases Spot.calls_cases calls with ⟨v, rfl, rfl⟩ | ⟨v, code', rfl, rfl⟩ | ⟨v, rfl, rfl⟩
    · cases result with
      | none => obtain ⟨_, ⟨⟩⟩ := proper rfl
      | some offset => exact .inl ⟨_, _, .constructed (.finish here)⟩
    · cases result with
      | none => obtain ⟨_, ⟨⟩⟩ := proper rfl
      | some offset =>
        obtain ⟨block, there⟩ := sound.block_of_get (sound.get_of_returning here rfl)
        exact .inl ⟨_, _, .inserted leftover (.finish here) there⟩
    · cases result with
      | none => exact .inl ⟨_, _, .miss (.finish here)⟩
      | some offset =>
        obtain ⟨block, there⟩ := sound.block_of_get (sound.get_of_returning here rfl)
        exact .inl ⟨_, _, .hit leftover (.finish here) there⟩

/-- The executor with the mutex waits for nobody, and is not done. -/
theorem KeepsUp.holder (keeps : KeepsUp host assembler layouts singleStep vm final t left spot c)
    (holds : c.calls.mutex = some t) :
    (∃ spot' c', ThreadStep assembler ⟨layouts t, singleStep⟩ t (spot, c) (spot', c')) ∨
      Fails host singleStep t spot c := by
  have busy : c.calls.phase t ≠ .idle := by
    intro idle
    have critical := keeps.proper.sound.live.held t holds
    rw [idle] at critical
    cases critical
  rcases keeps.goesOn_busy busy with goes | full | ⟨t', other, holds'⟩
  · exact .inl goes
  · exact .inr (.inr full)
  · exact absurd (Option.some.inj (holds'.symm.trans holds)) other

end Thread

/-! ### All threads -/

section Threads

variable {Thread : Type} [DecidableEq Thread] {host : Host} {layouts : Thread → Layout} {singleStep : Bool}
  {vm final : Thread → VmState}

end Threads

end Riscv64Emulator.Jit
