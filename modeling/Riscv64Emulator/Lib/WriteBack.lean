import Mathlib.Logic.Function.Basic

/-!
# Write-back caches

A directory says which key each slot of a cache holds and which slots are dirty. Slots and
backing store together represent one function of the keys: a dirty slot is authoritative, a
clean key is found in the store. The operations of a cache keep what is represented, and
flushing the dirty slots leaves it in the store.

A slot that was taken for a key whose value is about to be overwritten holds nothing useful
yet. Such keys are stale; `Represents` asks nothing of their slots while they are clean.
-/
namespace WriteBack

variable {ν κ V : Type}

/-- The key each slot holds, and whether the slot is newer than the store. -/
@[ext] structure Directory (ν κ : Type) where
  key : ν → Option κ
  dirty : ν → Bool

namespace Directory

/-- No key is in two slots. -/
def Unique (d : Directory ν κ) : Prop := ∀ i j k, d.key i = some k → d.key j = some k → i = j

/-- The keys whose only current value is in a slot. -/
def snapshot (d : Directory ν κ) : ν → Option κ := fun i => if d.dirty i then d.key i else none

variable [DecidableEq ν]

/-- Empty a slot. -/
def evict (d : Directory ν κ) (i : ν) : Directory ν κ where
  key := Function.update d.key i none
  dirty := Function.update d.dirty i false

/-- Give a slot a key. -/
def assign (d : Directory ν κ) (i : ν) (k : κ) : Directory ν κ where
  key := Function.update d.key i (some k)
  dirty := Function.update d.dirty i false

def markDirty (d : Directory ν κ) (i : ν) : Directory ν κ :=
  { d with dirty := Function.update d.dirty i true }

end Directory

/-- Write a slot back under a key, if there is one. -/
def writeBack [DecidableEq κ] (key : Option κ) (v : V) (store : κ → V) : κ → V :=
  match key with
  | some k => Function.update store k v
  | none => store

/-- Write the slots of a snapshot back, in the order of a list. -/
def flush [DecidableEq κ] (snapshot : ν → Option κ) (cells : ν → V) : List ν → (κ → V) → κ → V
  | [], store => store
  | i :: rest, store => flush snapshot cells rest (writeBack (snapshot i) (cells i) store)

/-- Slots and store represent `f`. -/
structure Represents (d : Directory ν κ) (cells : ν → V) (store f : κ → V) (stale : κ → Prop) :
    Prop where
  held : ∀ i k, d.key i = some k → d.dirty i = true ∨ ¬stale k → cells i = f k
  kept : ∀ k, (∀ i, d.key i = some k → d.dirty i = false) → store k = f k

namespace Represents

variable {d : Directory ν κ} {cells : ν → V} {store f : κ → V} {stale : κ → Prop}

/-- Only the keys of clean slots can be stale. -/
theorem settle (represents : Represents d cells store f stale) {stale' : κ → Prop}
    (settled : ∀ i k, d.key i = some k → d.dirty i = false → stale k → stale' k) :
    Represents d cells store f stale' where
  held i k here current := by
    refine represents.held i k here ?_
    cases clean : d.dirty i with
    | true => exact Or.inl rfl
    | false =>
      refine Or.inr fun holds => ?_
      rcases current with dirty | fresh
      · exact absurd dirty (by simp [clean])
      · exact fresh (settled i k here clean holds)
  kept := represents.kept

/-- What no slot holds is in the store. -/
theorem absent (represents : Represents d cells store f stale) {k : κ}
    (nowhere : ∀ i, d.key i ≠ some k) : store k = f k :=
  represents.kept k fun i here => absurd here (nowhere i)

section Slots

variable [DecidableEq ν] [DecidableEq κ]

/-- Evict a slot, writing it back when it is dirty. -/
theorem evict (represents : Represents d cells store f stale) (i : ν) :
    Represents (d.evict i) cells (writeBack (d.snapshot i) (cells i) store) f stale where
  held j k here current := by
    have other : j ≠ i := by
      rintro rfl
      simp [Directory.evict] at here
    simp only [Directory.evict, Function.update_of_ne other] at here current
    exact represents.held j k here current
  kept k clean := by
    have elsewhere : ∀ j, j ≠ i → d.key j = some k → d.dirty j = false := by
      intro j other here
      have := clean j
      simpa only [Directory.evict, Function.update_of_ne other, here, true_implies] using this
    unfold Directory.snapshot writeBack
    -- a dirty cell is written back, so its key's slot is right; no other slot changed
    by_cases dirty : d.dirty i = true
    · rw [if_pos dirty]
      cases here : d.key i with
      | none =>
        refine represents.kept k fun j there => elsewhere j ?_ there
        rintro rfl
        exact absurd there (by simp [here])
      | some k' =>
        by_cases same : k = k'
        · subst same
          simp only [Function.update_self]
          exact represents.held i k here (Or.inl dirty)
        · simp only [Function.update_of_ne same]
          refine represents.kept k fun j there => elsewhere j ?_ there
          rintro rfl
          exact same (Option.some.inj (there.symm.trans here))
    -- a clean cell is dropped: the store already has its value
    · rw [if_neg dirty]
      refine represents.kept k fun j there => ?_
      by_cases same : j = i
      · subst same
        simpa using dirty
      · exact elsewhere j same there

end Slots

section Assign

variable [DecidableEq ν] {i : ν} {k : κ}

private theorem kept_assign (represents : Represents d cells store f stale)
    (nowhere : ∀ j, d.key j ≠ some k) (free : d.key i = none) (q : κ)
    (clean : ∀ j, (d.assign i k).key j = some q → (d.assign i k).dirty j = false) :
    store q = f q := by
  by_cases same : q = k
  · rw [same]
    exact represents.absent nowhere
  · refine represents.kept q fun j here => ?_
    have other : j ≠ i := by
      rintro rfl
      simp [free] at here
    simpa only [Directory.assign, Function.update_of_ne other, here, true_implies] using clean j

/-- Load a key into a free slot. -/
theorem load (represents : Represents d cells store f stale) (nowhere : ∀ j, d.key j ≠ some k)
    (free : d.key i = none) {cells' : ν → V} (loaded : cells' i = store k)
    (others : ∀ j, j ≠ i → cells' j = cells j) :
    Represents (d.assign i k) cells' store f stale where
  held j q here current := by
    -- the new cell was filled from the store, which is right as no cell held `k`
    by_cases same : j = i
    · subst same
      simp only [Directory.assign, Function.update_self, Option.some.injEq] at here
      rw [← here, loaded]
      exact represents.absent nowhere
    · simp only [Directory.assign, Function.update_of_ne same] at here current
      rw [others j same]
      exact represents.held j q here current
  kept := kept_assign represents nowhere free

/-- Take a free slot for a key that is about to be written. -/
theorem reserve (represents : Represents d cells store f stale) (nowhere : ∀ j, d.key j ≠ some k)
    (free : d.key i = none) (unread : stale k) :
    Represents (d.assign i k) cells store f stale where
  held j q here current := by
    -- nothing reads the new cell before it is written
    by_cases same : j = i
    · subst same
      simp only [Directory.assign, Function.update_self, Option.some.injEq] at here current
      subst here
      rcases current with dirty | fresh
      · cases dirty
      · exact absurd unread fresh
    · simp only [Directory.assign, Function.update_of_ne same] at here current
      exact represents.held j q here current
  kept := kept_assign represents nowhere free

end Assign

/-- Write a key in its slot. -/
theorem write [DecidableEq ν] [DecidableEq κ] (represents : Represents d cells store f stale)
    (unique : d.Unique) {i : ν} {k : κ} (here : d.key i = some k) (v : V) {cells' : ν → V}
    (written : cells' i = v) (others : ∀ j, j ≠ i → cells' j = cells j) :
    Represents (d.markDirty i) cells' store (Function.update f k v) stale where
  held j q there current := by
    simp only [Directory.markDirty] at there current
    by_cases same : j = i
    · subst same
      have key : k = q := Option.some.inj (here.symm.trans there)
      rw [← key, Function.update_self, written]
    -- two cells do not share a key, so no other cell held the old value
    · have apart : q ≠ k := by
        rintro rfl
        exact same (unique j i q there here)
      rw [Function.update_of_ne apart, others j same]
      rw [Function.update_of_ne same] at current
      exact represents.held j q there current
  kept q clean := by
    have apart : q ≠ k := by
      rintro rfl
      have := clean i here
      simp [Directory.markDirty] at this
    rw [Function.update_of_ne apart]
    refine represents.kept q fun j there => ?_
    have other : j ≠ i := by
      rintro rfl
      exact apart (Option.some.inj (there.symm.trans here))
    simpa only [Directory.markDirty, Function.update_of_ne other] using clean j there

/-- The slots represent the same beside the represented function itself. -/
theorem written (represents : Represents d cells store f stale) :
    Represents d cells f f stale := ⟨represents.held, fun _ _ => rfl⟩

/-- A flush leaves the represented function in the store. -/
theorem flush [DecidableEq κ] (represents : Represents d cells store f stale) {slots : List ν}
    (all : ∀ i, i ∈ slots) : WriteBack.flush d.snapshot cells slots store = f := by
  -- every write agrees with `f`, and what is not written back is there already
  have walk : ∀ (slots : List ν) (store' : κ → V),
      (∀ k, (∀ i ∈ slots, d.snapshot i ≠ some k) → store' k = f k) →
      WriteBack.flush d.snapshot cells slots store' = f := by
    intro slots
    induction slots with
    | nil => exact fun store' correct => funext fun k => correct k fun i member => by cases member
    | cons i rest ih =>
      intro store' correct
      refine ih _ fun k later => ?_
      unfold writeBack
      cases here : d.snapshot i with
      | none =>
        refine correct k fun j member => ?_
        rcases List.mem_cons.mp member with rfl | member
        · simp [here]
        · exact later j member
      | some k' =>
        by_cases same : k = k'
        · subst same
          simp only [Function.update_self]
          have dirty : d.dirty i = true := by
            by_contra clean
            simp [Directory.snapshot, clean] at here
          refine represents.held i k ?_ (Or.inl dirty)
          simpa [Directory.snapshot, dirty] using here
        · simp only [Function.update_of_ne same]
          refine correct k fun j member => ?_
          rcases List.mem_cons.mp member with rfl | member
          · simpa [here] using Ne.symm same
          · exact later j member
  refine walk slots store fun k unwritten => represents.kept k fun i here => ?_
  by_contra dirty
  have := unwritten i (all i)
  simp [Directory.snapshot, dirty, here] at this

end Represents

end WriteBack
