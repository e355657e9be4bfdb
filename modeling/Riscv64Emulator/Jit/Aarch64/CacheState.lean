import Riscv64Emulator.Jit.Aarch64.RegisterCache
import Riscv64Emulator.Lib.WriteBack
import Mathlib.Data.Finset.Card
import Mathlib.Data.Fintype.Card

/-!
# The bookkeeping of the register cache

The tables of a `RegisterCache` stay consistent, and the operations that lock registers
always find the slots they need: three registers of one instruction fit beside what is
locked already. What an operation leaves behind is a pure function here, next to the
emitting one of the source.
-/
namespace Riscv64Emulator.Jit.Aarch64

namespace RegisterCache

/-- Which register a slot holds, as the directory of a write-back cache. -/
def directory (c : RegisterCache) : WriteBack.Directory SlotId Register where
  key id := if (c.slots id).reg = Register.zero then none else some (c.slots id).reg
  dirty id := (c.slots id).dirty

/-- The tables agree with each other. -/
structure WF (c : RegisterCache) : Prop where
  placed : ∀ r id, c.registerToSlot r = some id ↔ r ≠ Register.zero ∧ (c.slots id).reg = r
  free : ∀ id, id ∈ c.freeSlots ↔ (c.slots id).reg = Register.zero
  nodup : c.freeSlots.Nodup
  idle : ∀ id, (c.slots id).reg = Register.zero →
    (c.slots id).locked = false ∧ (c.slots id).dirty = false
  below : ∀ id, (c.slots id).reg ≠ Register.pc

/-- The part of it that no call can break, whatever it is given. -/
structure Tables (c : RegisterCache) : Prop where
  placed : ∀ r id, c.registerToSlot r = some id ↔ r ≠ Register.zero ∧ (c.slots id).reg = r
  free : ∀ id, id ∈ c.freeSlots ↔ (c.slots id).reg = Register.zero
  nodup : c.freeSlots.Nodup

theorem WF.tables {c : RegisterCache} (wf : c.WF) : c.Tables := ⟨wf.placed, wf.free, wf.nodup⟩

/-- The empty cache a block starts with. -/
theorem WF.empty : WF {} where
  placed r id := by
    constructor
    · exact fun h => by cases h
    · rintro ⟨nonzero, rfl⟩
      exact absurd rfl nonzero
  free id := by simp
  nodup := List.nodup_reverse.mpr (List.nodup_finRange _)
  idle _ _ := ⟨rfl, rfl⟩
  below _ h := by cases h

@[simp] theorem slots_setSlot (c : RegisterCache) (id : SlotId) (slot : Slot) (q : SlotId) :
    (c.setSlot id slot).slots q = if q = id then slot else c.slots q := rfl

@[simp] theorem registerToSlot_setSlot (c : RegisterCache) (id : SlotId) (slot : Slot) :
    (c.setSlot id slot).registerToSlot = c.registerToSlot := rfl

@[simp] theorem freeSlots_setSlot (c : RegisterCache) (id : SlotId) (slot : Slot) :
    (c.setSlot id slot).freeSlots = c.freeSlots := rfl

@[simp] theorem slots_setPlace (c : RegisterCache) (r : Register) (place : Option SlotId) :
    (c.setPlace r place).slots = c.slots := rfl

@[simp] theorem registerToSlot_setPlace (c : RegisterCache) (r : Register) (place : Option SlotId)
    (q : Register) :
    (c.setPlace r place).registerToSlot q = if q = r then place else c.registerToSlot q := rfl

@[simp] theorem freeSlots_setPlace (c : RegisterCache) (r : Register) (place : Option SlotId) :
    (c.setPlace r place).freeSlots = c.freeSlots := rfl

section Tables

variable {c : RegisterCache}

theorem WF.key_iff (wf : c.WF) {id : SlotId} {r : Register} :
    c.directory.key id = some r ↔ c.registerToSlot r = some id := by
  rw [wf.placed]
  simp only [directory]
  by_cases empty : (c.slots id).reg = Register.zero
  · rw [if_pos empty, empty]
    constructor
    · exact fun h => by cases h
    · rintro ⟨nonzero, rfl⟩
      exact absurd rfl nonzero
  · rw [if_neg empty, Option.some.injEq]
    constructor
    · rintro rfl
      exact ⟨empty, rfl⟩
    · exact fun both => both.2

theorem WF.unique (wf : c.WF) : c.directory.Unique := by
  intro i j r here there
  exact Option.some.inj ((wf.key_iff.mp here).symm.trans (wf.key_iff.mp there))

theorem WF.place_zero (wf : c.WF) : c.registerToSlot Register.zero = none := by
  cases place : c.registerToSlot Register.zero with
  | none => rfl
  | some id => exact absurd rfl ((wf.placed _ id).mp place).1

/-- A locked slot holds a register. -/
theorem WF.occupied (wf : c.WF) {id : SlotId} (locked : (c.slots id).locked = true) :
    (c.slots id).reg ≠ Register.zero := fun empty => by
  rw [(wf.idle id empty).1] at locked
  cases locked

/-- No slot changes the register it holds. -/
theorem reg_setSlot {id : SlotId} {slot : Slot} (same : slot.reg = (c.slots id).reg) (q : SlotId) :
    ((c.setSlot id slot).slots q).reg = (c.slots q).reg := by
  rw [slots_setSlot]
  split
  next here => rw [here, same]
  next => rfl

/-- Change a slot that keeps its register. -/
theorem Tables.setSlot (tables : c.Tables) {id : SlotId} {slot : Slot}
    (same : slot.reg = (c.slots id).reg) : (c.setSlot id slot).Tables where
  placed r q := by
    rw [reg_setSlot same]
    exact tables.placed r q
  free q := by
    rw [reg_setSlot same]
    exact tables.free q
  nodup := tables.nodup

theorem WF.setSlot (wf : c.WF) {id : SlotId} {slot : Slot} (same : slot.reg = (c.slots id).reg)
    (occupied : (c.slots id).reg ≠ Register.zero) : (c.setSlot id slot).WF := by
  obtain ⟨placed, free, nodup⟩ := wf.tables.setSlot same
  refine ⟨placed, free, nodup, fun q empty => ?_, fun q => ?_⟩
  · rw [reg_setSlot same] at empty
    have other : q ≠ id := fun h => occupied (h ▸ empty)
    rw [slots_setSlot, if_neg other]
    exact wf.idle q empty
  · rw [reg_setSlot same]
    exact wf.below q

theorem directory_setSlot {id : SlotId} {slot : Slot} (reg : slot.reg = (c.slots id).reg)
    (dirty : slot.dirty = (c.slots id).dirty) : (c.setSlot id slot).directory = c.directory := by
  ext1 <;> funext q <;> simp only [directory, slots_setSlot] <;> split
  next here => rw [here, reg]
  next => rfl
  next here => rw [here, dirty]
  next => rfl

end Tables

/-! ### Evictions -/

/-- What `evict` leaves behind. -/
def evictSlot (c : RegisterCache) (id : SlotId) : RegisterCache :=
  { (c.setPlace (c.slots id).reg none).setSlot id {} with freeSlots := id :: c.freeSlots }

def evictSlots (c : RegisterCache) (ids : List SlotId) : RegisterCache := ids.foldl evictSlot c

section Evictions

variable {c : RegisterCache}

theorem directory_evictSlot (c : RegisterCache) (id : SlotId) :
    (c.evictSlot id).directory = c.directory.evict id := by
  ext1 <;> funext q <;>
    simp only [directory, evictSlot, slots_setSlot, slots_setPlace, WriteBack.Directory.evict,
      Function.update_apply] <;> split <;> rfl

theorem slots_evictSlot_of_ne (c : RegisterCache) {id q : SlotId} (other : q ≠ id) :
    (c.evictSlot id).slots q = c.slots q := by
  simp only [evictSlot, slots_setSlot, if_neg other, slots_setPlace]

theorem slots_evictSlot_self (c : RegisterCache) (id : SlotId) : (c.evictSlot id).slots id = {} := by
  simp only [evictSlot, slots_setSlot, if_true]

theorem Tables.evictSlot (tables : c.Tables) {id : SlotId} (occupied : (c.slots id).reg ≠ Register.zero) :
    (c.evictSlot id).Tables := by
  have emptied := slots_evictSlot_self c id
  constructor
  · intro r q
    by_cases same : q = id
    · subst same
      rw [emptied]
      simp only [RegisterCache.evictSlot, registerToSlot_setSlot, registerToSlot_setPlace]
      constructor
      · intro place
        split at place
        · cases place
        next moved =>
          exact absurd ((tables.placed r q).mp place).2.symm moved
      · rintro ⟨nonzero, rfl⟩
        exact absurd rfl nonzero
    -- another slot keeps its register, and no other register led to the evicted one
    · rw [slots_evictSlot_of_ne c same, ← tables.placed]
      simp only [RegisterCache.evictSlot, registerToSlot_setSlot, registerToSlot_setPlace]
      split
      next here =>
        subst here
        have place := (tables.placed _ id).mpr ⟨occupied, rfl⟩
        rw [place]
        simp [Ne.symm same]
      next => rfl
  · intro q
    by_cases same : q = id
    · subst same
      rw [emptied]
      simp [RegisterCache.evictSlot]
    · rw [slots_evictSlot_of_ne c same, ← tables.free]
      simp [RegisterCache.evictSlot, same]
  · exact List.nodup_cons.mpr ⟨fun member => occupied ((tables.free id).mp member), tables.nodup⟩

theorem WF.evictSlot (wf : c.WF) {id : SlotId} (occupied : (c.slots id).reg ≠ Register.zero) :
    (c.evictSlot id).WF := by
  have emptied := slots_evictSlot_self c id
  obtain ⟨placed, free, nodup⟩ := wf.tables.evictSlot occupied
  refine ⟨placed, free, nodup, fun q => ?_, fun q => ?_⟩
  · by_cases same : q = id
    · subst same
      rw [emptied]
      exact fun _ => ⟨rfl, rfl⟩
    · rw [slots_evictSlot_of_ne c same]
      exact wf.idle q
  · by_cases same : q = id
    · subst same
      rw [emptied]
      exact fun h => by cases h
    · rw [slots_evictSlot_of_ne c same]
      exact wf.below q

/-- The occupied slots `ids` are distinct, so that evicting one leaves the others occupied. -/
theorem occupied_evictSlot {id : SlotId} {rest : List SlotId} (absent : id ∉ rest)
    (occupied : ∀ q ∈ id :: rest, (c.slots q).reg ≠ Register.zero) :
    ∀ q ∈ rest, ((c.evictSlot id).slots q).reg ≠ Register.zero := by
  intro q member
  have other : q ≠ id := fun same => absent (same ▸ member)
  rw [slots_evictSlot_of_ne c other]
  exact occupied q (List.mem_cons_of_mem _ member)

theorem Tables.evictSlots (tables : c.Tables) {ids : List SlotId} (nodup : ids.Nodup)
    (occupied : ∀ id ∈ ids, (c.slots id).reg ≠ Register.zero) : (c.evictSlots ids).Tables := by
  induction ids generalizing c with
  | nil => exact tables
  | cons id rest ih =>
    obtain ⟨absent, nodup⟩ := List.nodup_cons.mp nodup
    exact ih (tables.evictSlot (occupied id List.mem_cons_self)) nodup (occupied_evictSlot absent occupied)

/-- The slots `ids` were emptied, the others are as they were. -/
structure Evicts (c c' : RegisterCache) (ids : List SlotId) : Prop where
  wf : c'.WF
  emptied : ∀ id ∈ ids, c'.slots id = {}
  same : ∀ id, id ∉ ids → c'.slots id = c.slots id
  free : c'.freeSlots.length = c.freeSlots.length + ids.length
  places : ∀ r id, c'.registerToSlot r = some id → c.registerToSlot r = some id

theorem WF.evictSlots (wf : c.WF) {ids : List SlotId} (nodup : ids.Nodup)
    (occupied : ∀ id ∈ ids, (c.slots id).reg ≠ Register.zero) :
    Evicts c (c.evictSlots ids) ids := by
  induction ids generalizing c with
  | nil =>
    exact ⟨wf, fun _ member => absurd member List.not_mem_nil, fun _ _ => rfl, rfl,
      fun _ _ place => place⟩
  | cons id rest ih =>
    obtain ⟨absent, nodup⟩ := List.nodup_cons.mp nodup
    -- the other slots are occupied still, as this one is not among them
    have later := ih (wf.evictSlot (occupied id List.mem_cons_self)) nodup
      (occupied_evictSlot absent occupied)
    constructor
    · exact later.wf
    · intro q member
      rcases List.mem_cons.mp member with rfl | member
      · exact (later.same q absent).trans (slots_evictSlot_self c q)
      · exact later.emptied q member
    · intro q outside
      rw [List.mem_cons, not_or] at outside
      exact (later.same q outside.2).trans (slots_evictSlot_of_ne c outside.1)
    · refine later.free.trans ?_
      simp only [RegisterCache.evictSlot, List.length_cons]
      omega
    · intro r q place
      have before := later.places r q place
      simp only [RegisterCache.evictSlot, registerToSlot_setSlot, registerToSlot_setPlace] at before
      split at before
      · cases before
      · exact before

end Evictions

/-! ### Reserving slots -/

/-- The slots in use by the current instruction. -/
def lockedSlots (c : RegisterCache) : Finset SlotId :=
  Finset.univ.filter fun id => (c.slots id).locked = true

theorem mem_lockedSlots {c : RegisterCache} {id : SlotId} :
    id ∈ c.lockedSlots ↔ (c.slots id).locked = true := by
  simp [lockedSlots]

/-- The registers a call names, without `x0`. -/
def requested (registers : List RegisterToLock) : Finset Register :=
  (registers.map RegisterToLock.reg).toFinset.filter fun r => r ≠ Register.zero

theorem mem_requested {registers : List RegisterToLock} {r : Register} :
    r ∈ requested registers ↔ r ∈ registers.map RegisterToLock.reg ∧ r ≠ Register.zero := by
  simp [requested]

theorem card_requested_le (registers : List RegisterToLock) :
    (requested registers).card ≤ registers.length := by
  refine (Finset.card_filter_le _ _).trans ?_
  refine (List.toFinset_card_le _).trans ?_
  rw [List.length_map]

/-- The requested registers that still need a slot. -/
def missing (c : RegisterCache) (registers : List RegisterToLock) : Finset Register :=
  (requested registers).filter fun r => c.registerToSlot r = none

theorem mem_missing {c : RegisterCache} {registers : List RegisterToLock} {r : Register} :
    r ∈ c.missing registers ↔ r ∈ requested registers ∧ c.registerToSlot r = none := by
  simp [missing]

theorem length_missingRegisters (c : RegisterCache) (registers : List RegisterToLock) :
    (c.missingRegisters registers).length = (c.missing registers).card := by
  rw [missingRegisters, ← List.card_toFinset]
  congr 1
  ext r
  simp only [List.mem_toFinset, List.mem_filter, mem_missing, mem_requested, Bool.and_eq_true,
    bne_iff_ne, Option.isNone_iff_eq_none, and_assoc]

/-- `lockPresent` only sets `locked`, on the slots of registers that are there. -/
theorem slots_lockPresent (c : RegisterCache) (registers : List RegisterToLock) (id : SlotId) :
    ∃ locked, (c.lockPresent registers).slots id = { c.slots id with locked := locked } ∧
      (locked = true ↔ (c.slots id).locked = true ∨
        ∃ r ∈ requested registers, c.registerToSlot r = some id) := by
  induction registers generalizing c with
  | nil => exact ⟨(c.slots id).locked, rfl, by simp [requested]⟩
  | cons first rest ih =>
    have split : ∀ r, r ∈ requested (first :: rest) ↔
        (r = first.reg ∧ r ≠ Register.zero) ∨ r ∈ requested rest := by
      intro r
      simp only [mem_requested, List.map_cons, List.mem_cons]
      tauto
    unfold lockPresent
    -- register zero is not cached, a missing register is left for later
    by_cases zero : first.reg = Register.zero
    · rw [if_pos zero]
      obtain ⟨locked, slot, iff⟩ := ih c
      refine ⟨locked, slot, iff.trans (or_congr_right (exists_congr fun r => ?_))⟩
      rw [split]
      constructor
      · exact fun both => ⟨Or.inr both.1, both.2⟩
      · rintro ⟨⟨rfl, nonzero⟩ | member, place⟩
        · exact absurd zero nonzero
        · exact ⟨member, place⟩
    · rw [if_neg zero]
      cases place : c.registerToSlot first.reg with
      | none =>
        obtain ⟨locked, slot, iff⟩ := ih c
        refine ⟨locked, slot, iff.trans (or_congr_right (exists_congr fun r => ?_))⟩
        rw [split]
        constructor
        · exact fun both => ⟨Or.inr both.1, both.2⟩
        · rintro ⟨⟨rfl, -⟩ | member, there⟩
          · rw [place] at there
            cases there
          · exact ⟨member, there⟩
      -- a slot is locked now, or was before, or is locked for a later register
      | some id' =>
        obtain ⟨locked, slot, iff⟩ := ih (c.setSlot id' { c.slots id' with locked := true })
        refine ⟨locked, ?_, iff.trans ?_⟩
        · rw [slot, slots_setSlot]
          split
          next here => rw [here]
          next => rfl
        · simp only [registerToSlot_setSlot, slots_setSlot]
          constructor
          · rintro (already | ⟨r, member, there⟩)
            · by_cases here : id = id'
              · exact Or.inr ⟨first.reg, (split _).mpr (Or.inl ⟨rfl, zero⟩), here ▸ place⟩
              · rw [if_neg here] at already
                exact Or.inl already
            · exact Or.inr ⟨r, (split _).mpr (Or.inr member), there⟩
          · rintro (already | ⟨r, member, there⟩)
            · refine Or.inl ?_
              split
              · rfl
              · exact already
            · rcases (split r).mp member with ⟨rfl, -⟩ | member
              · rw [place] at there
                exact Or.inl (by rw [if_pos (Option.some.inj there).symm])
              · exact Or.inr ⟨r, member, there⟩

theorem registerToSlot_lockPresent (c : RegisterCache) (registers : List RegisterToLock) :
    (c.lockPresent registers).registerToSlot = c.registerToSlot := by
  induction registers generalizing c with
  | nil => rfl
  | cons first rest ih =>
    unfold lockPresent
    split
    · exact ih c
    · split <;> exact ih _

theorem freeSlots_lockPresent (c : RegisterCache) (registers : List RegisterToLock) :
    (c.lockPresent registers).freeSlots = c.freeSlots := by
  induction registers generalizing c with
  | nil => rfl
  | cons first rest ih =>
    unfold lockPresent
    split
    · exact ih c
    · split <;> exact ih _

section Reserve

variable {c : RegisterCache}

theorem directory_lockPresent (c : RegisterCache) (registers : List RegisterToLock) :
    (c.lockPresent registers).directory = c.directory := by
  ext1 <;> funext id <;> obtain ⟨locked, slot, -⟩ := slots_lockPresent c registers id <;>
    simp only [directory, slot]

theorem reg_lockPresent (c : RegisterCache) (registers : List RegisterToLock) (id : SlotId) :
    ((c.lockPresent registers).slots id).reg = (c.slots id).reg := by
  obtain ⟨locked, slot, -⟩ := slots_lockPresent c registers id
  rw [slot]

theorem Tables.lockPresent (tables : c.Tables) (registers : List RegisterToLock) :
    (c.lockPresent registers).Tables where
  placed r id := by
    rw [registerToSlot_lockPresent, reg_lockPresent]
    exact tables.placed r id
  free id := by
    rw [freeSlots_lockPresent, reg_lockPresent]
    exact tables.free id
  nodup := by
    rw [freeSlots_lockPresent]
    exact tables.nodup

theorem WF.lockPresent (wf : c.WF) (registers : List RegisterToLock) :
    (c.lockPresent registers).WF := by
  obtain ⟨placed, free, nodup⟩ := wf.tables.lockPresent registers
  refine ⟨placed, free, nodup, fun id empty => ?_, fun id => ?_⟩
  · obtain ⟨locked, slot, iff⟩ := slots_lockPresent c registers id
    rw [reg_lockPresent] at empty
    obtain ⟨unlocked, clean⟩ := wf.idle id empty
    rw [slot]
    refine ⟨?_, clean⟩
    -- only slots that hold a register are locked
    by_contra holds
    rcases iff.mp (by simpa using holds) with already | ⟨r, -, place⟩
    · exact absurd already (by simp [unlocked])
    · have here := (wf.placed r id).mp place
      exact here.1 (here.2.symm.trans empty)
  · rw [reg_lockPresent]
    exact wf.below id

/-- Locking what is there, and room for what is not, takes at most one slot a register. -/
theorem card_lockPresent_le (c : RegisterCache) (registers : List RegisterToLock) :
    (c.lockPresent registers).lockedSlots.card + (c.missing registers).card
      ≤ c.lockedSlots.card + registers.length := by
  let present := (requested registers).filter fun r => ¬c.registerToSlot r = none
  -- each slot newly locked belongs to a requested register that is present
  have covered : (c.lockPresent registers).lockedSlots ⊆
      c.lockedSlots ∪ present.image fun r => (c.registerToSlot r).getD 0 := by
    intro id member
    obtain ⟨locked, slot, iff⟩ := slots_lockPresent c registers id
    rw [mem_lockedSlots, slot] at member
    rw [Finset.mem_union, mem_lockedSlots, Finset.mem_image]
    rcases iff.mp member with already | ⟨r, asked, place⟩
    · exact Or.inl already
    · exact Or.inr ⟨r, Finset.mem_filter.mpr ⟨asked, by simp [place]⟩, by simp [place]⟩
  have locks := (Finset.card_le_card covered).trans (Finset.card_union_le _ _)
  have images : (present.image fun r => (c.registerToSlot r).getD 0).card ≤ present.card :=
    Finset.card_image_le
  have parts : (c.missing registers).card + present.card = (requested registers).card :=
    Finset.card_filter_add_card_filter_not _
  have named := card_requested_le registers
  omega

/-- Every slot is free, available or locked. -/
theorem WF.card_slots (wf : c.WF) :
    c.freeSlots.length + c.availableSlots.length + c.lockedSlots.card = RA.cacheSize := by
  let empty : Finset SlotId := Finset.univ.filter fun id => (c.slots id).reg = Register.zero
  let unlocked : Finset SlotId := Finset.univ.filter fun id => ¬(c.slots id).locked = true
  have free : c.freeSlots.length = empty.card := by
    rw [← List.toFinset_card_of_nodup wf.nodup]
    congr 1
    ext id
    simp [empty, wf.free]
  have available : c.availableSlots.length = (unlocked \ empty).card := by
    have nodup : c.availableSlots.Nodup := (List.nodup_finRange _).filter _
    rw [← List.toFinset_card_of_nodup nodup]
    congr 1
    ext id
    simp [availableSlots, unlocked, empty]
  -- free slots are not locked, so the three kinds are disjoint and cover the cache
  have inside : empty ⊆ unlocked := by
    intro id member
    simp only [empty, unlocked, Finset.mem_filter, Finset.mem_univ, true_and] at member ⊢
    simp [(wf.idle id member).1]
  have split : c.lockedSlots.card + unlocked.card = Fintype.card SlotId :=
    Finset.card_filter_add_card_filter_not _
  have rest := Finset.card_sdiff_add_card_eq_card inside
  rw [Fintype.card_fin] at split
  omega

/-- The slots `free_cache_slots` evicts. -/
def victims (p : Platform) (c : RegisterCache) (count : Nat) : List SlotId :=
  (p.sort (fun id => (c.slots id).lastUse) c.availableSlots).reverse.take count

theorem victims_spec (p : Platform) (c : RegisterCache) {count : Nat}
    (enough : count ≤ c.availableSlots.length) :
    (c.victims p count).Nodup ∧ (c.victims p count).length = count ∧
      ∀ id ∈ c.victims p count, (c.slots id).locked = false ∧ (c.slots id).reg ≠ Register.zero := by
  have perm := p.sort_perm (fun id => (c.slots id).lastUse) c.availableSlots
  have nodup : c.availableSlots.Nodup := (List.nodup_finRange _).filter _
  refine ⟨?_, ?_, fun id member => ?_⟩
  · exact (List.nodup_reverse.mpr (perm.nodup_iff.mpr nodup)).sublist (List.take_sublist _ _)
  · rw [victims, List.length_take, List.length_reverse, perm.length_eq]
    exact Nat.min_eq_left enough
  · have available := perm.mem_iff.mp (List.mem_reverse.mp (List.mem_of_mem_take member))
    simpa [availableSlots] using available

/-- What `reserve_registers` leaves behind. -/
def reserved (p : Platform) (c : RegisterCache) (registers : List RegisterToLock) :
    RegisterCache :=
  let needed := (c.missing registers).card - c.freeSlots.length
  (c.lockPresent registers).evictSlots ((c.lockPresent registers).victims p needed)

/-- The room three operands and what is locked already need. -/
def Room (c : RegisterCache) (registers : List RegisterToLock) : Prop :=
  c.lockedSlots.card + registers.length ≤ RA.cacheSize

theorem WF.enough (wf : c.WF) {registers : List RegisterToLock} (room : c.Room registers) :
    (c.missing registers).card - c.freeSlots.length
      ≤ (c.lockPresent registers).availableSlots.length := by
  have total := (wf.lockPresent registers).card_slots
  have bound := card_lockPresent_le c registers
  rw [freeSlots_lockPresent] at total
  unfold Room at room
  omega

/-- After a reservation the missing registers fit, and what is locked is untouched. -/
structure Reserves (c c' : RegisterCache) (registers : List RegisterToLock) : Prop where
  wf : c'.WF
  fits : (c'.missing registers).card ≤ c'.freeSlots.length
  kept : ∀ id, (c.slots id).locked = true ∨
    (∃ r ∈ requested registers, c.registerToSlot r = some id) →
    (c'.slots id).reg = (c.slots id).reg ∧ (c'.slots id).locked = true
  locked : ∀ id, (c'.slots id).locked = true → (c.slots id).locked = true ∨
    ∃ r ∈ requested registers, c.registerToSlot r = some id
  places : ∀ r id, c'.registerToSlot r = some id → c.registerToSlot r = some id

theorem WF.reserved (wf : c.WF) (p : Platform) {registers : List RegisterToLock}
    (room : c.Room registers) : Reserves c (c.reserved p registers) registers := by
  obtain ⟨nodup, length, spared⟩ := victims_spec p _ (wf.enough room)
  have evicts := (wf.lockPresent registers).evictSlots nodup fun id member => (spared id member).2
  -- a locked slot and one of a requested register are no victims
  have kept : ∀ id, (c.slots id).locked = true ∨
      (∃ r ∈ requested registers, c.registerToSlot r = some id) →
      ((c.reserved p registers).slots id).reg = (c.slots id).reg ∧
        ((c.reserved p registers).slots id).locked = true := by
    intro id needed
    obtain ⟨locked, slot, iff⟩ := slots_lockPresent c registers id
    have set := iff.mpr needed
    have outside : id ∉ (c.lockPresent registers).victims p
        ((c.missing registers).card - c.freeSlots.length) := by
      intro member
      have unlocked := (spared id member).1
      rw [slot, set] at unlocked
      cases unlocked
    unfold RegisterCache.reserved
    rw [evicts.same id outside, slot]
    exact ⟨rfl, set⟩
  constructor
  · exact evicts.wf
  · -- a requested register that was there is locked, so nothing more is missing
    have still : (c.reserved p registers).missing registers ⊆ c.missing registers := by
      intro r member
      rw [mem_missing] at member ⊢
      refine ⟨member.1, ?_⟩
      cases place : c.registerToSlot r with
      | none => rfl
      | some id =>
        have here := (wf.placed r id).mp place
        have stays := (kept id (Or.inr ⟨r, member.1, place⟩)).1
        have there := (evicts.wf.placed r id).mpr ⟨here.1, stays.trans here.2⟩
        exact absurd (member.2.symm.trans there) (by simp)
    have bound := Finset.card_le_card still
    have free : (c.reserved p registers).freeSlots.length = _ := evicts.free
    rw [freeSlots_lockPresent, length] at free
    omega
  · exact kept
  · intro id holds
    have outside : id ∉ (c.lockPresent registers).victims p
        ((c.missing registers).card - c.freeSlots.length) := by
      intro member
      have emptied : (c.reserved p registers).slots id = {} := evicts.emptied id member
      rw [emptied] at holds
      cases holds
    obtain ⟨locked, slot, iff⟩ := slots_lockPresent c registers id
    have same : (c.reserved p registers).slots id = _ := evicts.same id outside
    rw [same, slot] at holds
    exact iff.mp holds
  · intro r id place
    have before := evicts.places r id place
    rwa [registerToSlot_lockPresent] at before

end Reserve

/-! ### Locking -/

/-- Take the slot `id` for a register without one. -/
def assign (c : RegisterCache) (id : SlotId) (rest : List SlotId) (reg : Register) :
    RegisterCache :=
  ({ c with freeSlots := rest }.setSlot id
    { c.slots id with reg := reg, locked := true, lastUse := c.programCounter }).setPlace reg
      (some id)

/-- What one round of the loop of `lock_registers_internal` leaves behind. -/
def lockSlot (c : RegisterCache) (reg : Register) : RegisterCache :=
  if reg = Register.zero then c
  else
    match c.registerToSlot reg, c.freeSlots with
    | some id, _ => c.setSlot id { c.slots id with locked := true, lastUse := c.programCounter }
    | none, id :: rest => c.assign id rest reg
    | none, [] => c

def lockSlots (c : RegisterCache) (regs : List Register) : RegisterCache := regs.foldl lockSlot c

/-- The host register that stands for a guest register. -/
def home (c : RegisterCache) (reg : Register) : A64R :=
  match c.registerToSlot reg with
  | some id => RA.cache id
  | none => A64R.xzr

section Lock

variable {c : RegisterCache}

theorem slots_assign_of_ne (c : RegisterCache) {id q : SlotId} (rest : List SlotId)
    (reg : Register) (other : q ≠ id) : (c.assign id rest reg).slots q = c.slots q := by
  simp only [assign, slots_setPlace, slots_setSlot, if_neg other]

theorem slots_assign_self (c : RegisterCache) (id : SlotId) (rest : List SlotId) (reg : Register) :
    (c.assign id rest reg).slots id =
      { c.slots id with reg := reg, locked := true, lastUse := c.programCounter } := by
  simp only [assign, slots_setPlace, slots_setSlot, if_true]

theorem Tables.assign (tables : c.Tables) {id : SlotId} {rest : List SlotId}
    (free : c.freeSlots = id :: rest) {reg : Register} (nonzero : reg ≠ Register.zero)
    (absent : c.registerToSlot reg = none) : (c.assign id rest reg).Tables := by
  have empty : (c.slots id).reg = Register.zero :=
    (tables.free id).mp (by rw [free]; exact List.mem_cons_self)
  have nodup := tables.nodup
  rw [free, List.nodup_cons] at nodup
  have taken : ((c.assign id rest reg).slots id).reg = reg := by rw [slots_assign_self]
  constructor
  -- the new register gets the free slot, and nothing led there before
  · intro r q
    by_cases same : q = id
    · subst same
      rw [taken]
      simp only [RegisterCache.assign, registerToSlot_setPlace, registerToSlot_setSlot]
      split
      next here => simp [here, nonzero]
      next other =>
        constructor
        · intro place
          have here := (tables.placed r q).mp place
          exact absurd (here.2.symm.trans empty) here.1
        · rintro ⟨-, rfl⟩
          exact absurd rfl other
    · rw [slots_assign_of_ne c rest reg same]
      simp only [RegisterCache.assign, registerToSlot_setPlace, registerToSlot_setSlot]
      split
      next here =>
        subst here
        constructor
        · intro place
          exact absurd (Option.some.inj place).symm same
        · intro there
          rw [← tables.placed, absent] at there
          cases there
      next => exact tables.placed r q
  · intro q
    change q ∈ rest ↔ _
    by_cases same : q = id
    · subst same
      rw [taken]
      exact iff_of_false nodup.1 nonzero
    · rw [slots_assign_of_ne c rest reg same, ← tables.free, free, List.mem_cons]
      simp [same]
  · exact nodup.2

theorem WF.assign (wf : c.WF) {id : SlotId} {rest : List SlotId} (free : c.freeSlots = id :: rest)
    {reg : Register} (nonzero : reg ≠ Register.zero) (below : reg ≠ Register.pc)
    (absent : c.registerToSlot reg = none) : (c.assign id rest reg).WF := by
  have taken : ((c.assign id rest reg).slots id).reg = reg := by rw [slots_assign_self]
  obtain ⟨placed, freed, nodup⟩ := wf.tables.assign free nonzero absent
  refine ⟨placed, freed, nodup, fun q => ?_, fun q => ?_⟩
  · -- an occupied slot need not be idle
    by_cases same : q = id
    · subst same
      rw [taken]
      exact fun zero => absurd zero nonzero
    · rw [slots_assign_of_ne c rest reg same]
      exact wf.idle q
  · -- `pc` is never cached
    by_cases same : q = id
    · subst same
      rw [taken]
      exact below
    · rw [slots_assign_of_ne c rest reg same]
      exact wf.below q

theorem directory_assign (wf : c.WF) {id : SlotId} {rest : List SlotId}
    (free : c.freeSlots = id :: rest) {reg : Register} (nonzero : reg ≠ Register.zero) :
    (c.assign id rest reg).directory = c.directory.assign id reg := by
  have empty : (c.slots id).reg = Register.zero :=
    (wf.free id).mp (by rw [free]; exact List.mem_cons_self)
  ext1 <;> funext q <;> simp only [directory, WriteBack.Directory.assign, Function.update_apply] <;>
    by_cases here : q = id
  · rw [here, slots_assign_self, if_neg nonzero, if_pos rfl]
  · rw [slots_assign_of_ne c rest reg here, if_neg here]
  · rw [here, slots_assign_self, if_pos rfl]
    exact (wf.idle id empty).2
  · rw [slots_assign_of_ne c rest reg here, if_neg here]

/-- `c'` has the registers of `c` where `c` has them, and more slots locked. -/
structure Extends (c c' : RegisterCache) : Prop where
  wf : c'.WF
  places : ∀ r id, c.registerToSlot r = some id → c'.registerToSlot r = some id
  locked : ∀ id, (c.slots id).locked = true → (c'.slots id).locked = true

theorem Extends.trans {c' c'' : RegisterCache} (first : Extends c c') (second : Extends c' c'') :
    Extends c c'' where
  wf := second.wf
  places r id place := second.places r id (first.places r id place)
  locked id holds := second.locked id (first.locked id holds)

/-- A round finds a slot when the register has one or one is free. -/
theorem WF.lockSlot (wf : c.WF) {reg : Register} (below : reg ≠ Register.pc)
    (room : reg ≠ Register.zero → c.registerToSlot reg = none → c.freeSlots ≠ []) :
    Extends c (c.lockSlot reg) ∧
      (reg ≠ Register.zero → ∃ id, (c.lockSlot reg).registerToSlot reg = some id ∧
        ((c.lockSlot reg).slots id).locked = true) ∧
      (∀ r id, (c.lockSlot reg).registerToSlot r = some id → r ≠ reg →
        c.registerToSlot r = some id) ∧
      ∀ id, ((c.lockSlot reg).slots id).locked = true →
        (c.slots id).locked = true ∨ ((c.lockSlot reg).slots id).reg = reg := by
  unfold RegisterCache.lockSlot
  by_cases zero : reg = Register.zero
  · rw [if_pos zero]
    exact ⟨⟨wf, fun _ _ place => place, fun _ locked => locked⟩, fun nonzero => absurd zero nonzero,
      fun _ _ place _ => place, fun _ locked => Or.inl locked⟩
  · simp only [if_neg zero]
    split
    -- the register is in the cache: its slot is locked
    next _ id place =>
      have here := (wf.placed reg id).mp place
      refine ⟨⟨wf.setSlot rfl (fun empty => zero (here.2.symm.trans empty)), fun _ _ place => place,
        fun q locked => ?_⟩, fun _ => ⟨id, place, ?_⟩, fun _ _ place _ => place, fun q locked => ?_⟩
      · rw [slots_setSlot]
        split
        · rfl
        · exact locked
      · rw [slots_setSlot, if_pos rfl]
      · rw [slots_setSlot] at locked ⊢
        split
        · exact Or.inr here.2
        next other =>
          rw [if_neg other] at locked
          exact Or.inl locked
    -- it is not: the first free slot is assigned to it
    next id rest absent free =>
      refine ⟨⟨wf.assign free zero below absent, fun r q place => ?_, fun q locked => ?_⟩,
        fun _ => ⟨id, ?_, ?_⟩, fun r q place other => ?_, fun q locked => ?_⟩
      · rw [RegisterCache.assign, registerToSlot_setPlace]
        split
        next same =>
          rw [same, absent] at place
          cases place
        next => exact place
      · by_cases same : q = id
        · rw [same, slots_assign_self]
        · rwa [slots_assign_of_ne c rest reg same]
      · rw [RegisterCache.assign, registerToSlot_setPlace, if_pos rfl]
      · rw [slots_assign_self]
      · rwa [RegisterCache.assign, registerToSlot_setPlace, if_neg other] at place
      · by_cases same : q = id
        · rw [same, slots_assign_self]
          exact Or.inr rfl
        · rw [slots_assign_of_ne c rest reg same] at locked
          exact Or.inl locked
    next absent free => exact absurd free (room zero absent)

theorem missing_cons_subset (c : RegisterCache) (first : RegisterToLock)
    (rest : List RegisterToLock) : c.missing rest ⊆ c.missing (first :: rest) := by
  intro r member
  rw [mem_missing, mem_requested] at member ⊢
  exact ⟨⟨List.mem_cons_of_mem _ member.1.1, member.1.2⟩, member.2⟩

/-- A round that takes a free slot leaves one register less missing. -/
theorem fits_lockSlot {first : RegisterToLock} {rest : List RegisterToLock}
    (fits : (c.missing (first :: rest)).card ≤ c.freeSlots.length) :
    (first.reg ≠ Register.zero → c.registerToSlot first.reg = none → c.freeSlots ≠ []) ∧
      ((c.lockSlot first.reg).missing rest).card ≤ (c.lockSlot first.reg).freeSlots.length := by
  have fewer := Finset.card_le_card (missing_cons_subset c first rest)
  have counted : first.reg ≠ Register.zero → c.registerToSlot first.reg = none →
      first.reg ∈ c.missing (first :: rest) := by
    intro nonzero absent
    rw [mem_missing, mem_requested]
    exact ⟨⟨List.mem_cons_self, nonzero⟩, absent⟩
  constructor
  · intro nonzero absent empty
    have positive := Finset.card_pos.mpr ⟨_, counted nonzero absent⟩
    rw [empty, List.length_nil] at fits
    omega
  · unfold RegisterCache.lockSlot
    by_cases zero : first.reg = Register.zero
    · simp only [if_pos zero]
      omega
    · simp only [if_neg zero]
      split
      next _ id place => exact fewer.trans fits
      -- one free slot and one missing register fewer
      next id free absent available =>
        have gone : (c.assign id free first.reg).missing rest
            ⊆ (c.missing (first :: rest)).erase first.reg := by
          intro r member
          rw [mem_missing, RegisterCache.assign, registerToSlot_setPlace] at member
          rw [Finset.mem_erase]
          split at member
          · cases member.2
          next other =>
            exact ⟨other, missing_cons_subset c first rest (mem_missing.mpr member)⟩
        have smaller := Finset.card_le_card gone
        rw [Finset.card_erase_of_mem (counted zero absent)] at smaller
        rw [available, List.length_cons] at fits
        change _ ≤ free.length
        omega
      next absent empty =>
        have positive := Finset.card_pos.mpr ⟨_, counted zero absent⟩
        rw [empty, List.length_nil] at fits
        omega

/-- The requested registers have locked slots, and what was locked stays. -/
structure Locks (c c' : RegisterCache) (registers : List RegisterToLock) : Prop where
  wf : c'.WF
  kept : ∀ r id, c.registerToSlot r = some id → (c.slots id).locked = true →
    c'.registerToSlot r = some id ∧ (c'.slots id).locked = true
  placed : ∀ r ∈ requested registers, ∃ id, c'.registerToSlot r = some id ∧
    (c'.slots id).locked = true
  sources : ∀ r id, c'.registerToSlot r = some id →
    c.registerToSlot r = some id ∨ r ∈ requested registers
  locked : ∀ id, (c'.slots id).locked = true →
    (c.slots id).locked = true ∨ (c'.slots id).reg ∈ requested registers

/-- The loop over the registers. -/
theorem WF.lockSlots (wf : c.WF) {registers : List RegisterToLock}
    (fits : (c.missing registers).card ≤ c.freeSlots.length)
    (below : ∀ r ∈ registers, r.reg ≠ Register.pc) :
    Extends c (c.lockSlots (registers.map RegisterToLock.reg)) ∧
      Locks c (c.lockSlots (registers.map RegisterToLock.reg)) registers := by
  induction registers generalizing c with
  | nil =>
    have same : Extends c c := ⟨wf, fun _ _ place => place, fun _ locked => locked⟩
    refine ⟨same, wf, fun _ _ place locked => ⟨place, locked⟩, fun r member => ?_,
      fun _ _ place => Or.inl place, fun _ locked => Or.inl locked⟩
    exact absurd (mem_requested.mp member).1 List.not_mem_nil
  | cons first rest ih =>
    obtain ⟨room, fits'⟩ := fits_lockSlot fits
    obtain ⟨grows, found, others, locked⟩ := wf.lockSlot (below first List.mem_cons_self) room
    obtain ⟨later, locks⟩ := ih grows.wf fits' fun r member => below r (List.mem_cons_of_mem _ member)
    have split : ∀ r, r ∈ requested (first :: rest) ↔
        (r = first.reg ∧ r ≠ Register.zero) ∨ r ∈ requested rest := by
      intro r
      simp only [mem_requested, List.map_cons, List.mem_cons]
      tauto
    have whole := grows.trans later
    refine ⟨whole, whole.wf, fun r id place holds => ⟨whole.places r id place, whole.locked id holds⟩,
      fun r member => ?_, fun r id place => ?_, fun id holds => ?_⟩
    · rcases (split r).mp member with ⟨rfl, nonzero⟩ | member
      · obtain ⟨id, place, holds⟩ := found nonzero
        exact ⟨id, later.places _ id place, later.locked id holds⟩
      · exact locks.placed r member
    -- a place found at the end was there before, or was requested here or later
    · rcases locks.sources r id place with before | member
      · by_cases same : r = first.reg
        · exact Or.inr ((split r).mpr (Or.inl ⟨same, ((whole.wf.placed r id).mp place).1⟩))
        · exact Or.inl (others r id before same)
      · exact Or.inr ((split r).mpr (Or.inr member))
    · rcases locks.locked id holds with before | member
      · rcases locked id before with already | here
        · exact Or.inl already
        · -- the slot of the first register keeps it
          have occupied := grows.wf.occupied before
          have place := later.places _ id ((grows.wf.placed _ id).mpr ⟨occupied, rfl⟩)
          have stays := ((later.wf.placed _ id).mp place).2
          exact Or.inr ((split _).mpr (Or.inl ⟨stays.trans here, whole.wf.occupied holds⟩))
      · exact Or.inr ((split _).mpr (Or.inr member))

/-- What `lock_registers_internal` leaves behind. -/
def locking (p : Platform) (c : RegisterCache) (registers : List RegisterToLock) : RegisterCache :=
  (c.reserved p registers).lockSlots (registers.map RegisterToLock.reg)

theorem WF.locking (wf : c.WF) (p : Platform) {registers : List RegisterToLock}
    (room : c.Room registers) (below : ∀ r ∈ registers, r.reg ≠ Register.pc) :
    Locks c (c.locking p registers) registers := by
  have reserves := wf.reserved p room
  obtain ⟨later, locks⟩ := reserves.wf.lockSlots reserves.fits below
  refine ⟨locks.wf, fun r id place holds => ?_, locks.placed, fun r id place => ?_,
    fun id holds => ?_⟩
  · have here := (wf.placed r id).mp place
    -- reserving does not move what is locked, and locking does not either
    obtain ⟨same, still⟩ := reserves.kept id (Or.inl holds)
    exact locks.kept r id ((reserves.wf.placed r id).mpr ⟨here.1, same.trans here.2⟩) still
  · exact (locks.sources r id place).imp_left (reserves.places r id)
  · rcases locks.locked id holds with before | member
    · rcases reserves.locked id before with already | ⟨r, member, place⟩
      · exact Or.inl already
      · have here := (wf.placed r id).mp place
        obtain ⟨same, still⟩ := reserves.kept id (Or.inr ⟨r, member, place⟩)
        have place' := later.places r id
          ((reserves.wf.placed r id).mpr ⟨here.1, same.trans here.2⟩)
        exact Or.inr (((later.wf.placed r id).mp place').2.symm ▸ member)
    · exact Or.inr member

end Lock

/-! ### Unlocking -/

theorem platformRegisterToSlot_cache (id : SlotId) :
    platformRegisterToSlot (RA.cache id) = some id := by
  revert id
  decide

theorem cache_ne_xzr (id : SlotId) : RA.cache id ≠ A64R.xzr := by
  revert id
  decide

theorem cache_injective {id id' : SlotId} (same : RA.cache id = RA.cache id') : id = id' := by
  have here := platformRegisterToSlot_cache id
  rw [same, platformRegisterToSlot_cache] at here
  exact (Option.some.inj here).symm

/-- What `unlock_register` leaves behind. -/
def unlocked (c : RegisterCache) (reg : A64R) (makeDirty : Bool) : RegisterCache :=
  match platformRegisterToSlot reg with
  | none => c
  | some id =>
    c.setSlot id { c.slots id with locked := false, dirty := (c.slots id).dirty || makeDirty }

section Unlock

variable {c : RegisterCache}

theorem home_placed {r : Register} {id : SlotId} (place : c.registerToSlot r = some id) :
    c.home r = RA.cache id := by
  rw [home, place]

theorem home_absent {r : Register} (absent : c.registerToSlot r = none) :
    c.home r = A64R.xzr := by
  rw [home, absent]

theorem WF.home_zero (wf : c.WF) : c.home Register.zero = A64R.xzr := home_absent wf.place_zero

theorem unlocked_home_placed {r : Register} {id : SlotId} (place : c.registerToSlot r = some id)
    (makeDirty : Bool) : c.unlocked (c.home r) makeDirty =
      c.setSlot id
        { c.slots id with locked := false, dirty := (c.slots id).dirty || makeDirty } := by
  rw [unlocked, home_placed place, platformRegisterToSlot_cache]

theorem unlocked_home_absent {r : Register} (absent : c.registerToSlot r = none)
    (makeDirty : Bool) : c.unlocked (c.home r) makeDirty = c := by
  have nowhere : platformRegisterToSlot A64R.xzr = none := by decide
  rw [unlocked, home_absent absent, nowhere]

/-- `c'` is `c` after the slot of `r` was unlocked. -/
structure Unlocks (c c' : RegisterCache) (r : Register) : Prop where
  wf : c'.WF
  places : c'.registerToSlot = c.registerToSlot
  locked : ∀ id, (c'.slots id).locked = true →
    (c.slots id).locked = true ∧ c.registerToSlot r ≠ some id

theorem Unlocks.home {c' : RegisterCache} {r : Register} (unlocks : Unlocks c c' r) :
    c'.home = c.home := by
  funext q
  simp only [RegisterCache.home, unlocks.places]

theorem WF.unlocked (wf : c.WF) (r : Register) (makeDirty : Bool) :
    Unlocks c (c.unlocked (c.home r) makeDirty) r := by
  cases place : c.registerToSlot r with
  | none =>
    rw [unlocked_home_absent place]
    exact ⟨wf, rfl, fun id locked => ⟨locked, by simp [place]⟩⟩
  | some id =>
    have here := (wf.placed r id).mp place
    rw [unlocked_home_placed place]
    refine ⟨wf.setSlot rfl fun empty => here.1 (here.2.symm.trans empty), rfl, fun q locked => ?_⟩
    rw [slots_setSlot] at locked
    split at locked
    · cases locked
    next other => exact ⟨locked, fun same => other (Option.some.inj (place.symm.trans same)).symm⟩

theorem directory_unlocked (c : RegisterCache) (r : Register) :
    (c.unlocked (c.home r) false).directory = c.directory := by
  cases place : c.registerToSlot r with
  | none => rw [unlocked_home_absent place]
  | some id =>
    rw [unlocked_home_placed place]
    exact directory_setSlot rfl (Bool.or_false _)

/-- What `unlock_registers` leaves behind. -/
def unlockedAll (c : RegisterCache) (regs : List A64R) : RegisterCache :=
  regs.foldl (fun c reg => c.unlocked reg false) c

theorem WF.unlockedAll (wf : c.WF) (rs : List Register) :
    (c.unlockedAll (rs.map c.home)).WF ∧
      (c.unlockedAll (rs.map c.home)).registerToSlot = c.registerToSlot ∧
      (c.unlockedAll (rs.map c.home)).directory = c.directory ∧
      ∀ id, ((c.unlockedAll (rs.map c.home)).slots id).locked = true →
        (c.slots id).locked = true ∧ ∀ r ∈ rs, c.registerToSlot r ≠ some id := by
  induction rs generalizing c with
  | nil => exact ⟨wf, rfl, rfl, fun id locked => ⟨locked, fun _ member => absurd member List.not_mem_nil⟩⟩
  | cons r rest ih =>
    have first := wf.unlocked r false
    obtain ⟨wf', places, directory, locked⟩ := ih first.wf
    rw [first.home] at wf' places directory locked
    refine ⟨wf', places.trans first.places, directory.trans (directory_unlocked c r),
      fun id holds => ?_⟩
    -- a slot still locked was unlocked by none of the calls
    obtain ⟨before, others⟩ := locked id holds
    obtain ⟨start, here⟩ := first.locked id before
    refine ⟨start, fun q member => ?_⟩
    rcases List.mem_cons.mp member with rfl | member
    · exact here
    · rw [← first.places]
      exact others q member

theorem directory_unlocked_dirty {r : Register} {id : SlotId}
    (place : c.registerToSlot r = some id) :
    (c.unlocked (c.home r) true).directory = c.directory.markDirty id := by
  rw [unlocked_home_placed place]
  ext1 <;> funext q <;> simp only [directory, slots_setSlot, WriteBack.Directory.markDirty,
    Function.update_apply] <;> split
  next here => rw [here]
  next => rfl
  next => exact Bool.or_true _
  next => rfl

/-- The cache between two instructions. -/
structure Idle (c : RegisterCache) : Prop where
  wf : c.WF
  unlocked : ∀ id, (c.slots id).locked = false

theorem Idle.empty : Idle {} := ⟨.empty, fun _ => rfl⟩

theorem Idle.room (idle : c.Idle) {registers : List RegisterToLock}
    (few : registers.length ≤ RA.cacheSize) : c.Room registers := by
  have none : c.lockedSlots = ∅ := by
    refine Finset.filter_eq_empty_iff.mpr fun id _ => ?_
    simp [idle.unlocked id]
  unfold Room
  rw [none, Finset.card_empty]
  omega

/-- Unlocking everything a call locked ends the instruction. -/
theorem Locks.idle {c' c'' : RegisterCache} {registers : List RegisterToLock}
    (locks : Locks c c' registers) (idle : c.Idle) (wf : c''.WF)
    (locked : ∀ id, (c''.slots id).locked = true → (c'.slots id).locked = true ∧
      ∀ r ∈ requested registers, c'.registerToSlot r ≠ some id) : c''.Idle := by
  refine ⟨wf, fun id => ?_⟩
  by_contra holds
  obtain ⟨before, elsewhere⟩ := locked id (by simpa using holds)
  rcases locks.locked id before with already | member
  · rw [idle.unlocked] at already
    cases already
  · exact elsewhere _ member ((locks.wf.placed _ id).mpr ⟨(mem_requested.mp member).2, rfl⟩)

/-- The registers an instruction locks. -/
def operandsOf (reads : List Register) (rd : Register) : List RegisterToLock :=
  reads.map (fun r => ⟨r, false⟩) ++ [writeOnly rd]

theorem map_reg_operandsOf (reads : List Register) (rd : Register) :
    (operandsOf reads rd).map RegisterToLock.reg = reads ++ [rd] := by
  simp [operandsOf, writeOnly, Function.comp_def]

theorem mem_requested_operandsOf {reads : List Register} {rd r : Register} :
    r ∈ requested (operandsOf reads rd) ↔ (r ∈ reads ∨ r = rd) ∧ r ≠ Register.zero := by
  rw [mem_requested, map_reg_operandsOf, List.mem_append, List.mem_singleton]

/-- The cache when the operands of an instruction are unlocked and its result is dirty. -/
def retired (c : RegisterCache) (reads : List Register) (rd : Register) : RegisterCache :=
  (c.unlockedAll (reads.map c.home)).unlocked (c.home rd) true

theorem home_unlockedAll (wf : c.WF) (reads : List Register) :
    (c.unlockedAll (reads.map c.home)).home = c.home := by
  funext r
  simp only [home, (wf.unlockedAll reads).2.1]

/-- An instruction leaves an idle cache in which its result is dirty. -/
theorem Locks.retired {c' : RegisterCache} {reads : List Register} {rd : Register}
    (locks : Locks c c' (operandsOf reads rd)) (idle : c.Idle) {id : SlotId}
    (place : c'.registerToSlot rd = some id) :
    (c'.retired reads rd).Idle ∧
      (c'.retired reads rd).directory = c'.directory.markDirty id := by
  obtain ⟨wf, places, directory, locked⟩ := locks.wf.unlockedAll reads
  have home := home_unlockedAll locks.wf reads
  have last := wf.unlocked rd true
  have same : c'.retired reads rd = (c'.unlockedAll (reads.map c'.home)).unlocked
      ((c'.unlockedAll (reads.map c'.home)).home rd) true := by rw [home]; rfl
  rw [same]
  constructor
  -- every slot that was locked belongs to an operand or the destination
  · refine locks.idle idle last.wf fun q holds => ?_
    obtain ⟨before, other⟩ := last.locked q holds
    obtain ⟨start, operands⟩ := locked q before
    refine ⟨start, fun r member => ?_⟩
    rcases (mem_requested_operandsOf.mp member).1 with read | rfl
    · exact operands r read
    · rwa [places] at other
  · have kept : (c'.unlockedAll (reads.map c'.home)).registerToSlot rd = some id := by
      rw [places, place]
    have marked := directory_unlocked_dirty kept
    rwa [directory] at marked

end Unlock

end RegisterCache

end Riscv64Emulator.Jit.Aarch64
