import Riscv64Emulator.Jit.Aarch64.CacheCalls
import Riscv64Emulator.Jit.Aarch64.Results

/-!
# Evictions of the register cache

A lock that finds too few free slots evicts what was used longest ago, among the slots neither
the instruction nor the request holds on to. A dirty value is stored when its slot is evicted
and a value that is read is loaded when it was not there, each of them once.
-/
namespace Riscv64Emulator.Jit.Aarch64

open LinearCode RegisterCache

namespace RegisterCache

/-- A cache the methods of the class lead to, whatever they are given. -/
inductive Reached (p : Platform) : RegisterCache → Prop
  | new : Reached p {}
  | call {α : Type} {x : Gen α} {op : CacheCall} {c : GenState}
      {o : Emitted Instr PendingExit GenState α} (before : Reached p c.cache)
      (called : IsCall p α x o.value op) (ran : x.run c = .ok o) : Reached p o.state.cache

/-- The slots that lose their register between `c` and `c'`. -/
def evicted (c c' : RegisterCache) : Finset SlotId :=
  Finset.univ.filter fun id => (c.slots id).reg ≠ Register.zero ∧ (c'.slots id).reg = Register.zero

theorem mem_evicted {c c' : RegisterCache} {id : SlotId} : id ∈ evicted c c' ↔
    (c.slots id).reg ≠ Register.zero ∧ (c'.slots id).reg = Register.zero := by
  simp [evicted]

/-- The store of a slot to the register table. -/
def storeOf (c : RegisterCache) (id : SlotId) : Item Instr :=
  .instr (.str .double (RA.cache id) RA.registerState (.imm (slotOffset (c.slots id).reg)))

/-- The load of a register into its slot. -/
def loadOf (c : RegisterCache) (r : Register) : Item Instr :=
  .instr (.ldr .double false (c.home r) RA.registerState (.imm (slotOffset r)))

/-- The code has one item for each element with `P`, and nothing else. -/
def OneEach {α : Type} (code : List (Item Instr)) (item : α → Item Instr) (P : α → Prop) : Prop :=
  ∃ l : List α, l.Nodup ∧ (∀ a, a ∈ l ↔ P a) ∧ code = l.map item

theorem OneEach.singleton {α : Type} {code : List (Item Instr)} {item : α → Item Instr} {P : α → Prop} {a : α}
    (each : OneEach code item P) (only : ∀ b, P b ↔ b = a) : code = [item a] := by
  obtain ⟨l, nodup, member, rfl⟩ := each
  have perm : l.Perm [a] := (List.perm_ext_iff_of_nodup nodup (List.nodup_singleton a)).mpr fun b => by
    rw [member, only, List.mem_singleton]
  rw [List.perm_singleton.mp perm, List.map_singleton]

/-- What `reserve_registers` does to the cache `c`. -/
structure MakesRoom (c : RegisterCache) (registers : List RegisterToLock) (c' : RegisterCache)
    (code : List (Item Instr)) : Prop where
  count : (evicted c c').card = (c.missing registers).card - c.freeSlots.length
  spared : ∀ id ∈ evicted c c', (c.slots id).locked = false ∧ (c.slots id).reg ∉ requested registers
  /-- An unlocked register that stays was used no earlier, unless it was asked for. -/
  oldest : ∀ id ∈ evicted c c', ∀ q ∉ evicted c c', (c.slots q).reg ≠ Register.zero →
    (c.slots q).locked = false → (c.slots q).reg ∉ requested registers →
    (c.slots id).lastUse.toNat ≤ (c.slots q).lastUse.toNat
  kept : ∀ q ∉ evicted c c', (c'.slots q).reg = (c.slots q).reg ∧
    (c'.slots q).dirty = (c.slots q).dirty ∧ (c'.slots q).lastUse = (c.slots q).lastUse
  stores : OneEach code (storeOf c) fun id => id ∈ evicted c c' ∧ (c.slots id).dirty = true

/-! ### The eviction loop -/

section Runs

variable {p : Platform} {registers : List RegisterToLock}

theorem run_evict (id : SlotId) (c : GenState) : (evict id).run c =
    .ok ⟨(), if (c.cache.slots id).dirty then [storeOf c.cache id] else [], [],
      { c with cache := c.cache.evictSlot id }⟩ := by
  have store : (Instr.str .double (RA.cache id) RA.registerState
    (.imm (slotOffset (c.cache.slots id).reg))).encodable = true := rfl
  unfold evict
  rw [Emitter.run_bind_of_ok (run_getCache c)]
  dsimp only
  cases dirty : (c.cache.slots id).dirty with
  | false => rfl
  | true =>
    simp only [if_true]
    rw [emitRegisterStore, Emitter.run_bind_of_ok (run_ins store c)]
    rfl

theorem slots_evictSlots (c : RegisterCache) (ids : List SlotId) (q : SlotId) :
    (c.evictSlots ids).slots q = if q ∈ ids then {} else c.slots q := by
  induction ids generalizing c with
  | nil => rfl
  | cons id rest ih =>
    show ((c.evictSlot id).evictSlots rest).slots q = _
    rw [ih]
    by_cases later : q ∈ rest
    · rw [if_pos later, if_pos (List.mem_cons_of_mem _ later)]
    · by_cases here : q = id
      · rw [if_neg later, here, slots_evictSlot_self, if_pos List.mem_cons_self]
      · rw [if_neg later, slots_evictSlot_of_ne c here, if_neg (by simp [here, later])]

theorem run_evictAll {ids : List SlotId} (nodup : ids.Nodup) (c : GenState) : (evictAll ids).run c =
    .ok ⟨(), (ids.filter fun id => (c.cache.slots id).dirty).map (storeOf c.cache), [],
      { c with cache := c.cache.evictSlots ids }⟩ := by
  induction ids generalizing c with
  | nil => rfl
  | cons id rest ih =>
    obtain ⟨absent, nodup⟩ := List.nodup_cons.mp nodup
    -- the first eviction leaves the slots of the later ones as they were
    have same : ∀ q ∈ rest, (c.cache.evictSlot id).slots q = c.cache.slots q := fun q member =>
      slots_evictSlot_of_ne c.cache fun here => absent (here ▸ member)
    have dirty : (rest.filter fun q => ((c.cache.evictSlot id).slots q).dirty)
        = rest.filter fun q => (c.cache.slots q).dirty :=
      List.filter_congr fun q member => by rw [same q member]
    have stores : (rest.filter fun q => (c.cache.slots q).dirty).map (storeOf (c.cache.evictSlot id))
        = (rest.filter fun q => (c.cache.slots q).dirty).map (storeOf c.cache) :=
      List.map_congr_left fun q member => by
        rw [storeOf, storeOf, same q (List.mem_of_mem_filter member)]
    unfold evictAll
    rw [Emitter.run_bind_of_ok (run_evict id c), ih nodup, Emitter.prepend_ok]
    dsimp only
    rw [dirty, stores, List.filter_cons]
    split <;> rfl

theorem holds_of_verify {condition : Bool} {message : String} {c : GenState}
    {o : Emitted Instr PendingExit GenState Unit} (ran : (verify condition message).run c = .ok o) :
    condition = true ∧ o = ⟨(), [], [], c⟩ := by
  cases condition with
  | false => cases ran
  | true =>
    cases ran
    exact ⟨rfl, rfl⟩

/-- A reservation that succeeds finds enough slots to evict. -/
theorem reserved_of_run {c : GenState} {o : Emitted Instr PendingExit GenState Unit}
    (ran : (reserveRegisters p registers).run c = .ok o) :
    let locked := c.cache.lockPresent registers
    let needed := (c.cache.missing registers).card - c.cache.freeSlots.length
    needed ≤ locked.availableSlots.length ∧
      o = ⟨(), ((locked.victims p needed).filter fun id => (locked.slots id).dirty).map (storeOf locked), [],
        { c with cache := c.cache.reserved p registers }⟩ := by
  intro locked needed
  let c₁ : GenState := { c with cache := locked }
  unfold reserveRegisters at ran
  rw [Emitter.run_bind_of_ok (run_getCache c), Emitter.run_bind_of_ok (run_modifyCache _ c)] at ran
  dsimp only at ran
  rw [length_missingRegisters] at ran
  by_cases short : (c.cache.missing registers).card > c.cache.freeSlots.length
  · rw [if_pos short] at ran
    unfold freeCacheSlots at ran
    rw [Emitter.run_bind_of_ok (run_getCache c₁)] at ran
    dsimp only at ran
    cases checked : (verify (decide (needed ≤ locked.availableSlots.length))
        (toString "not enough available register cache slots to evict " ++ toString needed ++
          toString " registers")).run c₁ with
    | error e =>
      rw [Emitter.run_bind_of_error checked] at ran
      cases ran
    | ok checks =>
      -- behind the check the loop is a list of evictions, which do not fail
      obtain ⟨enough, rfl⟩ := holds_of_verify checked
      have evictions := run_evictAll (victims_spec p locked (of_decide_eq_true enough)).1 c₁
      rw [Emitter.run_bind_of_ok checked] at ran
      unfold victims at evictions
      rw [evictions] at ran
      cases ran
      exact ⟨of_decide_eq_true enough, rfl⟩
  · have none : needed = 0 := by omega
    rw [if_neg short] at ran
    cases ran
    unfold RegisterCache.reserved
    dsimp only
    rw [show (c.cache.missing registers).card - c.cache.freeSlots.length = 0 from none, none]
    exact ⟨Nat.zero_le _, rfl⟩

end Runs

/-! ### The slots it evicts -/

section Victims

variable {p : Platform} {c : RegisterCache} {registers : List RegisterToLock}

/-- What is evicted was used no later than what may be evicted and is not. -/
theorem victims_oldest (count : Nat) {id q : SlotId} (victim : id ∈ c.victims p count)
    (available : q ∈ c.availableSlots) (stays : q ∉ c.victims p count) :
    (c.slots id).lastUse.toNat ≤ (c.slots q).lastUse.toNat := by
  let sorted := (p.sort (fun id => (c.slots id).lastUse) c.availableSlots).reverse
  -- the slots stand from the one used first to the one used last
  have ascending : sorted.Pairwise fun a b => (c.slots a).lastUse.ule (c.slots b).lastUse = true :=
    List.pairwise_reverse.mpr (p.sort_sorted _ _)
  have member : q ∈ sorted :=
    List.mem_reverse.mpr ((p.sort_perm _ _).mem_iff.mpr available)
  rw [← List.take_append_drop count sorted, List.pairwise_append] at ascending
  rw [← List.take_append_drop count sorted, List.mem_append] at member
  have later : q ∈ sorted.drop count := member.resolve_left stays
  exact BitVec.le_def.mp (BitVec.ule_iff_le.mp (ascending.2.2 id victim q later))

theorem slots_reserved (p : Platform) (c : RegisterCache) (registers : List RegisterToLock) (q : SlotId) :
    (c.reserved p registers).slots q =
      if q ∈ (c.lockPresent registers).victims p ((c.missing registers).card - c.freeSlots.length)
      then {} else (c.lockPresent registers).slots q :=
  slots_evictSlots _ _ q

/-- A slot the request does not lock is unlocked, and its register was not asked for. -/
theorem Tables.unlocked_iff (tables : c.Tables) {id : SlotId} (occupied : (c.slots id).reg ≠ Register.zero) :
    ((c.lockPresent registers).slots id).locked = false ↔
      (c.slots id).locked = false ∧ (c.slots id).reg ∉ requested registers := by
  obtain ⟨locked, slot, iff⟩ := slots_lockPresent c registers id
  have place := (tables.placed _ id).mpr ⟨occupied, rfl⟩
  rw [slot]
  constructor
  · rintro rfl
    have spared := iff.not.mp Bool.false_ne_true
    rw [not_or] at spared
    exact ⟨by simpa using spared.1, fun asked => spared.2 ⟨_, asked, place⟩⟩
  · rintro ⟨unlocked, unasked⟩
    refine Bool.eq_false_iff.mpr fun holds => ?_
    rcases iff.mp holds with already | ⟨r, asked, there⟩
    · exact absurd already (by simp [unlocked])
    · exact unasked (((tables.placed r id).mp there).2.symm ▸ asked)

theorem Tables.makesRoom (tables : c.Tables) (p : Platform)
    (enough : (c.missing registers).card - c.freeSlots.length
      ≤ (c.lockPresent registers).availableSlots.length) :
    let locked := c.lockPresent registers
    let victims := locked.victims p ((c.missing registers).card - c.freeSlots.length)
    MakesRoom c registers (c.reserved p registers)
      ((victims.filter fun id => (locked.slots id).dirty).map (storeOf locked)) := by
  intro locked victims
  obtain ⟨nodup, length, spared⟩ := victims_spec p locked enough
  have same (q : SlotId) : ∃ held, locked.slots q = { c.slots q with locked := held } :=
    (slots_lockPresent c registers q).imp fun _ both => both.1
  have dirty (q : SlotId) : (locked.slots q).dirty = (c.slots q).dirty := by
    obtain ⟨_, slot⟩ := same q
    rw [slot]
  have lastUse (q : SlotId) : (locked.slots q).lastUse = (c.slots q).lastUse := by
    obtain ⟨_, slot⟩ := same q
    rw [slot]
  have reg (q : SlotId) : (locked.slots q).reg = (c.slots q).reg := reg_lockPresent c registers q
  have occupied {id : SlotId} (victim : id ∈ victims) : (c.slots id).reg ≠ Register.zero :=
    reg id ▸ (spared id victim).2
  -- exactly the victims lose their register
  have lost (id : SlotId) : id ∈ evicted c (c.reserved p registers) ↔ id ∈ victims := by
    rw [mem_evicted, slots_reserved]
    by_cases victim : id ∈ victims
    · rw [if_pos victim]
      exact iff_of_true ⟨occupied victim, rfl⟩ victim
    · rw [if_neg victim]
      exact iff_of_false (fun both => both.1 ((reg id).symm.trans both.2)) victim
  constructor
  · have whole : evicted c (c.reserved p registers) = victims.toFinset := by
      ext id
      rw [lost, List.mem_toFinset]
    rw [whole, List.toFinset_card_of_nodup nodup, length]
  · intro id member
    have victim := (lost id).mp member
    exact (tables.unlocked_iff (occupied victim)).mp (spared id victim).1
  · intro id member q outside held unlocked unasked
    have available : q ∈ locked.availableSlots := by
      have free := (tables.unlocked_iff held).mpr ⟨unlocked, unasked⟩
      simp [availableSlots, locked, free, reg_lockPresent, held]
    have order := victims_oldest _ ((lost id).mp member) available fun victim =>
      outside ((lost q).mpr victim)
    rwa [lastUse, lastUse] at order
  · intro q outside
    have stays : q ∉ victims := fun victim => outside ((lost q).mpr victim)
    rw [slots_reserved, if_neg stays]
    exact ⟨reg q, dirty q, lastUse q⟩
  · refine ⟨victims.filter fun id => (locked.slots id).dirty, nodup.filter _, fun id => ?_, ?_⟩
    · rw [List.mem_filter, dirty]
      exact and_congr_left' (lost id).symm
    · exact List.map_congr_left fun q _ => by rw [storeOf, storeOf, reg]

/-- A requested register keeps its slot, so none goes missing. -/
theorem missing_reserved (tables : c.Tables) (p : Platform)
    (enough : (c.missing registers).card - c.freeSlots.length
      ≤ (c.lockPresent registers).availableSlots.length) :
    (c.reserved p registers).Tables ∧
      (c.reserved p registers).missing registers = c.missing registers := by
  obtain ⟨nodup, -, spared⟩ := victims_spec p (c.lockPresent registers) enough
  have after : (c.reserved p registers).Tables :=
    (tables.lockPresent registers).evictSlots nodup fun id member => (spared id member).2
  have room := tables.makesRoom p enough
  refine ⟨after, Finset.ext fun r => ?_⟩
  rw [mem_missing, mem_missing]
  refine and_congr_right fun asked => ?_
  have nonzero := (mem_requested.mp asked).2
  constructor
  · intro absent
    cases place : c.registerToSlot r with
    | none => rfl
    | some id =>
      -- a requested register that had a slot was locked, and keeps it
      obtain ⟨-, here⟩ := (tables.placed r id).mp place
      have stays : id ∉ evicted c (c.reserved p registers) := fun member =>
        (room.spared id member).2 (here.symm ▸ asked)
      have there := (after.placed r id).mpr ⟨nonzero, (room.kept id stays).1.trans here⟩
      cases absent.symm.trans there
  · intro absent
    cases place : (c.reserved p registers).registerToSlot r with
    | none => rfl
    | some id =>
      obtain ⟨-, there⟩ := (after.placed r id).mp place
      have stays : id ∉ evicted c (c.reserved p registers) := fun member =>
        nonzero (there.symm.trans (mem_evicted.mp member).2)
      have here := (tables.placed r id).mpr ⟨nonzero, (room.kept id stays).1.symm.trans there⟩
      cases absent.symm.trans here

end Victims

/-! ### The loads of a lock -/

section Loads

variable {reads : List Register} {reg : Register}

/-- The rounds of the loop find a free slot for a register without one. -/
def HasRoom (c : RegisterCache) (reg : Register) : Prop :=
  reg ≠ Register.zero → c.registerToSlot reg = none → c.freeSlots ≠ []

theorem place_lockSlot_other (c : RegisterCache) {r : Register} (other : r ≠ reg) :
    (c.lockSlot reg).registerToSlot r = c.registerToSlot r := by
  unfold lockSlot
  split
  · rfl
  · split
    · rfl
    · rw [RegisterCache.assign, registerToSlot_setPlace, if_neg other]
      rfl
    · rfl

theorem place_lockSlot_of_place {c : RegisterCache} {r : Register} {id : SlotId}
    (place : c.registerToSlot r = some id) : (c.lockSlot reg).registerToSlot r = some id := by
  by_cases same : r = reg
  · subst same
    unfold lockSlot
    split
    · exact place
    · simp only [place]
      exact place
  · rw [place_lockSlot_other c same, place]

theorem HasRoom.place {c : RegisterCache} (room : HasRoom c reg) (nonzero : reg ≠ Register.zero) :
    ∃ id, (c.lockSlot reg).registerToSlot reg = some id := by
  cases place : c.registerToSlot reg with
  | some id => exact ⟨id, place_lockSlot_of_place place⟩
  | none =>
    cases free : c.freeSlots with
    | nil => exact absurd free (room nonzero place)
    | cons id rest =>
      refine ⟨id, ?_⟩
      simp only [lockSlot, if_neg nonzero, place, free, RegisterCache.assign, registerToSlot_setPlace,
        if_true]

theorem Tables.lockSlot {c : RegisterCache} (tables : c.Tables) : (c.lockSlot reg).Tables := by
  unfold RegisterCache.lockSlot
  split
  · exact tables
  next nonzero =>
    split
    next place => exact tables.setSlot rfl
    next absent free => exact tables.assign free nonzero absent
    · exact tables

theorem run_acquireCacheSlot_full {c : GenState} (full : c.cache.freeSlots = []) :
    acquireCacheSlot.run c = .error (.verify "cannot acquire slot: register cache is full") := by
  unfold acquireCacheSlot
  rw [Emitter.run_bind_of_ok (run_getCache c)]
  simp only [full]
  rfl

/-- A round that succeeds loads a register that had no slot and is read. -/
theorem lockSlot_of_run {c : GenState} {o : Emitted Instr PendingExit GenState A64R}
    (ran : (lockOne reads reg).run c = .ok o) :
    HasRoom c.cache reg ∧ o.state = { c with cache := c.cache.lockSlot reg } ∧
      o.code = if reg ≠ Register.zero ∧ c.cache.registerToSlot reg = none ∧ reg ∈ reads then
        [loadOf (c.cache.lockSlot reg) reg] else [] := by
  unfold lockOne at ran
  by_cases zero : reg = Register.zero
  · rw [if_pos zero] at ran
    cases ran
    refine ⟨fun nonzero => absurd zero nonzero, ?_, by rw [if_neg (fun all => all.1 zero)]⟩
    rw [show c.cache.lockSlot reg = c.cache from if_pos zero]
  rw [if_neg zero, Emitter.run_bind_of_ok (run_getCache c)] at ran
  dsimp only at ran
  cases place : c.cache.registerToSlot reg with
  | some id =>
    have locked : c.cache.lockSlot reg = c.cache.setSlot id
        { c.cache.slots id with locked := true, lastUse := c.cache.programCounter } := by
      simp only [RegisterCache.lockSlot, if_neg zero, place]
    rw [place] at ran
    dsimp only at ran
    rw [Emitter.run_bind_of_ok (run_modifyCache _ c)] at ran
    cases ran
    refine ⟨fun _ absent => ?_, by rw [locked], by simp⟩
    rw [place] at absent
    cases absent
  | none =>
    rw [place] at ran
    dsimp only at ran
    cases free : c.cache.freeSlots with
    | nil =>
      rw [Emitter.run_bind_of_error (run_acquireCacheSlot_full free)] at ran
      cases ran
    | cons id rest =>
      -- the register gets the slot, and its value if it is read
      have locked : c.cache.lockSlot reg = c.cache.assign id rest reg := by
        simp only [RegisterCache.lockSlot, if_neg zero, place, free]
      have home : (c.cache.lockSlot reg).home reg = RA.cache id := by
        rw [locked]
        refine home_placed ?_
        rw [RegisterCache.assign, registerToSlot_setPlace, if_pos rfl]
      rw [Emitter.run_bind_of_ok (run_acquireCacheSlot free),
        Emitter.run_bind_of_ok (run_modifyCache _ _)] at ran
      refine ⟨fun _ _ full => ?_, ?_⟩
      · rw [free] at full
        cases full
      · by_cases needed : reg ∈ reads
        · have load : (Instr.ldr .double false (RA.cache id) RA.registerState
            (.imm (slotOffset reg))).encodable = true := rfl
          rw [if_pos (List.contains_iff_mem.mpr needed), emitRegisterLoad,
            Emitter.run_bind_of_ok (run_ins load _)] at ran
          cases ran
          refine ⟨by rw [locked]; rfl, ?_⟩
          rw [if_pos ⟨zero, rfl, needed⟩, loadOf, home]
          rfl
        · rw [if_neg (fun held => needed (List.contains_iff_mem.mp held))] at ran
          cases ran
          refine ⟨by rw [locked]; rfl, ?_⟩
          rw [if_neg (fun all => needed all.2.2)]
          rfl

/-- What is missing behind a round: all but the register of the round. -/
theorem mem_missing_cons {c : RegisterCache} {first : RegisterToLock} {rest : List RegisterToLock}
    (room : HasRoom c first.reg) (r : Register) : r ∈ c.missing (first :: rest) ↔
      (r = first.reg ∧ first.reg ≠ Register.zero ∧ c.registerToSlot first.reg = none) ∨
        r ∈ (c.lockSlot first.reg).missing rest := by
  simp only [mem_missing, mem_requested, List.map_cons, List.mem_cons]
  by_cases same : r = first.reg
  · subst same
    constructor
    · rintro ⟨⟨-, nonzero⟩, absent⟩
      exact .inl ⟨rfl, nonzero, absent⟩
    · rintro (⟨-, nonzero, absent⟩ | ⟨⟨-, nonzero⟩, absent⟩)
      · exact ⟨⟨.inl rfl, nonzero⟩, absent⟩
      · -- the round has given the register a slot
        obtain ⟨id, place⟩ := room.place nonzero
        cases absent.symm.trans place
  · rw [place_lockSlot_other c same]
    constructor
    · rintro ⟨⟨here | later, nonzero⟩, absent⟩
      · exact absurd here same
      · exact .inr ⟨⟨later, nonzero⟩, absent⟩
    · rintro (⟨here, -⟩ | ⟨⟨later, nonzero⟩, absent⟩)
      · exact absurd here same
      · exact ⟨⟨.inr later, nonzero⟩, absent⟩

/-- The loop loads each register that had no slot and is read, once. -/
theorem lockEach_of_run {registers : List RegisterToLock} {c : GenState}
    {o : Emitted Instr PendingExit GenState (List A64R)} (tables : c.cache.Tables)
    (ran : (lockEach reads registers).run c = .ok o) :
    o.state.cache.Tables ∧
      (∀ r id, c.cache.registerToSlot r = some id → o.state.cache.registerToSlot r = some id) ∧
      OneEach o.code (loadOf o.state.cache) fun r => r ∈ c.cache.missing registers ∧ r ∈ reads := by
  induction registers generalizing c o with
  | nil =>
    cases ran
    refine ⟨tables, fun _ _ place => place, [], .nil, fun r => ?_, rfl⟩
    simp [mem_missing, mem_requested]
  | cons first rest ih =>
    unfold lockEach at ran
    obtain ⟨o₁, o₂, ran₁, ran₂, rfl⟩ := Emitter.run_bind_ok_iff.mp ran
    obtain ⟨o₃, o₄, ran₃, ran₄, rfl⟩ := Emitter.run_bind_ok_iff.mp ran₂
    cases ran₄
    obtain ⟨room, state, code⟩ := lockSlot_of_run ran₁
    rw [state] at ran₃
    obtain ⟨tables', grows, loads, nodup, member, later⟩ :=
      ih (c := { c with cache := c.cache.lockSlot first.reg }) tables.lockSlot ran₃
    refine ⟨tables', fun r id place => grows r id (place_lockSlot_of_place place), ?_⟩
    dsimp only at grows member ⊢
    rw [code, later]
    by_cases loaded : first.reg ≠ Register.zero ∧ c.cache.registerToSlot first.reg = none ∧
        first.reg ∈ reads
    · -- the register of this round has its slot now and is missing no more
      obtain ⟨id, place⟩ := room.place loaded.1
      have fresh : first.reg ∉ loads := fun again => by
        have absent := (mem_missing.mp ((member _).mp again).1).2
        cases absent.symm.trans place
      refine ⟨first.reg :: loads, List.nodup_cons.mpr ⟨fresh, nodup⟩, fun r => ?_, ?_⟩
      · show _ ↔ r ∈ c.cache.missing (first :: rest) ∧ r ∈ reads
        rw [List.mem_cons, member, mem_missing_cons room]
        constructor
        · rintro (rfl | ⟨missing, read⟩)
          · exact ⟨.inl ⟨rfl, loaded.1, loaded.2.1⟩, loaded.2.2⟩
          · exact ⟨.inr missing, read⟩
        · rintro ⟨⟨rfl, -⟩ | missing, read⟩
          · exact .inl rfl
          · exact .inr ⟨missing, read⟩
      · rw [if_pos loaded, List.append_nil, List.map_cons, loadOf, loadOf, home_placed place,
          home_placed (grows _ id place)]
        rfl
    · refine ⟨loads, nodup, fun r => ?_, ?_⟩
      · show _ ↔ r ∈ c.cache.missing (first :: rest) ∧ r ∈ reads
        rw [member, mem_missing_cons room]
        constructor
        · rintro ⟨missing, read⟩
          exact ⟨.inr missing, read⟩
        · rintro ⟨⟨rfl, nonzero, absent⟩ | missing, read⟩
          · exact absurd ⟨nonzero, absent, read⟩ loaded
          · exact ⟨missing, read⟩
      · rw [if_neg loaded, List.append_nil, List.nil_append]

end Loads

/-! ### Reachable caches -/

section Reachable

variable {p : Platform} {registers : List RegisterToLock}

theorem tables_reserve {c : GenState} {o : Emitted Instr PendingExit GenState Unit}
    (tables : c.cache.Tables) (ran : (reserveRegisters p registers).run c = .ok o) :
    o.state.cache.Tables ∧ o.state.cache.missing registers = c.cache.missing registers ∧
      MakesRoom c.cache registers o.state.cache o.code := by
  obtain ⟨enough, rfl⟩ := reserved_of_run ran
  obtain ⟨after, missing⟩ := missing_reserved tables p enough
  exact ⟨after, missing, tables.makesRoom p enough⟩

/-- No call of the class breaks the tables. -/
theorem Reached.tables {c : RegisterCache} (reached : Reached p c) : c.Tables := by
  -- only locks and unlocks change the slots; the other calls emit code or count
  induction reached with
  | new => exact WF.empty.tables
  | call before called ran tables =>
    cases called with
    | lockRegisters registers =>
      obtain ⟨o₁, o₂, reserve, each, rfl⟩ := Emitter.run_bind_ok_iff.mp ran
      exact (lockEach_of_run (tables_reserve tables reserve).1 each).1
    | unlockRegister reg makeDirty =>
      unfold unlockRegister at ran
      split at ran
      · cases ran
        exact tables
      · split at ran
        · cases ran
        · cases ran
          exact tables.setSlot rfl
    | takeStateSnapshot =>
      cases ran
      exact tables
    | flushRegisters snapshot =>
      rw [run_flushRegisters] at ran
      cases ran
      exact tables
    | finishInstruction =>
      unfold finishInstruction at ran
      obtain ⟨o₁, o₂, taken, rest, rfl⟩ := Emitter.run_bind_ok_iff.mp ran
      cases taken
      obtain ⟨o₃, o₄, checked, moved, rfl⟩ := Emitter.run_bind_ok_iff.mp rest
      obtain ⟨-, rfl⟩ := holds_of_verify checked
      cases moved
      exact ⟨tables.placed, tables.free, tables.nodup⟩

/-- The generator only sees reachable caches. -/
theorem Reached.makes {α : Type} {x : Gen α} {c : GenState} {calls : List (Emitter.Call CacheCall RegisterCache)}
    {o : Emitted Instr PendingExit GenState α} (makes : MakesCalls p x c calls o)
    (reached : Reached p c.cache) :
    Reached p o.state.cache ∧ ∀ call ∈ calls, Reached p call.before := by
  induction makes with
  | silent quiet ran =>
    rw [quiet _ _ ran]
    exact ⟨reached, fun _ member => absurd member List.not_mem_nil⟩
  | call called ran =>
    refine ⟨.call reached called ran, fun call member => ?_⟩
    rw [List.mem_singleton.mp member]
    exact reached
  | bind first second ih₁ ih₂ =>
    obtain ⟨between, before⟩ := ih₁ reached
    obtain ⟨after, later⟩ := ih₂ between
    exact ⟨after, fun call member => (List.mem_append.mp member).elim (before call) (later call)⟩

end Reachable

end RegisterCache

theorem mem_readRegisters {registers : List RegisterToLock} {r : Register} (nonzero : r ≠ Register.zero) :
    r ∈ readRegisters registers ↔ ∃ q ∈ registers, q.reg = r ∧ q.writeOnly = false := by
  simp only [readRegisters, List.mem_map, List.mem_filter, Bool.and_eq_true, bne_iff_ne,
    Bool.not_eq_true']
  constructor
  · rintro ⟨q, ⟨asked, -, read⟩, rfl⟩
    exact ⟨q, asked, rfl, read⟩
  · rintro ⟨q, asked, rfl, read⟩
    exact ⟨q, ⟨asked, nonzero, read⟩, rfl⟩

/-- In every cache the class can get into, a reservation evicts the slots used longest ago, no more
than it needs, and stores the dirty ones. The lock behind it loads the registers that were not
there and are read. -/
theorem lockRegisters_evicts (p : Platform) (c : GenState) (reached : Reached p c.cache)
    (registers : List RegisterToLock) :
    (∀ o, (reserveRegisters p registers).run c = .ok o →
      MakesRoom c.cache registers o.state.cache o.code) ∧
    ∀ o, (lockRegisters p registers).run c = .ok o → ∃ reserve loads,
      (reserveRegisters p registers).run c = .ok reserve ∧ o.code = reserve.code ++ loads ∧
        OneEach loads (loadOf o.state.cache) fun r => r ∈ c.cache.missing registers ∧
          ∃ q ∈ registers, q.reg = r ∧ q.writeOnly = false := by
  refine ⟨fun o ran => (tables_reserve reached.tables ran).2.2, fun o ran => ?_⟩
  obtain ⟨reserve, each, ran₁, ran₂, rfl⟩ := Emitter.run_bind_ok_iff.mp ran
  obtain ⟨tables, missing, -⟩ := tables_reserve reached.tables ran₁
  obtain ⟨-, -, l, nodup, member, code⟩ := lockEach_of_run tables ran₂
  refine ⟨reserve, each.code, ran₁, rfl, l, nodup, fun r => ?_, code⟩
  dsimp only at member ⊢
  rw [member, missing]
  exact and_congr_right fun absent => mem_readRegisters (mem_requested.mp (mem_missing.mp absent).1).2

/-! ### A full cache -/

namespace FullCache

/-- An instruction that reads `reg` and may write it. -/
def touch (reg : Register) (write : Bool) : Gen Unit := do
  let locked ← lockRegisters .plain [⟨reg, false⟩]
  unlockRegister (locked.headD A64R.xzr) write
  finishInstruction

/-- The odd registers are written. -/
def touchAll : List Register → Gen Unit
  | [] => pure ()
  | reg :: rest => do
    touch reg (reg.val % 2 = 1)
    touchAll rest

/-- `x1` to `x17`, as many as there are slots. -/
def registers : List Register := (List.finRange 17).map fun k => ⟨k.val + 1, by omega⟩

/-- The state behind seventeen instructions. -/
def state : GenState :=
  match (touchAll registers).run ⟨0, {}⟩ with
  | .ok o => o.state
  | .error _ => ⟨0, {}⟩

/-- Two registers without a slot, one of them asked for twice, and the register used longest ago. -/
def request : List RegisterToLock := [⟨18, false⟩, ⟨1, false⟩, ⟨19, true⟩, ⟨18, true⟩]

theorem reached_touch {reg : Register} {write : Bool} {c : GenState} {o : Emitted Instr PendingExit GenState Unit}
    (before : Reached .plain c.cache) (ran : (touch reg write).run c = .ok o) : Reached .plain o.state.cache := by
  unfold touch at ran
  obtain ⟨o₁, o₂, locked, rest, rfl⟩ := Emitter.run_bind_ok_iff.mp ran
  obtain ⟨o₃, o₄, unlocked, finished, rfl⟩ := Emitter.run_bind_ok_iff.mp rest
  have held : Reached .plain o₁.state.cache := .call before (.lockRegisters _ _) locked
  have released : Reached .plain o₃.state.cache := .call held (.unlockRegister _ _) unlocked
  have done : Reached .plain o₄.state.cache := .call released .finishInstruction finished
  exact done

theorem reached_touchAll {regs : List Register} {c : GenState} {o : Emitted Instr PendingExit GenState Unit}
    (before : Reached .plain c.cache) (ran : (touchAll regs).run c = .ok o) : Reached .plain o.state.cache := by
  induction regs generalizing c o with
  | nil =>
    cases ran
    exact before
  | cons reg rest ih =>
    obtain ⟨o₁, o₂, touched, later, rfl⟩ := Emitter.run_bind_ok_iff.mp ran
    have done : Reached .plain o₂.state.cache := ih (reached_touch before touched) later
    exact done

theorem reached : Reached .plain state.cache := by
  unfold state
  split
  next o ran => exact reached_touchAll .new ran
  · exact .new

/-- The slots are filled from the last to the first. -/
theorem slots_state (id : SlotId) : state.cache.slots id =
    ⟨BitVec.ofNat 32 (16 - id.val), ⟨17 - id.val, by omega⟩, false, (17 - id.val) % 2 = 1⟩ := by
  revert id
  decide +kernel

theorem freeSlots_state : state.cache.freeSlots = [] := by decide +kernel

theorem missing_request : state.cache.missing request = {18, 19} := by decide +kernel

theorem occupied (id : SlotId) : 17 - id.val ≠ 0 := by
  have bound : id.val < 17 := id.isLt
  omega

theorem wf : state.cache.WF where
  placed := reached.tables.placed
  free := reached.tables.free
  nodup := reached.tables.nodup
  idle id empty := by
    rw [slots_state] at empty
    exact absurd (congrArg Fin.val empty) (occupied id)
  below id last := by
    rw [slots_state] at last
    have pc : 17 - id.val = 32 := congrArg Fin.val last
    omega

theorem runs_request : ∃ o, (lockRegisters .plain request).run state = .ok o := by
  have idle : Idle state.cache := ⟨wf, fun id => by rw [slots_state]⟩
  -- which code goes with it does not matter, so any block will do
  let b : Block := ⟨.plain, ⟨{}, 0, false, fun _ => 0⟩, 0, 0⟩
  obtain ⟨code, emitted, -⟩ :=
    does_lockRegisters .plain b wf (idle.room (show request.length ≤ RA.cacheSize by decide)) (by decide)
  exact ⟨_, emitted⟩

theorem asked_iff (q : SlotId) : (⟨17 - q.val, by omega⟩ : Register) ∈ requested request ↔ q = 16 := by
  revert q
  decide

/-- What the request needs is taken from `x2` and `x3`: `x1` was used before them, but is asked for. -/
theorem evicted_of_makesRoom {c : RegisterCache} {code : List (Item Instr)}
    (room : MakesRoom state.cache request c code) : evicted state.cache c = {14, 15} := by
  have two : (evicted state.cache c).card = 2 := by
    rw [room.count, missing_request, freeSlots_state]
    rfl
  have spared (id : SlotId) (member : id ∈ evicted state.cache c) : id ≠ 16 := by
    have unasked := (room.spared id member).2
    rwa [slots_state, asked_iff] at unasked
  -- the slots are used from the last to the first
  have order (id : SlotId) (member : id ∈ evicted state.cache c) (q : SlotId) (stays : q ∉ evicted state.cache c)
      (other : q ≠ 16) : q.val ≤ id.val := by
    have later := room.oldest id member q stays
    simp only [slots_state, asked_iff] at later
    have later := later (fun zero => occupied q (congrArg Fin.val zero)) trivial other
    have bound : q.val < 17 := q.isLt
    simp only [BitVec.toNat_ofNat] at later
    omega
  have second : 15 ∈ evicted state.cache c := by
    by_contra stays
    have only : ∀ id : SlotId, 15 ≤ id.val → id ≠ 16 → id = 15 := by decide
    have none : evicted state.cache c = ∅ := Finset.eq_empty_of_forall_notMem fun id member =>
      stays (only id (order id member 15 stays (by decide)) (spared id member) ▸ member)
    rw [none] at two
    cases two
  have third : 14 ∈ evicted state.cache c := by
    by_contra stays
    have only : ∀ id : SlotId, 14 ≤ id.val → id ≠ 16 → id ≠ 14 → id = 15 := by decide
    have one : evicted state.cache c ⊆ {15} := fun id member => Finset.mem_singleton.mpr
      (only id (order id member 14 stays (by decide)) (spared id member) fun same => stays (same ▸ member))
    have few := Finset.card_le_card one
    rw [two] at few
    exact absurd few (by decide)
  refine (Finset.eq_of_subset_of_card_le (fun id member => ?_) (by rw [two]; rfl)).symm
  rcases Finset.mem_insert.mp member with rfl | member
  · exact third
  · exact Finset.mem_singleton.mp member ▸ second

end FullCache

/-- The request takes the slots of `x2` and `x3`, of which the second was written, and reads `x18` alone. -/
theorem lockRegisters_evicts_full : ∃ reserve o loads,
    Reached .plain FullCache.state.cache ∧ FullCache.state.cache.freeSlots = [] ∧
      (reserveRegisters .plain FullCache.request).run FullCache.state = .ok reserve ∧
      evicted FullCache.state.cache reserve.state.cache = {14, 15} ∧
      reserve.code = [storeOf FullCache.state.cache 14] ∧
      (lockRegisters .plain FullCache.request).run FullCache.state = .ok o ∧
      o.code = reserve.code ++ loads ∧ loads = [loadOf o.state.cache 18] := by
  obtain ⟨o, ran⟩ := FullCache.runs_request
  obtain ⟨room, locks⟩ :=
    lockRegisters_evicts .plain FullCache.state FullCache.reached FullCache.request
  obtain ⟨reserve, loads, reserved, code, each⟩ := locks o ran
  have made := room reserve reserved
  have victims := FullCache.evicted_of_makesRoom made
  refine ⟨reserve, o, loads, FullCache.reached, FullCache.freeSlots_state, reserved, victims,
    made.stores.singleton fun id => ?_, ran, code, each.singleton fun r => ?_⟩
  · rw [victims, FullCache.slots_state]
    revert id
    decide
  · rw [FullCache.missing_request]
    revert r
    decide

end Riscv64Emulator.Jit.Aarch64
