import Riscv64Emulator.Jit.Aarch64.Fragments

/-!
# Locking registers

The code `lock_registers` emits moves guest registers between the table and the cache and
changes nothing the guest can see. Afterwards every register it was asked for has a home,
and those that are read hold their value there.
-/
namespace Riscv64Emulator.Jit.Aarch64

open LinearCode WriteBack RegisterCache

/-- The registers the generators compute in are as they were. -/
def Spares (s s' : State) : Prop :=
  ∀ q, isScratch q = true → s'.regs q = s.regs q ∧ s'.foreign q = s.foreign q

theorem Spares.refl (s : State) : Spares s s := fun _ _ => ⟨rfl, rfl⟩

theorem Spares.trans {s s' s'' : State} (first : Spares s s') (second : Spares s' s'') :
    Spares s s'' := fun q scratch =>
  ⟨(second q scratch).1.trans (first q scratch).1, (second q scratch).2.trans (first q scratch).2⟩

theorem isScratch_cache (id : SlotId) : isScratch (RA.cache id) = false := by
  revert id
  decide

theorem isFree_cache (id : SlotId) : isFree (RA.cache id) = true := by
  revert id
  decide

namespace Mirrors

variable {b : Block} {c c' : RegisterCache} {stale : Register → Prop} {k : Ghost} {s s' : State}

/-- Only the bookkeeping changed. -/
theorem congr (mirrors : Mirrors b c stale k s) (same : c'.directory = c.directory) :
    Mirrors b c' stale k s :=
  ⟨mirrors.ready, mirrors.memory, same ▸ mirrors.registers⟩

theorem settle (mirrors : Mirrors b c stale k s) {stale' : Register → Prop}
    (settled : ∀ i r, c.directory.key i = some r → c.directory.dirty i = false → stale r →
      stale' r) : Mirrors b c stale' k s :=
  ⟨mirrors.ready, mirrors.memory, mirrors.registers.settle settled⟩

/-- Registers outside the cache do not matter. -/
theorem disturb (mirrors : Mirrors b c stale k s) {ts : List A64R} (disturbs : Disturbs ts s s')
    (scratch : ∀ t ∈ ts, isScratch t = true) : Mirrors b c stale k s' := by
  have free : ∀ t ∈ ts, isFree t = true := by
    have all : ∀ t, isScratch t = true → isFree t = true := by decide
    exact fun t member => all t (scratch t member)
  have same : cells s' = cells s := by
    funext id
    have outside : RA.cache id ∉ ts := fun member => by
      simpa [isScratch_cache] using scratch _ member
    simp only [cells, (disturbs.2 _ outside).1, (disturbs.2 _ outside).2]
  refine ⟨mirrors.ready.disturb disturbs free, by rw [disturbs.1, mirrors.memory], ?_⟩
  rw [same, disturbs.1]
  exact mirrors.registers

/-- The value of a register in its home. -/
theorem home (mirrors : Mirrors b c stale k s) (wf : c.WF) {r : Register}
    (placed : r ≠ Register.zero → c.registerToSlot r ≠ none)
    (fresh : r ≠ Register.zero → ¬stale r) :
    s.get (c.home r) = k.2.registers.get r ∧ s.getForeign (c.home r) = false := by
  cases place : c.registerToSlot r with
  -- only register zero has no slot here, and it reads as zero
  | none =>
    have zero : r = Register.zero := by
      by_contra nonzero
      exact placed nonzero place
    subst zero
    have absent : ∀ i, c.directory.key i ≠ some Register.zero := by
      intro i here
      rw [wf.key_iff, place] at here
      cases here
    have entry := congrArg Prod.fst (mirrors.registers.absent absent)
    rw [home_absent place, ← show _ = k.2.registers.get Register.zero from entry]
    exact ⟨mirrors.ready.anchored.serves.zero.symm, rfl⟩
  | some id =>
    have nonzero := ((wf.placed r id).mp place).1
    have held := mirrors.registers.held id r (wf.key_iff.mpr place) (Or.inr (fresh nonzero))
    rw [home_placed place, (get_cache s id).1, (get_cache s id).2]
    exact ⟨congrArg Prod.fst held, congrArg Prod.snd held⟩

end Mirrors

/-! ### Evictions -/

section Evictions

variable {b : Block} {c : GenState}

theorem does_evict (b : Block) {id : SlotId} (wf : c.cache.WF)
    (occupied : (c.cache.slots id).reg ≠ Register.zero) :
    Does (evict id) c () { c with cache := c.cache.evictSlot id } (Mirrors b c.cache settled)
      (fun k s s' => Mirrors b (c.cache.evictSlot id) settled k s' ∧ Spares s s') := by
  have key : c.cache.directory.key id = some (c.cache.slots id).reg := if_neg occupied
  unfold evict
  refine .silent (run_getCache c) ?_
  dsimp only
  -- only a dirty slot is stored; a clean one is forgotten without code
  by_cases dirty : (c.cache.slots id).dirty = true
  · rw [if_pos dirty]
    have store : (Instr.str .double (RA.cache id) RA.registerState
      (.imm (slotOffset (c.cache.slots id).reg))).encodable = true := rfl
    refine ⟨_, by rw [emitRegisterStore, Emitter.run_bind_of_ok (run_ins store c)]; rfl, rfl, ?_⟩
    intro k s mirrors
    have held := mirrors.registers.held id _ key (Or.inl dirty)
    have native : s.foreign (RA.cache id) = false := congrArg Prod.snd held
    obtain ⟨value, own⟩ := get_cache s id
    obtain ⟨safe, next⟩ := step_registerStore mirrors.ready.anchored _ occupied (wf.below id)
      (own.trans native)
    rw [value] at next
    refine ⟨s.setGuest (s.guest.setRegister (c.cache.slots id).reg (s.regs (RA.cache id))),
      by simp [next], by simpa using safe, ⟨?_, mirrors.memory, ?_⟩, .refl s⟩
    · exact mirrors.ready.setGuest (mirrors.ready.anchored.serves.setRegister _ _)
    · have snapshot : c.cache.directory.snapshot id = some (c.cache.slots id).reg := by
        rw [Directory.snapshot, show c.cache.directory.dirty id = true from dirty, if_pos rfl, key]
      have after := mirrors.registers.evict id
      rw [snapshot, writeBack, ← directory_evictSlot, cells, native] at after
      rwa [State.guest_setGuest, entries_setRegister _ _ _ occupied]
  · rw [if_neg dirty]
    refine ⟨[], rfl, rfl, fun k s mirrors => ⟨s, rfl, trivial, ⟨mirrors.ready, mirrors.memory, ?_⟩,
      .refl s⟩⟩
    have snapshot : c.cache.directory.snapshot id = none := if_neg dirty
    have after := mirrors.registers.evict id
    rwa [snapshot, writeBack, ← directory_evictSlot] at after

theorem does_evictAll (b : Block) {ids : List SlotId} (wf : c.cache.WF) (nodup : ids.Nodup)
    (occupied : ∀ id ∈ ids, (c.cache.slots id).reg ≠ Register.zero) :
    Does (evictAll ids) c () { c with cache := c.cache.evictSlots ids }
      (Mirrors b c.cache settled)
      (fun k s s' => Mirrors b (c.cache.evictSlots ids) settled k s' ∧ Spares s s') := by
  induction ids generalizing c with
  | nil =>
    refine (Emitter.Straight.pure () c).conseq (fun _ _ _ => trivial) ?_
    rintro k s _ mirrors rfl
    exact ⟨mirrors, .refl _⟩
  | cons id rest ih =>
    obtain ⟨absent, nodup⟩ := List.nodup_cons.mp nodup
    have here := occupied id List.mem_cons_self
    -- the other slots stay occupied when the first is evicted
    have later := ih (c := { c with cache := c.cache.evictSlot id }) (wf.evictSlot here) nodup
      (occupied_evictSlot absent occupied)
    refine (does_evict b wf here).seq later (fun _ _ mirrors => mirrors) ?_
    rintro k s s₁ - ⟨mirrors, spares⟩
    exact ⟨mirrors, fun s₂ after => ⟨after.1, spares.trans after.2⟩⟩

theorem does_reserveRegisters (p : Platform) (b : Block) (wf : c.cache.WF)
    {registers : List RegisterToLock} (room : c.cache.Room registers) :
    Does (reserveRegisters p registers) c () { c with cache := c.cache.reserved p registers }
      (Mirrors b c.cache settled)
      (fun k s s' => Mirrors b (c.cache.reserved p registers) settled k s' ∧ Spares s s') := by
  let locked : GenState := { c with cache := c.cache.lockPresent registers }
  have enough := wf.enough room
  obtain ⟨nodup, -, spared⟩ := victims_spec p locked.cache enough
  have evictions := does_evictAll (c := locked) b (wf.lockPresent registers) nodup
    fun id member => (spared id member).2
  have enters : ∀ k s, Mirrors b c.cache settled k s → Mirrors b locked.cache settled k s :=
    fun k s mirrors => mirrors.congr (directory_lockPresent c.cache registers)
  unfold reserveRegisters
  refine .silent (run_getCache c) ?_
  refine .silent (show (modifyCache _).run c = .ok ⟨(), [], [], locked⟩ from run_modifyCache _ c) ?_
  dsimp only
  rw [length_missingRegisters]
  -- slots are freed only when the free ones do not suffice
  by_cases short : (c.cache.missing registers).card > c.cache.freeSlots.length
  · rw [if_pos short]
    unfold freeCacheSlots
    refine .silent (run_getCache locked) ?_
    have verified : (verify (decide ((c.cache.missing registers).card - c.cache.freeSlots.length
        ≤ locked.cache.availableSlots.length))
        (toString "not enough available register cache slots to evict " ++
          toString ((c.cache.missing registers).card - c.cache.freeSlots.length) ++
          toString " registers")).run locked = .ok ⟨(), [], [], locked⟩ := by
      rw [verify, if_pos (decide_eq_true enough)]
      rfl
    refine .silent verified ?_
    exact evictions.conseq enters fun _ _ _ _ post => post
  · have none : (c.cache.missing registers).card - c.cache.freeSlots.length = 0 := by omega
    rw [if_neg short]
    have nothing : c.cache.reserved p registers = locked.cache := by
      unfold RegisterCache.reserved
      rw [none]
      rfl
    rw [nothing]
    refine (Emitter.Straight.pure () locked).conseq (fun _ _ _ => trivial) ?_
    rintro k s _ mirrors rfl
    exact ⟨enters k _ mirrors, .refl _⟩

end Evictions

/-! ### Locking -/

/-- The registers a call takes a slot for without loading their value. -/
def Unread (c : RegisterCache) (registers : List RegisterToLock) (r : Register) : Prop :=
  c.registerToSlot r = none ∧ r ∉ readRegisters registers

section Lock

variable {b : Block} {c : GenState} {stale : Register → Prop}

theorem run_acquireCacheSlot {id : SlotId} {rest : List SlotId} (free : c.cache.freeSlots = id :: rest) :
    acquireCacheSlot.run c = .ok ⟨id, [], [], { c with cache := { c.cache with freeSlots := rest } }⟩ := by
  unfold acquireCacheSlot
  rw [Emitter.run_bind_of_ok (run_getCache c)]
  simp only [free]
  rfl

/-- One round of the loop of `lock_registers_internal`. -/
theorem does_lockOne (b : Block) (stale : Register → Prop) (reads : List Register)
    {reg : Register} (wf : c.cache.WF) (below : reg ≠ Register.pc)
    (room : reg ≠ Register.zero → c.cache.registerToSlot reg = none → c.cache.freeSlots ≠ [])
    (unread : reg ≠ Register.zero → reg ∉ reads → c.cache.registerToSlot reg = none → stale reg) :
    Does (lockOne reads reg) c ((c.cache.lockSlot reg).home reg)
      { c with cache := c.cache.lockSlot reg } (Mirrors b c.cache stale)
      (fun k s s' => Mirrors b (c.cache.lockSlot reg) stale k s' ∧ Spares s s') := by
  by_cases zero : reg = Register.zero
  · have same : c.cache.lockSlot reg = c.cache := if_pos zero
    rw [same, zero, wf.home_zero]
    refine (Emitter.Straight.pure A64R.xzr c).conseq (fun _ _ _ => trivial) ?_
    rintro k s _ mirrors rfl
    exact ⟨mirrors, .refl _⟩
  unfold lockOne
  rw [if_neg zero]
  refine .silent (run_getCache c) ?_
  dsimp only
  cases place : c.cache.registerToSlot reg with
  | some id =>
    have locked : c.cache.lockSlot reg = c.cache.setSlot id
        { c.cache.slots id with locked := true, lastUse := c.cache.programCounter } := by
      simp only [lockSlot, if_neg zero, place]
    have home : (c.cache.lockSlot reg).home reg = RA.cache id := by
      rw [locked]
      exact home_placed place
    rw [home]
    refine .silent (run_modifyCache _ c) ?_
    rw [← locked]
    refine (Emitter.Straight.pure _ _).conseq (fun _ _ _ => trivial) ?_
    rintro k s _ mirrors rfl
    refine ⟨mirrors.congr ?_, .refl _⟩
    rw [locked]
    exact directory_setSlot rfl rfl
  | none =>
    cases free : c.cache.freeSlots with
    | nil => exact absurd free (room zero place)
    | cons id rest =>
      have locked : c.cache.lockSlot reg = c.cache.assign id rest reg := by
        simp only [lockSlot, if_neg zero, place, free]
      have home : (c.cache.lockSlot reg).home reg = RA.cache id := by
        rw [locked]
        refine home_placed ?_
        rw [RegisterCache.assign, registerToSlot_setPlace, if_pos rfl]
      have acquired := run_acquireCacheSlot free
      have nowhere : ∀ j, c.cache.directory.key j ≠ some reg := by
        intro j here
        rw [wf.key_iff, place] at here
        cases here
      have empty : c.cache.directory.key id = none :=
        if_pos ((wf.free id).mp (by rw [free]; exact List.mem_cons_self))
      have directory := directory_assign wf free zero
      rw [home]
      refine .silent acquired ?_
      refine .silent (show (modifyCache _).run _ = .ok ⟨(), [], [],
        { c with cache := c.cache.lockSlot reg }⟩ by rw [run_modifyCache, locked]; rfl) ?_
      -- a register that is only written gets its slot without a load
      by_cases needed : reads.contains reg = true
      · rw [if_pos needed]
        have load : Does (emitRegisterLoad (RA.cache id) reg)
            { c with cache := c.cache.lockSlot reg } () { c with cache := c.cache.lockSlot reg }
            (Mirrors b c.cache stale) (fun k s s' =>
              Mirrors b (c.cache.lockSlot reg) stale k s' ∧ Spares s s') := by
          refine .instr (run_ins rfl _) fun k s mirrors => ?_
          obtain ⟨safe, next⟩ := step_registerLoad mirrors.ready.anchored (t := RA.cache id) reg
            zero below
          have disturbs : Disturbs [RA.cache id] s
              (s.setReg (RA.cache id) (s.guest.registers.get reg) false) :=
            .setReg (by simp) s _ _
          refine ⟨safe, _, next, ⟨mirrors.ready.disturb disturbs ?_, ?_, ?_⟩, fun q scratch => ?_⟩
          · simp [isFree_cache]
          · rw [disturbs.1, mirrors.memory]
          · rw [locked, directory, disturbs.1]
            -- the loaded cell holds what the store has, the others are untouched
            refine mirrors.registers.load nowhere empty ?_ fun j other => ?_
            · simp only [cells, State.regs_setReg s (cache_ne_xzr id),
                State.foreign_setReg s (cache_ne_xzr id), if_true, entries]
            · have apart : RA.cache j ≠ RA.cache id := fun same => other (cache_injective same)
              simp only [cells, State.regs_setReg s (cache_ne_xzr id),
                State.foreign_setReg s (cache_ne_xzr id), if_neg apart]
          · refine disturbs.2 q fun member => ?_
            rw [List.mem_singleton.mp member, isScratch_cache] at scratch
            cases scratch
        refine load.seq (Emitter.Straight.pure _ _) (fun _ _ mirrors => mirrors) ?_
        rintro k s s₁ - after
        refine ⟨trivial, ?_⟩
        rintro s₂ rfl
        exact after
      · rw [if_neg needed]
        refine (Emitter.Straight.pure _ _).conseq (fun _ _ _ => trivial) ?_
        rintro k s _ mirrors rfl
        have absent : reg ∉ reads := fun member => needed (by simpa using member)
        refine ⟨⟨mirrors.ready, mirrors.memory, ?_⟩, .refl _⟩
        rw [locked, directory]
        exact mirrors.registers.reserve nowhere empty (unread zero absent place)

/-- A register keeps its home while slots are only added. -/
theorem RegisterCache.Extends.home {c c' : RegisterCache} (grows : Extends c c') {r : Register}
    (placed : r = Register.zero ∨ ∃ id, c.registerToSlot r = some id) : c'.home r = c.home r := by
  rcases placed with rfl | ⟨id, place⟩
  · rw [grows.wf.home_zero]
    cases place : c.registerToSlot Register.zero with
    | none => rw [home_absent place]
    | some id =>
      have moved := grows.places _ id place
      rw [grows.wf.place_zero] at moved
      cases moved
  · rw [home_placed place, home_placed (grows.places r id place)]

/-- The loop of `lock_registers_internal`. -/
theorem does_lockEach (b : Block) (stale : Register → Prop) (reads : List Register)
    {registers : List RegisterToLock} (wf : c.cache.WF) (fits : (c.cache.missing registers).card ≤ c.cache.freeSlots.length)
    (below : ∀ r ∈ registers, r.reg ≠ Register.pc)
    (unread : ∀ r ∈ requested registers, r ∉ reads → c.cache.registerToSlot r = none → stale r) :
    let c' := c.cache.lockSlots (registers.map RegisterToLock.reg)
    Does (lockEach reads registers) c (registers.map fun r => c'.home r.reg) { c with cache := c' }
      (Mirrors b c.cache stale) (fun k s s' => Mirrors b c' stale k s' ∧ Spares s s') := by
  induction registers generalizing c with
  | nil =>
    refine (Emitter.Straight.pure _ _).conseq (fun _ _ _ => trivial) ?_
    rintro k s _ mirrors rfl
    exact ⟨mirrors, .refl _⟩
  | cons first rest ih =>
    intro c'
    obtain ⟨room, fits'⟩ := fits_lockSlot fits
    have below₁ := below first List.mem_cons_self
    have belows : ∀ r ∈ rest, r.reg ≠ Register.pc :=
      fun r member => below r (List.mem_cons_of_mem _ member)
    obtain ⟨grows, found, others, -⟩ := wf.lockSlot below₁ room
    obtain ⟨later, -⟩ := grows.wf.lockSlots fits' belows
    have round := does_lockOne b stale reads wf below₁ room ?_
    · have loop := ih (c := { c with cache := c.cache.lockSlot first.reg }) grows.wf fits' belows ?_
      -- later locks leave the first register where it is
      · have home : c'.home first.reg = (c.cache.lockSlot first.reg).home first.reg := by
          refine later.home ?_
          by_cases zero : first.reg = Register.zero
          · exact Or.inl zero
          · obtain ⟨id, place, -⟩ := found zero
            exact Or.inr ⟨id, place⟩
        have rest : Does (lockEach reads rest >>= fun outputs => pure (c'.home first.reg :: outputs))
            { c with cache := c.cache.lockSlot first.reg }
            (c'.home first.reg :: rest.map fun r => c'.home r.reg) { c with cache := c' }
            (Mirrors b (c.cache.lockSlot first.reg) stale)
            (fun k s s' => Mirrors b c' stale k s' ∧ Spares s s') := by
          refine loop.seq (Emitter.Straight.pure _ _) (fun _ _ mirrors => mirrors) ?_
          rintro k s s₁ - after
          refine ⟨trivial, ?_⟩
          rintro s₂ rfl
          exact after
        · rw [← home] at round
          refine round.seq rest (fun _ _ mirrors => mirrors) ?_
          rintro k s s₁ - ⟨mirrors, spares⟩
          exact ⟨mirrors, fun s₂ after => ⟨after.1, spares.trans after.2⟩⟩
      · intro r member absent place
        have asked : r ∈ requested (first :: rest) := by
          rw [mem_requested] at member ⊢
          exact ⟨List.mem_cons_of_mem _ member.1, member.2⟩
        refine unread r asked absent ?_
        cases before : c.cache.registerToSlot r with
        | none => rfl
        | some id => exact absurd (place.symm.trans (grows.places r id before)) (by simp)
    · exact fun nonzero => unread _ (mem_requested.mpr ⟨List.mem_cons_self, nonzero⟩)

/-- `lock_registers_internal`. -/
theorem does_lockRegisters (p : Platform) (b : Block) {registers : List RegisterToLock}
    (wf : c.cache.WF) (room : c.cache.Room registers)
    (below : ∀ r ∈ registers, r.reg ≠ Register.pc) :
    Does (lockRegisters p registers) c
      (registers.map fun r => (c.cache.locking p registers).home r.reg)
      { c with cache := c.cache.locking p registers } (Mirrors b c.cache settled)
      (fun k s s' => Mirrors b (c.cache.locking p registers) (Unread c.cache registers) k s' ∧
        Spares s s') := by
  have reserves := wf.reserved p room
  have loop := does_lockEach (c := { c with cache := c.cache.reserved p registers }) b
    (Unread c.cache registers) (readRegisters registers) reserves.wf reserves.fits below ?_
  · refine (does_reserveRegisters p b wf room).seq loop (fun _ _ mirrors => mirrors) ?_
    rintro k s s₁ - ⟨mirrors, spares⟩
    exact ⟨mirrors.settle fun _ _ _ _ none => False.elim none,
      fun s₂ after => ⟨after.1, spares.trans after.2⟩⟩
  -- a requested register that reserving lost would have been a victim
  · intro r member absent place
    refine ⟨?_, absent⟩
    cases before : c.cache.registerToSlot r with
    | none => rfl
    | some id =>
      have here := (wf.placed r id).mp before
      have stays := (reserves.kept id (Or.inr ⟨r, member, before⟩)).1
      have there := (reserves.wf.placed r id).mpr ⟨here.1, stays.trans here.2⟩
      exact absurd (place.symm.trans there) (by simp)

end Lock

end Riscv64Emulator.Jit.Aarch64
