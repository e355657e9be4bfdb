import Riscv64Emulator.Jit.Aarch64.Control

/-!
# The registers of an instruction

`with_registers` locks the registers an instruction reads and writes, and unlocks them
behind its code. Code that fills the destination from the operands retires the instruction.
-/
namespace Riscv64Emulator.Jit.Aarch64

open LinearCode WriteBack RegisterCache

/-- A generator of a fragment of the block `b`. -/
abbrev Emits {α : Type} (b : Block) (x : Gen α) (c : GenState) (a : α) (c' : GenState)
    (pre : Ghost → State → Prop) (post : Ghost → State → Ending State Exit → Prop) : Prop :=
  Emitter.Emits (fun k : Ghost => step k.1) (fun k => Sandboxed k.1) (exitCode b)
    PendingExit.label GenState.nextLabel x c a c' pre post

/-! ### Homes -/

theorem isScratch_home (c : RegisterCache) (r : Register) : isScratch (c.home r) = false := by
  unfold home
  split
  · exact isScratch_cache _
  · rfl

/-- The registers that are read keep their values through the lock. -/
theorem Mirrors.operand {b : Block} {c c' : RegisterCache} {registers : List RegisterToLock}
    {k : Ghost} {s : State} (mirrors : Mirrors b c' (Unread c registers) k s)
    (locks : Locks c c' registers) {r : Register} (member : ⟨r, false⟩ ∈ registers) :
    s.get (c'.home r) = k.2.registers.get r ∧ s.getForeign (c'.home r) = false := by
  have asked : r ≠ Register.zero → r ∈ requested registers := fun nonzero =>
    mem_requested.mpr ⟨List.mem_map.mpr ⟨_, member, rfl⟩, nonzero⟩
  refine mirrors.home locks.wf (fun nonzero => ?_) fun nonzero unread => unread.2 ?_
  · obtain ⟨id, place, -⟩ := locks.placed r (asked nonzero)
    simp [place]
  · exact List.mem_map.mpr ⟨⟨r, false⟩, List.mem_filter.mpr ⟨member, by simp [nonzero]⟩, rfl⟩

/-- `d` now holds the guest value `v`; beyond that only scratch registers and the flags may
differ. -/
structure Writes (d : A64R) (v : Word) (s s' : State) : Prop where
  disturbs : Disturbs [d, RA.a, RA.b, RA.c] s s'
  value : s'.regs d = v
  native : s'.foreign d = false

/-- A write to the home of a register is a write of the register. -/
theorem Mirrors.write {b : Block} {c c' : RegisterCache} {stale : Register → Prop} {k : Ghost}
    {s s' : State} (mirrors : Mirrors b c stale k s) (wf : c.WF) {rd : Register} {id : SlotId}
    (place : c.registerToSlot rd = some id) (only : ∀ r id', c.registerToSlot r = some id' →
      stale r → r = rd) {v : Word} (writes : Writes (c.home rd) v s s')
    (dirty : c'.directory = c.directory.markDirty id) :
    Mirrors b c' settled (k.1, k.2.setRegister rd v) s' := by
  have nonzero := ((wf.placed rd id).mp place).1
  have home := home_placed place
  obtain ⟨disturbs, value, native⟩ := writes
  rw [home] at disturbs value native
  have free : ∀ t ∈ [RA.cache id, RA.a, RA.b, RA.c], isFree t = true := by
    intro t member
    have scratch : ∀ t ∈ [RA.a, RA.b, RA.c], isFree t = true := by decide
    rcases List.mem_cons.mp member with rfl | member
    · exact isFree_cache id
    · exact scratch t member
  have others : ∀ j, j ≠ id → cells s' j = cells s j := by
    intro j other
    have cached : ∀ j, RA.cache j ∉ [RA.a, RA.b, RA.c] := by decide
    have outside : RA.cache j ∉ [RA.cache id, RA.a, RA.b, RA.c] := by
      intro member
      rcases List.mem_cons.mp member with same | member
      · exact other (cache_injective same)
      · exact cached j member
    simp only [cells, (disturbs.2 _ outside).1, (disturbs.2 _ outside).2]
  refine ⟨mirrors.ready.disturb disturbs free, ?_, ?_⟩
  · rw [disturbs.1, mirrors.memory]
    rfl
  · have filled : cells s' id = (v, false) := by rw [cells, value, native]
    have written := mirrors.registers.write wf.unique (wf.key_iff.mpr place) (v, false) filled others
    rw [dirty, disturbs.1, entries_setRegister _ _ _ nonzero]
    refine written.settle fun j r here clean waits => ?_
    -- the slot of `rd` is dirty now
    have same := only r j (wf.key_iff.mp here) waits
    subst same
    have own : j = id := wf.unique j id r here (wf.key_iff.mpr place)
    simp [own, Directory.markDirty] at clean

/-! ### Locking and unlocking -/

theorem run_unlockRegister_of {c : GenState} {reg : A64R} {r : Register}
    (home : reg = c.cache.home r) (makeDirty : Bool) :
    (unlockRegister reg makeDirty).run c
      = .ok ⟨(), [], [], { c with cache := c.cache.unlocked reg makeDirty }⟩ := by
  rw [home]
  exact run_unlockRegister r makeDirty

theorem run_unlockRegisters {c : GenState} (wf : c.cache.WF) (rs : List Register) :
    (unlockRegisters (rs.map c.cache.home)).run c
      = .ok ⟨(), [], [], { c with cache := c.cache.unlockedAll (rs.map c.cache.home) }⟩ := by
  induction rs generalizing c with
  | nil => rfl
  | cons r rest ih =>
    have first := wf.unlocked r false
    have later := ih (c := { c with cache := c.cache.unlocked (c.cache.home r) false }) first.wf
    simp only [first.home] at later
    rw [List.map_cons, unlockRegisters, Emitter.run_bind_of_ok (run_unlockRegister r false)]
    exact congrArg (Emitter.prepend [] []) later

/-- What the code of an instruction gives the register it writes, or how it leaves. -/
inductive Fill where
  | value (v : Word)
  | departs (d : Departure)

def Fill.outcome (g : Guest) (rd : Register) : Fill → Outcome
  | .value v => .next (g.setRegister rd v)
  | .departs d => .depart d g

/-- The code fills the register `d`, or leaves. -/
def Supplies (b : Block) (k : Ghost) (d : A64R) (s : State) : Fill → Ending State Exit → Prop
  | .value v, .ran s' => Writes d v s s'
  | .departs departure, .left e s' => Departs b k.1 departure k.2 e s'
  | _, _ => False

/-- A register that waits for its value is the one that is written. -/
theorem waits_for_destination {c c' : RegisterCache} {reads : List Register} {rd : Register}
    (locks : Locks c c' (operandsOf reads rd)) (r : Register) (id : SlotId)
    (place : c'.registerToSlot r = some id) (unread : Unread c (operandsOf reads rd) r) : r = rd := by
  rcases locks.sources r id place with before | member
  · rw [unread.1] at before
    cases before
  · obtain ⟨read | same, nonzero⟩ := mem_requested_operandsOf.mp member
    · refine absurd ?_ unread.2
      refine List.mem_map.mpr ⟨⟨r, false⟩, List.mem_filter.mpr ⟨?_, by simp [nonzero]⟩, rfl⟩
      exact List.mem_append_left _ (List.mem_map.mpr ⟨r, read, rfl⟩)
    · exact same

/-- The unlocks behind the code of an instruction. -/
theorem run_unlocks {c : GenState} (wf : c.cache.WF) (reads : List Register) (rd : Register) :
    (do
      unlockRegisters (reads.map c.cache.home)
      unlockRegister (c.cache.home rd) true : Gen Unit).run c
      = .ok ⟨(), [], [], { c with cache := c.cache.retired reads rd }⟩ := by
  rw [Emitter.run_bind_of_ok (run_unlockRegisters wf reads)]
  refine congrArg (Emitter.prepend [] []) (run_unlockRegister_of (r := rd) ?_ true)
  rw [home_unlockedAll wf]

/-- The register has a slot that is marked dirty. -/
def RegisterCache.Dirty (c : RegisterCache) (r : Register) : Prop :=
  ∃ id, c.registerToSlot r = some id ∧ (c.slots id).dirty = true

/-- Marking the slot of a register marks the register. -/
theorem RegisterCache.dirty_of_markDirty {c c' : RegisterCache} (wf : c.WF) (wf' : c'.WF)
    {r : Register} {id : SlotId} (place : c.registerToSlot r = some id)
    (marked : c'.directory = c.directory.markDirty id) : c'.Dirty r := by
  refine ⟨id, wf'.key_iff.mp ?_, ?_⟩
  · rw [marked]
    exact wf.key_iff.mpr place
  · have bit := congrArg (fun d => d.dirty id) marked
    simpa [Directory.markDirty, directory] using bit

/-- `with_registers` retires an instruction whose code fills the destination. -/
theorem emits_withRegisters {b : Block} {g : CodeGenerator} {c : GenState} (idle : c.cache.Idle)
    {reads : List Register} {rd : Register} (nonzero : rd ≠ Register.zero)
    (below : ∀ r ∈ reads ++ [rd], r ≠ Register.pc) (few : reads.length ≤ 2)
    {write : List A64R → A64R → Gen Unit} (fill : Ghost → Fill)
    (writes : ∀ c₁ : GenState, Locks c.cache c₁.cache (operandsOf reads rd) → ∃ n',
      Emits b (write (reads.map c₁.cache.home) (c₁.cache.home rd)) c₁ ()
        { c₁ with nextLabel := n' }
        (Mirrors b c₁.cache (Unread c.cache (operandsOf reads rd)))
        (fun k s => Supplies b k (c₁.cache.home rd) s (fill k))) :
    ∃ c', c'.cache.Idle ∧ c'.cache.Dirty rd ∧
      Emits b (g.withRegisters reads rd write) c () c' (Mirrors b c.cache settled)
        (fun k _ => Meets b c'.cache k.1 ((fill k).outcome k.2 rd)) := by
  have belows : ∀ r ∈ operandsOf reads rd, r.reg ≠ Register.pc := by
    intro r member
    refine below r.reg ?_
    rw [← map_reg_operandsOf]
    exact List.mem_map_of_mem member
  have room : c.cache.Room (operandsOf reads rd) := by
    have length : (operandsOf reads rd).length = reads.length + 1 := by simp [operandsOf]
    exact idle.room (by rw [length]; exact Nat.le_trans (Nat.succ_le_succ few) (by decide))
  have locks := idle.wf.locking g.platform room belows
  have lock := does_lockRegisters g.platform b idle.wf room belows
  let c₁ : GenState := { c with cache := c.cache.locking g.platform (operandsOf reads rd) }
  obtain ⟨n', emits⟩ := writes c₁ locks
  obtain ⟨id, place, -⟩ := locks.placed rd (mem_requested_operandsOf.mpr ⟨Or.inr rfl, nonzero⟩)
  obtain ⟨idle', dirty⟩ := locks.retired idle place
  let c₂ : GenState := { nextLabel := n', cache := c₁.cache.retired reads rd }
  have whole : Emits b (do
      write (reads.map c₁.cache.home) (c₁.cache.home rd)
      unlockRegisters (reads.map c₁.cache.home)
      unlockRegister (c₁.cache.home rd) true) c₁ () c₂ _ _ :=
    emits.then_silent (Nat.le_refl n')
      (run_unlocks (c := { c₁ with nextLabel := n' }) locks.wf reads rd)
  have outputs : (operandsOf reads rd).map
        (fun r => (c.cache.locking g.platform (operandsOf reads rd)).home r.reg)
      = reads.map c₁.cache.home ++ [c₁.cache.home rd] := by
    have named := congrArg (List.map c₁.cache.home) (map_reg_operandsOf reads rd)
    simpa [Function.comp_def] using named
  have rest : Emits b (do
      let operands := (reads.map c₁.cache.home ++ [c₁.cache.home rd]).dropLast
      let dest := (reads.map c₁.cache.home ++ [c₁.cache.home rd]).getLastD A64R.xzr
      write operands dest
      unlockRegisters operands
      unlockRegister dest true) c₁ () c₂
      (Mirrors b c₁.cache (Unread c.cache (operandsOf reads rd)))
      (fun k s => Supplies b k (c₁.cache.home rd) s (fill k)) := by
    simpa only [List.dropLast_concat, List.getLastD_concat] using whole
  rw [outputs] at lock
  refine ⟨c₂, idle', dirty_of_markDirty locks.wf idle'.wf place dirty, ?_⟩
  refine Emitter.Emits.after_straight (bindsOwn_exitCode b) ?_ lock rest (fun _ _ mirrors => mirrors)
    ?_
  · exact Nat.le_refl _
  · rintro k s s₁ - ⟨mirrors, -⟩
    refine ⟨mirrors, fun ending supplies => ?_⟩
    -- the destination is marked dirty only where it was written
    cases filled : fill k with
    | value v =>
      rw [filled] at supplies
      cases ending with
      | ran s' =>
        exact mirrors.write locks.wf place (waits_for_destination locks) supplies dirty
      | left e s' => exact False.elim supplies
      | faulted => exact False.elim supplies
    | departs d =>
      rw [filled] at supplies
      cases ending with
      | ran s' => exact False.elim supplies
      | left e s' => exact supplies
      | faulted => exact False.elim supplies

end Riscv64Emulator.Jit.Aarch64
