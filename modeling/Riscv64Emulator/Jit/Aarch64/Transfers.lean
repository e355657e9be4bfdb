import Riscv64Emulator.Jit.Aarch64.AccessCheck

/-!
# Loads, stores and branches on AArch64

The code of the instructions that touch memory or the pc has the outcome of the abstract
model. Operands stay locked in the cache until the code behind them is emitted, also along
the exits: those store the dirty registers of the cache as it was at the check.
-/
namespace Riscv64Emulator.Jit.Aarch64

open LinearCode CodeGenerator RegisterCache WriteBack

/-! ### Operands that are only read -/

/-- Registers that are all read. -/
def readsOf (reads : List Register) : List RegisterToLock := reads.map fun r => ⟨r, false⟩

theorem map_reg_readsOf (reads : List Register) :
    (readsOf reads).map RegisterToLock.reg = reads := by
  simp [readsOf, Function.comp_def]

theorem mem_requested_readsOf {reads : List Register} {r : Register} :
    r ∈ requested (readsOf reads) ↔ r ∈ reads ∧ r ≠ Register.zero := by
  rw [mem_requested, map_reg_readsOf]

/-- Unlocking the operands ends the instruction. -/
theorem RegisterCache.Locks.released {c c' : RegisterCache} {reads : List Register}
    (locks : Locks c c' (readsOf reads)) (idle : c.Idle) :
    (c'.unlockedAll (reads.map c'.home)).Idle ∧
      (c'.unlockedAll (reads.map c'.home)).directory = c'.directory := by
  obtain ⟨wf, -, directory, locked⟩ := locks.wf.unlockedAll reads
  refine ⟨locks.idle idle wf fun id holds => ?_, directory⟩
  obtain ⟨before, others⟩ := locked id holds
  exact ⟨before, fun r member => others r (mem_requested_readsOf.mp member).1⟩

/-- Every register that is read has its value. -/
theorem settled_of_readsOf {b : Block} {c c' : RegisterCache} {reads : List Register} {k : Ghost}
    {s : State} (locks : Locks c c' (readsOf reads))
    (mirrors : Mirrors b c' (Unread c (readsOf reads)) k s) : Mirrors b c' settled k s := by
  refine mirrors.settle fun id r here _ unread => ?_
  rcases locks.sources r id (locks.wf.key_iff.mp here) with before | member
  · rw [unread.1] at before
    cases before
  · obtain ⟨read, nonzero⟩ := mem_requested_readsOf.mp member
    refine unread.2 (List.mem_map.mpr ⟨⟨r, false⟩, List.mem_filter.mpr ⟨?_, by simp [nonzero]⟩, rfl⟩)
    exact List.mem_map.mpr ⟨r, read, rfl⟩

section Reads

variable {b : Block} {c : GenState} {reads : List Register}

/-- The cache behind the lock of registers that are all read. -/
theorem RegisterCache.Idle.locks (p : Platform) {c : RegisterCache} (idle : c.Idle)
    (below : ∀ r ∈ reads, r ≠ Register.pc) (few : reads.length ≤ 2) :
    Locks c (c.locking p (readsOf reads)) (readsOf reads) := by
  refine idle.wf.locking p (idle.room ?_) fun r member => ?_
  · rw [readsOf, List.length_map]
    exact Nat.le_trans few (by decide)
  · obtain ⟨q, read, rfl⟩ := List.mem_map.mp member
    exact below q read

theorem does_lockReads (p : Platform) (b : Block) (idle : c.cache.Idle)
    (below : ∀ r ∈ reads, r ≠ Register.pc) (few : reads.length ≤ 2) :
    Does (lockRegisters p (readsOf reads)) c
      (reads.map (c.cache.locking p (readsOf reads)).home)
      { c with cache := c.cache.locking p (readsOf reads) } (Mirrors b c.cache settled)
      (fun k _ s' => Mirrors b (c.cache.locking p (readsOf reads)) settled k s') := by
  have locks := idle.locks p below few
  have belows : ∀ r ∈ readsOf reads, r.reg ≠ Register.pc := by
    intro r member
    obtain ⟨q, read, rfl⟩ := List.mem_map.mp member
    exact below q read
  -- two operands always fit an idle cache
  have room : c.cache.Room (readsOf reads) := by
    refine idle.room ?_
    rw [readsOf, List.length_map]
    exact Nat.le_trans few (by decide)
  have outputs : (readsOf reads).map (fun r => (c.cache.locking p (readsOf reads)).home r.reg)
      = reads.map (c.cache.locking p (readsOf reads)).home := by
    simp [readsOf, Function.comp_def]
  have lock := does_lockRegisters p b idle.wf room belows
  rw [outputs] at lock
  exact lock.conseq (fun _ _ mirrors => mirrors)
    fun _ _ _ _ after => settled_of_readsOf locks after.1

/-- The value of an operand in its home. -/
theorem Mirrors.read {p : Platform} {k : Ghost} {s : State} {c : RegisterCache}
    (mirrors : Mirrors b (c.locking p (readsOf reads)) settled k s)
    (locks : Locks c (c.locking p (readsOf reads)) (readsOf reads)) {r : Register}
    (member : r ∈ reads) :
    s.get ((c.locking p (readsOf reads)).home r) = k.2.registers.get r ∧
      s.getForeign ((c.locking p (readsOf reads)).home r) = false := by
  refine mirrors.home locks.wf (fun nonzero => ?_) fun _ stale => stale
  obtain ⟨id, place, -⟩ := locks.placed r (mem_requested_readsOf.mpr ⟨member, nonzero⟩)
  simp [place]

end Reads

/-! ### Addresses -/

/-- `add_offset_to_register`: the sum is in the scratch register, or still in the register. -/
theorem does_addOffsetToRegister {b : Block} {g : CodeGenerator} (uses : g.Uses b) {r : A64R}
    (outside : isScratch r = false) (offset : Word) (c : GenState) :
    ∃ t, (t = RA.a ∨ t = r ∧ r ≠ A64R.xzr) ∧
      Does (g.addOffsetToRegister r RA.a offset) c t c
        (fun _ s => b.Based s ∧ s.getForeign r = false)
        (fun _ s s' => Disturbs [RA.a] s s' ∧ s'.get t = s.get r + offset ∧
          s'.getForeign t = false) := by
  have load : Does (g.loadImmediate RA.a offset) c () c
      (fun _ s => b.Based s ∧ s.getForeign r = false)
      (fun _ s s' => s' = s.setReg RA.a offset false) :=
    .instr (run_loadImmediate uses RA.a (by decide) offset c) fun k s holds =>
      let ⟨safe, next⟩ := step_immediateInstr holds.1 k.1 RA.a offset
      ⟨safe, _, next, rfl⟩
  have written : ∀ (s : State) v, (s.setReg RA.a v false).get RA.a = v ∧
      (s.setReg RA.a v false).getForeign RA.a = false := fun s v =>
    ⟨by rw [State.get_setReg s (by decide), if_pos rfl],
      by rw [State.getForeign_setReg s (by decide), if_pos rfl]⟩
  unfold CodeGenerator.addOffsetToRegister
  -- the offset alone, the register alone, an addition that fits the encoder, or one through a scratch register
  by_cases zero : r = A64R.xzr
  · rw [if_pos zero]
    refine ⟨RA.a, Or.inl rfl, load.seq (.pure RA.a c) (fun _ _ holds => holds) ?_⟩
    rintro k s s₁ - rfl
    refine ⟨trivial, ?_⟩
    rintro s₂ rfl
    obtain ⟨value, native⟩ := written s offset
    refine ⟨.setReg List.mem_cons_self s _ _, ?_, native⟩
    rw [value, zero]
    exact (BitVec.zero_add offset).symm
  rw [if_neg zero]
  by_cases none : offset = 0
  · rw [if_pos none]
    refine ⟨r, Or.inr ⟨rfl, zero⟩, (Emitter.Straight.pure r c).conseq (fun _ _ _ => trivial) ?_⟩
    rintro k s s₁ ⟨-, native⟩ rfl
    exact ⟨.refl _ _, by rw [none]; exact (BitVec.add_zero _).symm, native⟩
  rw [if_neg none]
  by_cases found : g.platform.tryAddI RA.a r offset = true
  · rw [if_pos found]
    have encodable : (Instr.addImm RA.a r offset).encodable = true := by
      simp only [Instr.encodable, bne_iff_ne.mpr zero, Bool.and_true]
      decide
    have add : Does (ins (.addImm RA.a r offset)) c () c
        (fun _ s => b.Based s ∧ s.getForeign r = false)
        (fun _ s s' => s' = s.setReg RA.a (s.get r + offset) false) :=
      .instr (run_ins encodable c) fun k s holds =>
        ⟨rfl, _, rfl, by rw [holds.2]⟩
    refine ⟨RA.a, Or.inl rfl, add.seq (.pure RA.a c) (fun _ _ holds => holds) ?_⟩
    rintro k s s₁ - rfl
    refine ⟨trivial, ?_⟩
    rintro s₂ rfl
    obtain ⟨value, native⟩ := written s (s.get r + offset)
    exact ⟨.setReg List.mem_cons_self s _ _, value, native⟩
  · rw [if_neg found]
    have apart : r ≠ RA.a := by
      rintro rfl
      cases outside
    have add : Does (do ins (.alu .add .w64 RA.a r RA.a); pure RA.a) c RA.a c
        (fun _ s => s.getForeign r = false ∧ s.getForeign RA.a = false)
        (fun _ s s' => s' = s.setReg RA.a (s.get r + s.get RA.a) false) := by
      have sum : Does (ins (.alu .add .w64 RA.a r RA.a)) c () c
          (fun _ s => s.getForeign r = false ∧ s.getForeign RA.a = false)
          (fun _ s s' => s' = s.setReg RA.a (s.get r + s.get RA.a) false) :=
        .instr (run_ins rfl c) fun k s native =>
          ⟨rfl, _, rfl, by simp only [native.1, native.2, Bool.or_self]; rfl⟩
      refine sum.seq (.pure RA.a c) (fun _ _ holds => holds) ?_
      rintro k s s₁ - rfl
      refine ⟨trivial, ?_⟩
      rintro s₂ rfl
      rfl
    refine ⟨RA.a, Or.inl rfl, load.seq add (fun _ _ holds => holds) ?_⟩
    rintro k s s₁ ⟨-, native⟩ rfl
    have kept : (s.setReg RA.a offset false).get r = s.get r ∧
        (s.setReg RA.a offset false).getForeign r = s.getForeign r :=
      ⟨by rw [State.get_setReg s (by decide), if_neg apart],
        by rw [State.getForeign_setReg s (by decide), if_neg apart]⟩
    obtain ⟨value, own⟩ := written s offset
    refine ⟨⟨kept.2.trans native, own⟩, ?_⟩
    rintro s₂ rfl
    rw [kept.1, value]
    obtain ⟨value', own'⟩ := written (s.setReg RA.a offset false) (s.get r + offset)
    exact ⟨.trans (.setReg List.mem_cons_self s _ _) (.setReg List.mem_cons_self _ _ _), value', own'⟩

/-! ### Loads and stores -/

/-- An instruction that loads a guest value. -/
private theorem exists_loadInstr {type : InstructionType} (kind : isLoad type = true) (d t : A64R) :
    ∃ j, loadInstr d t type = .ok j ∧ j.encodable = true ∧
      ∀ st size env s, Anchored st size env s →
        (s.get t).toNat + 2 ^ accessLog2 type ≤ s.guest.memory.permissionsOffset →
        Sandboxed env j s ∧
          step env j s = .next (s.setReg d (s.guest.loaded type (s.get t)) false) := by
  have loads : ∀ (size : AccessSize) (signed : Bool), size.bytes = 2 ^ accessLog2 type →
      size.extend signed = extendLoaded type → ∀ st bound env s, Anchored st bound env s →
      (s.get t).toNat + 2 ^ accessLog2 type ≤ s.guest.memory.permissionsOffset →
      Sandboxed env (.ldr size signed d RA.memoryBase (.reg t)) s ∧
        step env (.ldr size signed d RA.memoryBase (.reg t)) s
          = .next (s.setReg d (s.guest.loaded type (s.get t)) false) := by
    intro size signed width extend st bound env s anchored inside
    have positive := Nat.two_pow_pos (accessLog2 type)
    have address : s.address RA.memoryBase (.reg t) = env.layout.memoryBase + s.get t := by
      rw [State.address, anchored.memoryBase]
    constructor
    · simp only [Sandboxed, sandboxed, accesses, storesForeign, address, width,
        anchored.serves.permits_load_contents (s.get t) positive inside, List.all_cons,
        List.all_nil, Bool.not_false, Bool.and_self]
    · simp only [step, address, width, anchored.serves.load_contents (s.get t) positive inside,
        anchored.serves.foreign_contents (s.get t) positive inside, extend, Guest.loaded]
  cases type <;> try exact absurd kind (by decide)
  -- width and extension of each load, as in the source's `switch`
  case lb => exact ⟨_, rfl, rfl, loads .byte true rfl rfl⟩
  case lh => exact ⟨_, rfl, rfl, loads .half true rfl rfl⟩
  case lw => exact ⟨_, rfl, rfl, loads .word true rfl rfl⟩
  case ld => exact ⟨_, rfl, rfl, loads .double false rfl rfl⟩
  case lbu => exact ⟨_, rfl, rfl, loads .byte false rfl rfl⟩
  case lhu => exact ⟨_, rfl, rfl, loads .half false rfl rfl⟩
  case lwu => exact ⟨_, rfl, rfl, loads .word false rfl rfl⟩

/-- A guest value is found in the memory the machine works on. -/
theorem Mirrors.loaded {b : Block} {c : RegisterCache} {stale : Register → Prop} {k : Ghost}
    {s : State} (mirrors : Mirrors b c stale k s) (type : InstructionType) (address : Word) :
    s.guest.loaded type address = k.2.loaded type address := by
  unfold Guest.loaded
  rw [mirrors.memory]

/-- An instruction that stores a guest value. -/
private theorem exists_storeInstr {type : InstructionType} (kind : isStore type = true) (v t : A64R) :
    ∃ j, storeInstr v t type = .ok j ∧ j.encodable = true ∧
      ∀ st size env s, Anchored st size env s → s.getForeign v = false →
        st.accessAllowed s.guest.memory (accessLog2 type) MemoryFlags.write (s.get t) = true →
        Sandboxed env j s ∧ step env j s
          = .next (s.setGuest (s.guest.storeBytes (s.get t) (accessLog2 type) (s.get v))) := by
  have stores : ∀ (size : AccessSize), size.bytes = 2 ^ accessLog2 type → accessLog2 type ≤ 3 →
      ∀ st bound env s, Anchored st bound env s → s.getForeign v = false →
      st.accessAllowed s.guest.memory (accessLog2 type) MemoryFlags.write (s.get t) = true →
      Sandboxed env (.str size v RA.memoryBase (.reg t)) s ∧
        step env (.str size v RA.memoryBase (.reg t)) s
          = .next (s.setGuest (s.guest.storeBytes (s.get t) (accessLog2 type) (s.get v))) := by
    intro size width small st bound env s anchored native allowed
    have inside := Setting.accessAllowed_inside small allowed
    -- the accepted check is what permits the store
    have writable := (Setting.accessAllowed_iff.mp allowed).2.2
    have permitted := anchored.serves.permits_store_contents (s.get t)
      (Nat.two_pow_pos (accessLog2 type)) inside (by simpa using writable)
    have address : s.address RA.memoryBase (.reg t) = env.layout.memoryBase + s.get t := by
      rw [State.address, anchored.memoryBase]
    constructor
    · simp only [Sandboxed, sandboxed, accesses, storesForeign, address, width, native, permitted,
        List.all_cons, List.all_nil, Bool.not_false, Bool.and_self]
    · simp only [step, address, width,
        anchored.serves.store_contents (s.get t) (accessLog2 type) _ inside]
  cases type <;> try exact absurd kind (by decide)
  case sb => exact ⟨_, rfl, rfl, stores .byte rfl (by decide)⟩
  case sh => exact ⟨_, rfl, rfl, stores .half rfl (by decide)⟩
  case sw => exact ⟨_, rfl, rfl, stores .word rfl (by decide)⟩
  case sd => exact ⟨_, rfl, rfl, stores .double rfl (by decide)⟩

/-- A store to both memories. -/
theorem Mirrors.storeBytes {b : Block} {c : RegisterCache} {stale : Register → Prop} {k : Ghost}
    {s : State} (mirrors : Mirrors b c stale k s) (address : Word) (n : Nat) (v : Word) :
    Mirrors b c stale (k.1, k.2.storeBytes address n v)
      (s.setGuest (s.guest.storeBytes address n v)) where
  ready := mirrors.ready.setGuest (mirrors.ready.anchored.serves.storeBytes address n v)
  memory := by
    simp only [State.guest_setGuest, Guest.storeBytes, mirrors.memory]
  registers := mirrors.registers

/-- The code of an instruction has its effect, and the cache is idle behind it. -/
def CompilesTo (b : Block) (g : CodeGenerator) (i : Instruction) (c : GenState) (goesOn : Bool)
    (outcome : Guest → Outcome) : Prop :=
  ∃ c', c'.cache.Idle ∧ Emits b (g.generateInstruction i) c goesOn c' (Mirrors b c.cache settled)
    (fun k _ => Meets b c'.cache k.1 (outcome k.2))

/-- An instruction without code. -/
theorem CompilesTo.unchanged {b : Block} {g : CodeGenerator} {i : Instruction} {c : GenState}
    (idle : c.cache.Idle) (generated : g.generateInstruction i = pure true) :
    CompilesTo b g i c true .next := by
  refine ⟨c, idle, ?_⟩
  rw [generated]
  refine (Emitter.Emits.pure true c).conseq (fun _ _ _ => trivial) ?_
  rintro k s ending mirrors rfl
  exact mirrors

theorem CompilesTo.congr {b : Block} {g : CodeGenerator} {i : Instruction} {c : GenState}
    {goesOn : Bool} {outcome outcome' : Guest → Outcome}
    (compiles : CompilesTo b g i c goesOn outcome) (same : ∀ guest, outcome guest = outcome' guest) :
    CompilesTo b g i c goesOn outcome' := by
  have equal : outcome = outcome' := funext same
  rwa [equal] at compiles

section Accesses

variable {b : Block} {g : CodeGenerator} (uses : g.Uses b) {i : Instruction} {c c' : GenState}
include uses

/-- The address of an access, checked, in front of the code that makes it. The exit for a
rejected access stores the dirty registers of the cache the check was made under. -/
theorem emits_checked {stale : Register → Prop} (wf : c.cache.WF) {r : A64R}
    (outside : isScratch r = false) (offset : Word) {k : Nat} (small : k ≤ 3) (write : Bool)
    {base : Ghost → Word} (operand : ∀ k' s, Mirrors b c.cache stale k' s →
      s.get r = base k' ∧ s.getForeign r = false)
    {rest : A64R → Gen Unit} {post : Ghost → State → Ending State Exit → Prop}
    (allowed : ∀ t, t = RA.a ∨ t = r ∧ r ≠ A64R.xzr →
      Emits b (rest t) { c with nextLabel := c.nextLabel + 1 } () c'
        (fun k' s => Mirrors b c.cache stale k' s ∧ s.get t = base k' + offset ∧
          b.setting.accessAllowed k'.2.memory k (accessFlag write) (base k' + offset) = true) post)
    (later : ∀ k' s s₁ ending, Disturbs [RA.a, RA.b, RA.c] s s₁ → post k' s₁ ending →
      post k' s ending)
    (rejected : ∀ k' s e s',
      ¬b.setting.accessAllowed k'.2.memory k (accessFlag write) (base k' + offset) = true →
      Departs b k'.1 (.exit (accessFault write) g.currentPc) k'.2 e s' → post k' s (.left e s')) :
    Emits b (do
        let address ← g.addOffsetToRegister r RA.a offset
        g.generateValidateMemoryAccess address RA.b RA.c k write
        rest address) c () c' (Mirrors b c.cache stale) post := by
  obtain ⟨t, place, add⟩ := does_addOffsetToRegister uses outside offset c
  -- the check uses the two scratch registers the address is not in
  have apart : t ∉ [RA.b, RA.c] := by
    rcases place with rfl | ⟨rfl, -⟩
    · decide
    · have scratch : ∀ q ∈ [RA.b, RA.c], isScratch q = true := by decide
      exact fun member => absurd (scratch t member) (by rw [outside]; decide)
  have checked : Emits b (do
        g.generateValidateMemoryAccess t RA.b RA.c k write
        rest t) c () c'
      (fun k' s => Mirrors b c.cache stale k' s ∧ s.get t = base k' + offset) post := by
    refine Emitter.Emits.after_check (bindsOwn_exitCode b) (checks_validate uses t small write c)
      ⟨Nat.le_refl _, Nat.lt_succ_self _⟩ (allowed t place)
      (fun _ _ holds => holds.1.ready.anchored) ?_ ?_
    · rintro k' s s₁ ⟨mirrors, value⟩ disturbs goes
      rw [mirrors.memory, value] at goes
      exact ⟨⟨mirrors.disturb disturbs (by decide), (disturbs.get apart).1.trans value, goes⟩,
        fun ending => later k' s s₁ ending (disturbs.mono (by decide))⟩
    · rintro k' s s₁ code ⟨mirrors, value⟩ disturbs stops seeks
      rw [mirrors.memory, value] at stops
      -- the exit stores the dirty registers, which the check kept
      have restores := (mirrors.disturb disturbs (by decide)).restores wf
      obtain ⟨s₂, leaves, departs⟩ := leaves_pendingExit
        (lateExit c.cache c.nextLabel (accessFault write) g.currentPc) seeks restores
      exact ⟨.ret, s₂, leaves, rejected k' s .ret s₂ stops departs⟩
  refine Emitter.Emits.after_straight (bindsOwn_exitCode b) (Nat.le_refl _) add checked
    (fun k' s mirrors => ⟨mirrors.ready.based, (operand k' s mirrors).2⟩) ?_
  rintro k' s s₁ mirrors ⟨disturbs, value, -⟩
  rw [(operand k' s mirrors).1] at value
  exact ⟨⟨mirrors.disturb disturbs (by decide), value⟩,
    fun ending => later k' s s₁ ending (disturbs.mono (by decide))⟩

omit uses in
theorem generateInstruction_load (g : CodeGenerator) (kind : isLoad i.type = true) :
    g.generateInstruction i =
      if i.rd ≠ Register.zero then (do g.generateLoad i; pure true) else pure true := by
  unfold generateInstruction
  cases type : i.type <;> first | exact absurd (type ▸ kind) (by decide) | rfl

omit uses in
theorem generateInstruction_store (g : CodeGenerator) (kind : isStore i.type = true) :
    g.generateInstruction i = (do g.generateStore i; pure true) := by
  unfold generateInstruction
  cases type : i.type <;> first | exact absurd (type ▸ kind) (by decide) | rfl

/-- What a load gives `rd`, or how it leaves. -/
def loadFill (st : Setting) (pc : Word) (i : Instruction) (g : Guest) : Fill :=
  let address := g.registers.get i.rs1 + i.imm
  if st.accessAllowed g.memory (accessLog2 i.type) MemoryFlags.read address then
    .value (g.loaded i.type address)
  else .departs (.exit .memoryReadFault pc)

omit uses in
/-- `with_operand` retires an instruction whose code fills the destination. -/
theorem emits_withOperand (idle : c.cache.Idle) {rs1 rd : Register} (nonzero : rd ≠ Register.zero)
    (below : rs1 ≠ Register.pc ∧ rd ≠ Register.pc) {write : A64R → A64R → Gen Unit}
    (fill : Ghost → Fill)
    (writes : ∀ c₁ : GenState, Locks c.cache c₁.cache (operandsOf [rs1] rd) → ∃ n',
      Emits b (write (c₁.cache.home rs1) (c₁.cache.home rd)) c₁ () { c₁ with nextLabel := n' }
        (Mirrors b c₁.cache (Unread c.cache (operandsOf [rs1] rd)))
        (fun k s => Supplies b k (c₁.cache.home rd) s (fill k))) :
    ∃ c', c'.cache.Idle ∧ c'.cache.Dirty rd ∧
      Emits b (g.withOperand rs1 rd write) c () c' (Mirrors b c.cache settled)
        (fun k _ => Meets b c'.cache k.1 ((fill k).outcome k.2 rd)) := by
  have few : [rs1].length ≤ 2 := Nat.le_succ 1
  exact emits_withRegisters idle nonzero (by simpa using below) few fill writes

/-- `generate_instruction` on a load into a register. -/
theorem emits_loadInto (kind : isLoad i.type = true) (nonzero : i.rd ≠ Register.zero)
    (idle : c.cache.Idle) :
    ∃ c', c'.cache.Idle ∧ Emits b (g.generateLoad i) c () c' (Mirrors b c.cache settled)
      (fun k _ => Meets b c'.cache k.1
        ((loadFill b.setting g.currentPc i k.2).outcome k.2 i.rd)) := by
  obtain ⟨known, small⟩ := memoryAccessSizeLog2_eq (Or.inl kind)
  unfold generateLoad
  rw [known]
  simp only [liftExcept_ok_bind]
  refine (emits_withOperand idle nonzero ⟨i.rs1_ne_pc, i.rd_ne_pc⟩
    (fun k => loadFill b.setting g.currentPc i k.2) fun c₁ locks => ?_).imp
    fun _ emits => ⟨emits.1, emits.2.2⟩
  refine ⟨c₁.nextLabel + 1, ?_⟩
  obtain ⟨id, place, -⟩ := locks.placed i.rd (mem_requested_operandsOf.mpr ⟨Or.inr rfl, nonzero⟩)
  have real : c₁.cache.home i.rd ≠ A64R.xzr := by
    rw [home_placed place]
    exact cache_ne_xzr id
  refine emits_checked uses locks.wf (isScratch_home c₁.cache i.rs1) i.imm small false
    (fun k s mirrors => mirrors.operand locks List.mem_cons_self) (fun t _ => ?_) ?_ ?_
  · obtain ⟨j, chosen, encodable, loads⟩ := exists_loadInstr kind (c₁.cache.home i.rd) t
    rw [chosen, liftExcept_ok_bind]
    have load : Does (ins j) { c₁ with nextLabel := c₁.nextLabel + 1 } ()
        { c₁ with nextLabel := c₁.nextLabel + 1 } (fun k s =>
          Mirrors b c₁.cache (Unread c.cache (operandsOf [i.rs1] i.rd)) k s ∧
          s.get t = k.2.registers.get i.rs1 + i.imm ∧
          b.setting.accessAllowed k.2.memory (accessLog2 i.type) (accessFlag false)
            (k.2.registers.get i.rs1 + i.imm) = true)
        (fun k s s' => s' = s.setReg (c₁.cache.home i.rd)
          (k.2.loaded i.type (k.2.registers.get i.rs1 + i.imm)) false) := by
      refine .instr (run_ins encodable _) fun k s ⟨mirrors, value, allowed⟩ => ?_
      have inside := Setting.accessAllowed_inside small allowed
      rw [← mirrors.memory, ← value] at inside
      obtain ⟨safe, next⟩ := loads _ _ k.1 s mirrors.ready.anchored inside
      exact ⟨safe, _, next, by rw [value, mirrors.loaded]⟩
    refine (Emitter.Emits.of_straight (Nat.le_refl _) load).conseq (fun _ _ holds => holds) ?_
    rintro k s ending ⟨mirrors, value, allowed⟩ ⟨s', rfl, rfl⟩
    have filled : loadFill b.setting g.currentPc i k.2
        = .value (k.2.loaded i.type (k.2.registers.get i.rs1 + i.imm)) := if_pos allowed
    rw [filled]
    exact Writes.setReg real _ s
  · intro k s s₁ ending disturbs supplies
    -- the load was accepted and gives a value, or was refused and left
    cases filled : loadFill b.setting g.currentPc i k.2 with
    | value v =>
      rw [filled] at supplies
      cases ending with
      | ran s' =>
        exact ⟨(disturbs.mono fun _ => List.mem_cons_of_mem _).trans supplies.disturbs,
          supplies.value, supplies.native⟩
      | left e s' => exact False.elim supplies
      | faulted => exact False.elim supplies
    | departs d =>
      rw [filled] at supplies
      cases ending with
      | ran s' => exact False.elim supplies
      | left e s' => exact supplies
      | faulted => exact False.elim supplies
  · intro k s e s' refused departs
    have filled : loadFill b.setting g.currentPc i k.2 = .departs (.exit .memoryReadFault g.currentPc) :=
      if_neg refused
    rw [filled]
    exact departs

/-- `generate_instruction` on a load. -/
theorem compilesTo_load (be : BackEnd) (kind : isLoad i.type = true) (idle : c.cache.Idle) :
    CompilesTo b g i c true (effect be b.setting g.currentPc i) := by
  have generated := generateInstruction_load (i := i) g kind
  -- a load to register zero emits nothing, not even the check
  by_cases zero : i.rd = Register.zero
  · rw [if_neg (fun nonzero => nonzero zero)] at generated
    refine (CompilesTo.unchanged idle generated).congr fun guest => ?_
    rw [effect_load be b.setting g.currentPc guest kind, if_pos zero]
  · rw [if_pos zero] at generated
    obtain ⟨c', idle', emits⟩ := emits_loadInto uses kind zero idle
    refine ⟨c', idle', ?_⟩
    rw [generated]
    refine (emits.returns fun _ => true).conseq (fun _ _ mirrors => mirrors) ?_
    intro k s ending _ meets
    rw [effect_load be b.setting g.currentPc k.2 kind, if_neg zero]
    unfold loadFill at meets
    dsimp only at meets
    split at meets
    next allowed =>
      rw [if_pos allowed]
      exact meets
    next refused =>
      rw [if_neg refused]
      exact meets

/-- `generate_instruction` on a store. -/
theorem compilesTo_store (be : BackEnd) (kind : isStore i.type = true) (idle : c.cache.Idle) :
    CompilesTo b g i c true (effect be b.setting g.currentPc i) := by
  obtain ⟨known, small⟩ := memoryAccessSizeLog2_eq (Or.inr kind)
  have below : ∀ r ∈ [i.rs1, i.rs2], r ≠ Register.pc := by simpa using ⟨i.rs1_ne_pc, i.rs2_ne_pc⟩
  have few : [i.rs1, i.rs2].length ≤ 2 := Nat.le_refl 2
  let c₁ : GenState := { c with cache := c.cache.locking g.platform (readsOf [i.rs1, i.rs2]) }
  have locks : Locks c.cache c₁.cache (readsOf [i.rs1, i.rs2]) := idle.locks g.platform below few
  have lock := does_lockReads g.platform b idle below few
  obtain ⟨idle', directory⟩ := locks.released idle
  let c₂ : GenState := { nextLabel := c.nextLabel + 1,
                         cache := c₁.cache.unlockedAll ([i.rs1, i.rs2].map c₁.cache.home) }
  have outcome : ∀ guest : Guest, effect be b.setting g.currentPc i guest =
      if b.setting.accessAllowed guest.memory (accessLog2 i.type) (accessFlag true)
          (guest.registers.get i.rs1 + i.imm) then
        .next (guest.storeBytes (guest.registers.get i.rs1 + i.imm) (accessLog2 i.type)
          (guest.registers.get i.rs2))
      else .depart (.exit .memoryWriteFault g.currentPc) guest :=
    fun guest => effect_store be b.setting g.currentPc guest kind
  have store : ∀ t, t = RA.a ∨ t = c₁.cache.home i.rs1 ∧ c₁.cache.home i.rs1 ≠ A64R.xzr →
      Emits b (do
          ins (← liftExcept (storeInstr (c₁.cache.home i.rs2) t i.type))
          unlockRegisters [c₁.cache.home i.rs1, c₁.cache.home i.rs2])
        { c₁ with nextLabel := c₁.nextLabel + 1 } () c₂
        (fun k s => Mirrors b c₁.cache settled k s ∧
          s.get t = k.2.registers.get i.rs1 + i.imm ∧
          b.setting.accessAllowed k.2.memory (accessLog2 i.type) (accessFlag true)
            (k.2.registers.get i.rs1 + i.imm) = true)
        (fun k _ => Meets b c₂.cache k.1 (effect be b.setting g.currentPc i k.2)) := by
    intro t _
    obtain ⟨j, chosen, encodable, stores⟩ := exists_storeInstr kind (c₁.cache.home i.rs2) t
    rw [chosen, liftExcept_ok_bind]
    have written : Does (ins j) { c₁ with nextLabel := c₁.nextLabel + 1 } ()
        { c₁ with nextLabel := c₁.nextLabel + 1 } (fun k s =>
          Mirrors b c₁.cache settled k s ∧ s.get t = k.2.registers.get i.rs1 + i.imm ∧
          b.setting.accessAllowed k.2.memory (accessLog2 i.type) (accessFlag true)
            (k.2.registers.get i.rs1 + i.imm) = true)
        (fun k _ s' => Mirrors b c₁.cache settled (k.1, k.2.storeBytes
          (k.2.registers.get i.rs1 + i.imm) (accessLog2 i.type) (k.2.registers.get i.rs2)) s') := by
      refine .instr (run_ins encodable _) fun k s ⟨mirrors, address, allowed⟩ => ?_
      obtain ⟨value, native⟩ := mirrors.read locks (r := i.rs2) (by simp)
      have granted := allowed
      rw [← mirrors.memory, ← address] at granted
      obtain ⟨safe, next⟩ := stores _ _ k.1 s mirrors.ready.anchored native granted
      -- storing changes the memory and leaves the cache as it is
      have stored := mirrors.storeBytes (s.get t) (accessLog2 i.type) (s.get (c₁.cache.home i.rs2))
      refine ⟨safe, _, next, ?_⟩
      rwa [address, value] at stored ⊢
    have unlock := run_unlockRegisters (c := { c₁ with nextLabel := c₁.nextLabel + 1 }) locks.wf
      [i.rs1, i.rs2]
    refine ((Emitter.Emits.of_straight (Nat.le_refl _) written).then_silent
      (show c₁.nextLabel + 1 ≤ c₂.nextLabel from Nat.le_refl _) unlock).conseq
      (fun _ _ holds => holds) ?_
    rintro k s ending ⟨-, -, allowed⟩ ⟨s', rfl, mirrors⟩
    rw [outcome, if_pos allowed]
    exact mirrors.congr directory
  have checked := emits_checked uses locks.wf (isScratch_home c₁.cache i.rs1) i.imm small true
    (fun (k : Ghost) s mirrors => mirrors.read locks (by simp)) store
    (fun _ _ _ _ _ meets => meets) fun k s e s' refused departs => ?_
  · refine ⟨c₂, idle', ?_⟩
    rw [generateInstruction_store g kind]
    refine Emitter.Emits.returns (a := ()) ?_ fun _ => true
    unfold generateStore
    rw [known]
    simp only [liftExcept_ok_bind]
    refine Emitter.Emits.after_straight (bindsOwn_exitCode b) ?_ lock checked
      (fun _ _ mirrors => mirrors) fun _ _ _ _ mirrors => ⟨mirrors, fun _ meets => meets⟩
    exact Nat.le_refl _
  · rw [outcome, if_neg refused]
    exact departs

end Accesses

/-! ### Jumps, branches and exits -/

/-- The guest a fragment is about may be given as a function of the one before it. -/
theorem Emits.rebase {b : Block} {α : Type} {x : Gen α} {c c' : GenState} {a : α}
    {pre : Ghost → State → Prop} {post : Ghost → State → Ending State Exit → Prop}
    (emits : Emits b x c a c' pre post) (update : Guest → Guest) :
    Emits b x c a c' (fun k => pre (k.1, update k.2)) (fun k => post (k.1, update k.2)) := by
  obtain ⟨code, exits, ran, fresh, realizes⟩ := emits
  exact ⟨code, exits, ran, fresh, fun k s holds => realizes (k.1, update k.2) s holds⟩

section Transfers

variable {b : Block} {g : CodeGenerator} (uses : g.Uses b) {i : Instruction} {c : GenState}
include uses

theorem emits_staticBranch (target : Word) (wf : c.cache.WF) (c' : RegisterCache) :
    ∃ n', Emits b (g.generateStaticBranch target RA.a) c () { c with nextLabel := n' }
      (Mirrors b c.cache settled)
      (fun k _ => Meets b c' k.1 (b.setting.staticBranch g.currentPc target k.2)) := by
  obtain ⟨code, exits, n', ran, terminal, realizes⟩ := staticBranch_realizes uses target c c'
  exact ⟨n', code, exits, ran, terminal.freshLabels, fun k s mirrors =>
    realizes k s (mirrors.restores wf)⟩

theorem emits_dynamicBranch {t : A64R} (real : t ≠ A64R.xzr) (apart : t ≠ RA.b) (wf : c.cache.WF)
    (c' : RegisterCache) :
    ∃ n', Emits b (g.generateDynamicBranch t RA.b) c () { c with nextLabel := n' }
      (Mirrors b c.cache settled)
      (fun k s => Meets b c' k.1 (b.setting.dynamicBranch (s.regs t) k.2)) := by
  obtain ⟨code, exits, n', ran, terminal, realizes⟩ := dynamicBranch_realizes uses real apart c c' wf
  exact ⟨n', code, exits, ran, terminal.freshLabels, realizes⟩

theorem emits_exit (reason : ArchExitReason) (pc : Word) (wf : c.cache.WF) (c' : RegisterCache) :
    Emits b (g.generateExit reason pc) c () c (Mirrors b c.cache settled)
      (fun k _ => Meets b c' k.1 (.depart (.exit reason pc) k.2)) :=
  ⟨_, _, run_generateExit uses reason pc c, (Terminal.exit b c.nextLabel _).freshLabels,
    fun _ _ mirrors => realizes_exit
      { label := 0, reason := reason, pcValue := pc, snapshot := c.cache.takeStateSnapshot }
      (mirrors.restores wf)⟩

omit uses in
theorem generateInstruction_exit (g : CodeGenerator) {reason : ArchExitReason}
    (kind : exitReason i.type = some reason) :
    g.generateInstruction i = (do g.generateExit reason g.currentPc; pure false) := by
  unfold generateInstruction
  cases type : i.type <;> simp only [type, exitReason, Option.some.injEq, reduceCtorEq] at kind <;>
    subst kind <;> rfl

theorem compilesTo_exit (be : BackEnd) {reason : ArchExitReason}
    (kind : exitReason i.type = some reason) (idle : c.cache.Idle) :
    CompilesTo b g i c false (effect be b.setting g.currentPc i) := by
  refine ⟨c, idle, ?_⟩
  rw [generateInstruction_exit g kind]
  refine ((emits_exit uses reason g.currentPc idle.wf c.cache).returns fun _ => false).conseq
    (fun _ _ mirrors => mirrors) ?_
  intro k s ending _ meets
  rwa [effect_exit be b.setting g.currentPc k.2 kind]

omit uses in
theorem generateInstruction_fence (g : CodeGenerator) (kind : i.type = .fence) :
    g.generateInstruction i = pure true := by
  simp only [generateInstruction, kind]

omit uses in
theorem compilesTo_fence (be : BackEnd) (kind : i.type = .fence) (idle : c.cache.Idle) :
    CompilesTo b g i c true (effect be b.setting g.currentPc i) := by
  refine (CompilesTo.unchanged idle (generateInstruction_fence g kind)).congr fun guest => ?_
  simp only [effect, kind]

/-- A constant in a register. -/
theorem emits_constant {rd : Register} (nonzero : rd ≠ Register.zero) (below : rd ≠ Register.pc)
    (v : Word) (idle : c.cache.Idle) :
    ∃ c', c'.cache.Idle ∧ Emits b (g.withDestination rd fun dest => g.loadImmediate dest v) c () c'
      (Mirrors b c.cache settled) (fun k _ => Meets b c'.cache k.1 (.next (k.2.setRegister rd v))) := by
  let write : List A64R → A64R → Gen Unit := fun _ dest => g.loadImmediate dest v
  let value : List Word → Word := fun _ => v
  have computes : ∀ home, Placed [] rd home →
      Computes b (write (([] : List Register).map home) (home rd)) () (([] : List Register).map home)
        (home rd) (fun s => value (([] : List Register).map fun r => s.get (home r))) :=
    fun home placed => computes_loadImmediate uses (placed.real rd (by simp) nonzero) v
  have few : ([] : List Register).length ≤ 2 := Nat.zero_le 2
  obtain ⟨c', idle', -, emits⟩ := emits_computed (g := g) idle nonzero (by simpa using below)
    few value computes
  exact ⟨c', idle', emits⟩

omit uses in
theorem generateInstruction_jal (g : CodeGenerator) (kind : i.type = .jal) :
    g.generateInstruction i =
      if i.rd ≠ Register.zero then do
        g.withDestination i.rd fun dest => g.loadImmediate dest (g.currentPc + 4)
        g.generateStaticBranch (g.currentPc + i.imm) RA.a
        pure false
      else (do
        g.generateStaticBranch (g.currentPc + i.imm) RA.a
        pure false) := by
  simp only [generateInstruction, kind]

/-- The link register is written like the result of a computation. -/
theorem compilesTo_jal (be : BackEnd) (kind : i.type = .jal) (idle : c.cache.Idle) :
    CompilesTo b g i c false (effect be b.setting g.currentPc i) := by
  have outcome : ∀ guest, effect be b.setting g.currentPc i guest = b.setting.staticBranch
      g.currentPc (g.currentPc + i.imm) (guest.setRegister i.rd (g.currentPc + 4)) := fun guest => by
    simp only [effect, kind]
  have generated := generateInstruction_jal g kind
  -- the link is written before the branch flushes the cache
  by_cases zero : i.rd = Register.zero
  · rw [if_neg (fun nonzero => nonzero zero)] at generated
    obtain ⟨n', branch⟩ := emits_staticBranch uses (g.currentPc + i.imm) idle.wf c.cache
    refine ⟨{ c with nextLabel := n' }, idle, ?_⟩
    rw [generated]
    refine (branch.returns fun _ => false).conseq (fun _ _ mirrors => mirrors) ?_
    intro k s ending _ meets
    rwa [outcome, zero, Guest.setRegister_zero]
  · rw [if_pos zero] at generated
    obtain ⟨c₁, idle₁, link⟩ := emits_constant uses zero i.rd_ne_pc (g.currentPc + 4) idle
    obtain ⟨n', branch⟩ := emits_staticBranch uses (g.currentPc + i.imm) idle₁.wf c₁.cache
    refine ⟨{ c₁ with nextLabel := n' }, idle₁, ?_⟩
    rw [generated]
    refine Emitter.Emits.seq (bindsOwn_exitCode b) link
      ((branch.rebase fun guest => guest.setRegister i.rd (g.currentPc + 4)).returns fun _ => false)
      (fun _ _ mirrors => mirrors) ?_ ?_ ?_
    · intro k s s₁ _ mirrors
      refine ⟨mirrors, fun ending meets => ?_⟩
      rwa [outcome]
    · exact fun _ _ _ _ _ meets => False.elim meets
    · exact fun _ _ _ meets => False.elim meets

omit uses in
/-- The code branches over the jump exactly when the branch is not taken. -/
theorem holds_skipCondition {type : InstructionType} (kind : isBranch type = true) :
    ∃ condition, skipCondition type = .ok condition ∧
      ∀ a v, condition.holds (compareFlags a v) = !branchCondition type a v := by
  have less : ∀ a v : Word, Condition.greaterEqual.holds (compareFlags a v) = !a.slt v := fun a v => by
    rw [← holds_less]
    exact (Bool.not_not _).symm
  have signed : ∀ a v : Word, a.slt v = !v.sle a := fun a v => by
    rw [BitVec.sle_eq_not_slt, Bool.not_not]
  have unsigned : ∀ a v : Word, a.ult v = !v.ule a := fun a v => by
    rw [BitVec.ule_eq_not_ult, Bool.not_not]
  have equal : ∀ a v : Word, Condition.equal.holds (compareFlags a v) = (a == v) := fun a v => by
    rw [Condition.holds, compareFlags, subtraction_zero]
  -- the code jumps over the branch, so each condition is the opposite one
  cases type <;> try exact absurd kind (by decide)
  case beq => exact ⟨_, rfl, fun a v => congrArg not (equal a v)⟩
  case bne => exact ⟨_, rfl, fun a v => by rw [equal]; simp [branchCondition, bne]⟩
  case blt => exact ⟨_, rfl, less⟩
  case bge => exact ⟨_, rfl, fun a v => by rw [holds_less, signed]; rfl⟩
  case bltu =>
    refine ⟨_, rfl, fun a v => ?_⟩
    change v.ule a = !a.ult v
    rw [unsigned, Bool.not_not]
  case bgeu => exact ⟨_, rfl, fun a v => by rw [holds_unsignedLess, unsigned]; rfl⟩

/-- The jump over a branch that is not taken, and the label it jumps to. What stands behind
the label emits nothing. -/
private theorem emits_guarded_branch (target : Word) (condition : Condition) (x y : A64R)
    (wf : c.cache.WF) {rest : Gen Bool} {goesOn : Bool} {c₂ : RegisterCache}
    (silent : ∀ n, rest.run { c with nextLabel := n }
      = .ok ⟨goesOn, [], [], { nextLabel := n, cache := c₂ }⟩) (same : c₂.directory = c.cache.directory) :
    ∃ n', Emits b (do
        let skip ← allocateLabel
        ins (.cmp .w64 x y)
        ins (.b condition skip)
        g.generateStaticBranch target RA.a
        insertLabel skip
        rest) c goesOn { nextLabel := n', cache := c₂ } (Mirrors b c.cache settled)
      (fun k s => Meets b c₂ k.1
        (if condition.holds (compareFlags (s.get x) (s.get y)) then .next k.2
        else b.setting.staticBranch g.currentPc target k.2)) := by
  let n := c.nextLabel
  obtain ⟨code, exits, n', ran, terminal, realizes⟩ :=
    staticBranch_realizes uses target { c with nextLabel := n + 1 } c₂
  have grows : n + 1 ≤ n' := terminal.grows
  have later : ∀ exit ∈ exits, n + 1 ≤ exit.label ∧ exit.label < n' := terminal.fresh
  have fresh : FreshLabels PendingExit.label n
      (.instr (.cmp .w64 x y) :: .instr (.b condition n) :: (code ++ [.label n])) exits n' := by
    refine ⟨Nat.le_of_succ_le grows, ?_, fun exit member => ?_⟩
    · simp only [binds_instr, binds_append, terminal.free, binds_label, binds_nil,
        List.nil_append, List.mem_singleton, forall_eq]
      exact ⟨Nat.le_refl n, grows⟩
    · obtain ⟨low, high⟩ := later exit member
      exact ⟨Nat.le_of_succ_le low, high⟩
  refine ⟨n', _, exits, ?_, fresh, fun k s mirrors => ?_⟩
  · have label : (insertLabel n).run { c with nextLabel := n' }
        = .ok ⟨(), [.label n], [], { c with nextLabel := n' }⟩ := rfl
    have behind : (insertLabel n >>= fun _ => rest).run { c with nextLabel := n' }
        = .ok ⟨goesOn, [.label n], [], { nextLabel := n', cache := c₂ }⟩ := by
      rw [Emitter.run_bind_of_ok label]
      dsimp only
      rw [silent n']
      rfl
    have branch : (g.generateStaticBranch target RA.a >>= fun _ => insertLabel n >>= fun _ =>
        rest).run { c with nextLabel := n + 1 }
        = .ok ⟨goesOn, code ++ [.label n], exits, { nextLabel := n', cache := c₂ }⟩ := by
      rw [Emitter.run_bind_of_ok ran]
      dsimp only
      rw [behind, Emitter.prepend_ok, List.append_nil]
    rw [Emitter.run_bind_of_ok (run_allocateLabel c)]
    dsimp only
    rw [Emitter.run_bind_of_ok (run_ins rfl _)]
    dsimp only
    rw [Emitter.run_bind_of_ok (run_ins rfl _)]
    dsimp only
    rw [branch]
    rfl
  · let flags := compareFlags (s.get x) (s.get y)
    let s₁ := s.setFlags (some flags)
    have compare : step k.1 (.cmp .w64 x y) s = .next s₁ := rfl
    have mirrors₁ : Mirrors b c.cache settled k s₁ := by
      have disturbs : Disturbs [] s s₁ := .setFlags _ _ _
      exact mirrors.disturb disturbs (by simp)
    have safe₀ : Sandboxed k.1 (.cmp .w64 x y) s := rfl
    have safe : Sandboxed k.1 (.b condition n) s₁ := rfl
    have known : s₁.flags = some flags := rfl
    -- the skip label is jumped to, or the branch leaves before it
    cases jumps : condition.holds flags with
    | true =>
      have seeks : Seeks (step k.1) (Sandboxed k.1)
          (.instr (.cmp .w64 x y) :: .instr (.b condition n) :: code) n s s₁ := by
        have jump : step k.1 (.b condition n) s₁ = .jump n s₁ := by
          simp only [step, known, jumps, if_true]
        exact .cons safe₀ compare (.jump safe jump (by rw [terminal.free]; exact List.not_mem_nil))
      simp only [show condition.holds (compareFlags (s.get x) (s.get y)) = true from jumps, if_true]
      exact ⟨.ran s₁, seeks.arrive, mirrors₁.congr same⟩
    | false =>
      have passes : Continues (step k.1) (Sandboxed k.1)
          [.instr (.cmp .w64 x y), .instr (.b condition n)] s s₁ := by
        refine .cons safe₀ compare (.cons safe ?_ (.nil s₁))
        simp only [step, known, jumps, Bool.false_eq_true, if_false]
      have branch := (realizes k s₁ (mirrors₁.restores wf)).labeled (bindsOwn_exitCode b) (l := n)
        fun exit member clash => absurd (later exit member).1 (by omega)
      simp only [show condition.holds (compareFlags (s.get x) (s.get y)) = false from jumps,
        Bool.false_eq_true, if_false]
      exact branch.after (bindsOwn_exitCode b) passes

omit uses in
theorem generateInstruction_branch (g : CodeGenerator) (kind : isBranch i.type = true)
    {condition : Condition} (chosen : skipCondition i.type = .ok condition) :
    g.generateInstruction i = (do
      let [x, y] ← lockRegisters g.platform (readsOf [i.rs1, i.rs2]) | unreachableCode
      let skip ← allocateLabel
      ins (.cmp .w64 x y)
      ins (.b condition skip)
      g.generateStaticBranch (g.currentPc + i.imm) RA.a
      insertLabel skip
      unlockRegisters [x, y]
      pure true) := by
  -- the source picks the condition inside the case, which can be done first
  have sketch : g.generateInstruction i = liftExcept (skipCondition i.type) >>= fun condition => (do
      let [x, y] ← lockRegisters g.platform (readsOf [i.rs1, i.rs2]) | unreachableCode
      let skip ← allocateLabel
      ins (.cmp .w64 x y)
      ins (.b condition skip)
      g.generateStaticBranch (g.currentPc + i.imm) RA.a
      insertLabel skip
      unlockRegisters [x, y]
      pure true) := by
    unfold generateInstruction
    cases type : i.type <;> first | exact absurd (type ▸ kind) (by decide) | rfl
  rw [sketch, chosen, liftExcept_ok_bind]

theorem compilesTo_branch (be : BackEnd) (kind : isBranch i.type = true) (idle : c.cache.Idle) :
    CompilesTo b g i c true (effect be b.setting g.currentPc i) := by
  obtain ⟨condition, chosen, holds⟩ := holds_skipCondition kind
  have below : ∀ r ∈ [i.rs1, i.rs2], r ≠ Register.pc := by simpa using ⟨i.rs1_ne_pc, i.rs2_ne_pc⟩
  have few : [i.rs1, i.rs2].length ≤ 2 := Nat.le_refl 2
  let c₁ : GenState := { c with cache := c.cache.locking g.platform (readsOf [i.rs1, i.rs2]) }
  have locks : Locks c.cache c₁.cache (readsOf [i.rs1, i.rs2]) := idle.locks g.platform below few
  have lock := does_lockReads g.platform b idle below few
  obtain ⟨idle', directory⟩ := locks.released idle
  have unlocks : ∀ n, (do
      unlockRegisters [c₁.cache.home i.rs1, c₁.cache.home i.rs2]
      pure true : Gen Bool).run { c₁ with nextLabel := n } = .ok ⟨true, [], [],
        { nextLabel := n, cache := c₁.cache.unlockedAll ([i.rs1, i.rs2].map c₁.cache.home) }⟩ := by
    intro n
    have unlock := run_unlockRegisters (c := { c₁ with nextLabel := n }) locks.wf [i.rs1, i.rs2]
    exact Emitter.run_bind_of_ok unlock _
  obtain ⟨n', branch⟩ := emits_guarded_branch uses (g.currentPc + i.imm) condition
    (c₁.cache.home i.rs1) (c₁.cache.home i.rs2) locks.wf unlocks directory
  refine ⟨{ nextLabel := n', cache := c₁.cache.unlockedAll ([i.rs1, i.rs2].map c₁.cache.home) }, idle', ?_⟩
  rw [generateInstruction_branch g kind chosen]
  refine Emitter.Emits.after_straight (bindsOwn_exitCode b) ?_ lock branch
    (fun _ _ mirrors => mirrors) ?_
  · exact Nat.le_refl _
  · intro k s s₁ _ mirrors
    obtain ⟨left, -⟩ := mirrors.read locks (r := i.rs1) (by simp)
    obtain ⟨right, -⟩ := mirrors.read locks (r := i.rs2) (by simp)
    refine ⟨mirrors, fun ending meets => ?_⟩
    rw [left, right, holds] at meets
    rw [effect_branch be b.setting g.currentPc k.2 kind]
    -- the branch is skipped exactly when it is not taken
    cases taken : branchCondition i.type (k.2.registers.get i.rs1) (k.2.registers.get i.rs2) with
    | true => rwa [taken, Bool.not_true, if_neg Bool.false_ne_true] at meets
    | false => rwa [taken, Bool.not_false, if_pos rfl] at meets

/-! ### Indirect jumps -/

omit uses in
/-- An instruction locks no more slots than registers. -/
theorem RegisterCache.Locks.card_lockedSlots {c c' : RegisterCache} {registers : List RegisterToLock}
    (locks : Locks c c' registers) (idle : c.Idle) : c'.lockedSlots.card ≤ registers.length := by
  have asked : ∀ id ∈ c'.lockedSlots, (c'.slots id).reg ∈ requested registers := by
    intro id member
    rcases locks.locked id (mem_lockedSlots.mp member) with before | asked
    · rw [idle.unlocked] at before
      cases before
    · exact asked
  -- two slots do not hold one register
  have injective : Set.InjOn (fun id => (c'.slots id).reg) c'.lockedSlots := by
    intro i here j there same
    have nonzero := (mem_requested.mp (asked i here)).2
    have first := (locks.wf.placed _ i).mpr ⟨nonzero, rfl⟩
    have second := (locks.wf.placed _ j).mpr ⟨nonzero, same.symm⟩
    exact Option.some.inj (first.symm.trans second)
  calc c'.lockedSlots.card ≤ (requested registers).card :=
        Finset.card_le_card_of_injOn _ asked injective
    _ ≤ (registers.map RegisterToLock.reg).toFinset.card := Finset.card_filter_le _ _
    _ ≤ (registers.map RegisterToLock.reg).length := List.toFinset_card_le _
    _ = registers.length := List.length_map _

/-- The jump, behind the code that writes the link register. -/
private theorem emits_jump {t : A64R} (real : t ≠ A64R.xzr) (apart : t ≠ RA.b) (wf : c.cache.WF)
    (r : Register) :
    ∃ n', Emits b (do
        g.generateDynamicBranch t RA.b
        unlockRegister (c.cache.home r) false
        pure false) c false
        { nextLabel := n', cache := c.cache.unlocked (c.cache.home r) false }
      (Mirrors b c.cache settled)
      (fun k s => Meets b (c.cache.unlocked (c.cache.home r) false) k.1
        (b.setting.dynamicBranch (s.regs t) k.2)) := by
  obtain ⟨n', branch⟩ := emits_dynamicBranch uses real apart wf
    (c.cache.unlocked (c.cache.home r) false)
  have unlock := run_unlockRegister (c := { c with nextLabel := n' }) r false
  refine ⟨n', branch.then_silent ?_ (Emitter.run_bind_of_ok unlock _)⟩
  exact Nat.le_refl n'

/-- The link register, and the jump to a target that is not in its home. -/
private theorem emits_linkTail {t : A64R} (real : t ≠ A64R.xzr) (apart : t ≠ RA.b) (wf : c.cache.WF)
    (rs1 : Register) {rd : Register} {id : SlotId} (place : c.cache.registerToSlot rd = some id)
    {stale : Register → Prop} (only : ∀ r id', c.cache.registerToSlot r = some id' → stale r → r = rd)
    (other : t ≠ c.cache.home rd) (v : Word) :
    let c₂ := (c.cache.unlocked (c.cache.home rd) true).unlocked (c.cache.home rs1) false
    ∃ n', Emits b (do
        g.loadImmediate (c.cache.home rd) v
        unlockRegister (c.cache.home rd) true
        g.generateDynamicBranch t RA.b
        unlockRegister (c.cache.home rs1) false
        pure false) c false { nextLabel := n', cache := c₂ } (Mirrors b c.cache stale)
      (fun k s => Meets b c₂ k.1 (b.setting.dynamicBranch (s.get t) (k.2.setRegister rd v))) := by
  intro c₂
  have dest : c.cache.home rd ≠ A64R.xzr := by
    rw [home_placed place]
    exact cache_ne_xzr id
  let c₁ : GenState := { c with cache := c.cache.unlocked (c.cache.home rd) true }
  have unlocks := wf.unlocked rd true
  have marked : c₁.cache.directory = c.cache.directory.markDirty id := directory_unlocked_dirty place
  have load : Does (g.loadImmediate (c.cache.home rd) v) c () c (Mirrors b c.cache stale)
      (fun k s s' => Mirrors b c₁.cache settled (k.1, k.2.setRegister rd v) s' ∧
        s'.get t = s.get t) := by
    refine .instr (run_loadImmediate uses (c.cache.home rd) dest v c) fun k s mirrors => ?_
    obtain ⟨safe, next⟩ := step_immediateInstr mirrors.ready.based k.1 (c.cache.home rd) v
    refine ⟨safe, _, next, mirrors.write wf place only (.setReg dest v s) marked, ?_⟩
    rw [State.get_setReg s dest, if_neg other]
  obtain ⟨n', jump⟩ := emits_jump (c := c₁) uses real apart unlocks.wf rs1
  rw [unlocks.home] at jump
  -- the link register is dirty before the branch takes its snapshot
  have unlock := run_unlockRegister (c := c) rd true
  refine ⟨n', Emitter.Emits.after_straight (bindsOwn_exitCode b) (Nat.le_refl _) load
    (.silent (show c.nextLabel ≤ c₁.nextLabel from Nat.le_refl _) unlock
      (jump.rebase fun guest => guest.setRegister rd v))
    (fun _ _ mirrors => mirrors) ?_⟩
  rintro k s s₁ _ ⟨mirrors, kept⟩
  refine ⟨mirrors, fun ending meets => ?_⟩
  rwa [← kept, State.get_of_ne s₁ real]

omit uses in
/-- The lock of the link register keeps a target that is in a scratch register, or in the
locked register of its base. -/
private theorem does_lockLink (p : Platform) {rs1 rd : Register} (wf : c.cache.WF)
    (room : c.cache.Room [writeOnly rd]) (below : rd ≠ Register.pc)
    (held : rs1 ≠ Register.zero → ∃ id, c.cache.registerToSlot rs1 = some id ∧
      (c.cache.slots id).locked = true) {t : A64R}
    (place : t = RA.a ∨ t = c.cache.home rs1 ∧ c.cache.home rs1 ≠ A64R.xzr) :
    Does (lockRegisters p [writeOnly rd]) c [(c.cache.locking p [writeOnly rd]).home rd]
      { c with cache := c.cache.locking p [writeOnly rd] }
      (fun k s => Mirrors b c.cache settled k s ∧
        (t = c.cache.home rs1 → s.get t = k.2.registers.get rs1))
      (fun k s s' =>
        Mirrors b (c.cache.locking p [writeOnly rd]) (Unread c.cache [writeOnly rd]) k s' ∧
          s'.get t = s.get t ∧ (s.getForeign t = false → s'.getForeign t = false)) := by
  have belows : ∀ r ∈ [writeOnly rd], r.reg ≠ Register.pc := by
    intro r member
    rw [List.mem_singleton.mp member]
    exact below
  have locks := wf.locking p room belows
  refine (does_lockRegisters p b wf room belows).conseq (fun _ _ holds => holds.1) ?_
  rintro k s s' ⟨-, base⟩ ⟨mirrors, spares⟩
  refine ⟨mirrors, ?_⟩
  -- the target is in a scratch register, or in the base's slot, which stays locked
  rcases place with rfl | ⟨rfl, real⟩
  · obtain ⟨value, native⟩ := spares RA.a rfl
    simp only [State.get, State.getForeign, value, native]
    exact ⟨trivial, id⟩
  · have nonzero : rs1 ≠ Register.zero := by
      rintro rfl
      exact real wf.home_zero
    obtain ⟨id, here, locked⟩ := held nonzero
    have kept := (locks.kept rs1 id here locked).1
    have home : (c.cache.locking p [writeOnly rd]).home rs1 = c.cache.home rs1 := by
      rw [home_placed here, home_placed kept]
    obtain ⟨value, native⟩ := mirrors.home locks.wf (r := rs1) (fun _ => by simp [kept])
      fun _ unread => by simp [unread.1] at here
    rw [home] at value native
    exact ⟨value.trans (base rfl).symm, fun _ => native⟩

omit uses in
/-- A locked base keeps its home while further registers are locked. -/
theorem home_kept {c c₁ c₂ : RegisterCache} {rs1 : Register} {registers : List RegisterToLock}
    (locks₁ : Locks c c₁ (readsOf [rs1])) (locks₂ : Locks c₁ c₂ registers) :
    c₂.home rs1 = c₁.home rs1 := by
  by_cases base : rs1 = Register.zero
  · rw [base, locks₂.wf.home_zero, locks₁.wf.home_zero]
  · obtain ⟨id, here, locked⟩ := locks₁.placed rs1 (mem_requested_readsOf.mpr ⟨by simp, base⟩)
    rw [home_placed here, home_placed (locks₂.kept rs1 id here locked).1]

omit uses in
/-- Unlocking the link register and the base leaves an idle cache. -/
theorem idle_linked {c c₁ c₂ : RegisterCache} {rs1 rd : Register} (idle : c.Idle)
    (locks₁ : Locks c c₁ (readsOf [rs1])) (locks₂ : Locks c₁ c₂ [writeOnly rd])
    (home : c₂.home rs1 = c₁.home rs1) :
    ((c₂.unlocked (c₂.home rd) true).unlocked (c₁.home rs1) false).Idle := by
  have first := locks₂.wf.unlocked rd true
  have second := first.wf.unlocked rs1 false
  rw [first.home, home] at second
  refine ⟨second.wf, fun id => ?_⟩
  by_contra holds
  obtain ⟨later, base⟩ := second.locked id (by simpa using holds)
  obtain ⟨before, link⟩ := first.locked id later
  rw [first.places] at base
  rcases locks₂.locked id before with already | asked
  · rcases locks₁.locked id already with start | asked
    · rw [idle.unlocked] at start
      cases start
    · -- the slot is the one of the base, which is still there
      obtain ⟨member, nonzero⟩ := mem_requested_readsOf.mp asked
      have here := (locks₁.wf.placed _ id).mpr ⟨nonzero, rfl⟩
      rw [List.mem_singleton.mp member] at here
      exact base (locks₂.kept rs1 id here already).1
  · obtain ⟨member, nonzero⟩ := mem_requested.mp asked
    have same : (c₂.slots id).reg = rd := by simpa [writeOnly] using member
    exact link ((locks₂.wf.placed rd id).mpr ⟨same ▸ nonzero, same⟩)

/-- Behind the addition `t` holds the target. If it is the home of the base, the offset was zero. -/
def HoldsTarget (b : Block) (c : RegisterCache) (rs1 : Register) (imm : Word) (t : A64R) (k : Ghost) (s : State) :
    Prop :=
  Mirrors b c settled k s ∧ s.get t = k.2.registers.get rs1 + imm ∧ s.getForeign t = false ∧
    (t = c.home rs1 → s.get t = k.2.registers.get rs1)

/-- Code behind the addition, which leaves the target in a scratch register or in the home of its base. -/
theorem emits_addTarget (p : Platform) {rs1 : Register}
    (locks : Locks c.cache (c.cache.locking p (readsOf [rs1])) (readsOf [rs1])) (imm : Word) :
    let c₁ : GenState := { c with cache := c.cache.locking p (readsOf [rs1]) }
    ∃ t, (t = RA.a ∨ t = c₁.cache.home rs1 ∧ c₁.cache.home rs1 ≠ A64R.xzr) ∧ t ≠ A64R.xzr ∧ t ≠ RA.b ∧
      ∀ {rest : A64R → Gen Bool} {c' : GenState} {post : Ghost → Ending State Exit → Prop},
        Emits b (rest t) c₁ false c' (HoldsTarget b c₁.cache rs1 imm t) (fun k _ => post k) →
        Emits b (g.addOffsetToRegister (c₁.cache.home rs1) RA.a imm >>= rest) c₁ false c'
          (Mirrors b c₁.cache settled) (fun k _ => post k) := by
  intro c₁
  have outside := isScratch_home c₁.cache rs1
  -- the target is in `a_reg`, or in the register of `rs1` where nothing is added
  obtain ⟨t, place, add⟩ := does_addOffsetToRegister uses outside imm c₁
  refine ⟨t, place, ?_, ?_, fun emits => ?_⟩
  · rcases place with rfl | ⟨rfl, real⟩
    · decide
    · exact real
  · rcases place with rfl | ⟨rfl, -⟩
    · decide
    · intro same
      rw [same] at outside
      cases outside
  · refine Emitter.Emits.after_straight (bindsOwn_exitCode b) (Nat.le_refl _) add emits
      (fun k s mirrors => ⟨mirrors.ready.based, (mirrors.read locks (by simp)).2⟩) ?_
    rintro k s s₁ mirrors ⟨disturbs, value, native⟩
    have base := (mirrors.read locks (r := rs1) (by simp)).1
    have scratch : ∀ q ∈ [RA.a], isScratch q = true := by decide
    have after := mirrors.disturb disturbs scratch
    refine ⟨⟨after, by rw [value]; exact congrArg (· + imm) base, native, fun same => ?_⟩,
      fun _ meets => meets⟩
    rw [same]
    exact (after.read locks (by simp)).1

/-- The cache behind the jump. -/
def linkedCache (c : RegisterCache) (rs1 rd : Register) : RegisterCache :=
  (c.unlocked (c.home rd) true).unlocked (c.home rs1) false

/-- The link register and the jump, where the target is not in the home of the link register. -/
private theorem emits_linkApart {c₁ : RegisterCache} {rs1 rd : Register} {imm v : Word} {t : A64R}
    (locks : Locks c₁ c.cache [writeOnly rd]) (nonzero : rd ≠ Register.zero) (real : t ≠ A64R.xzr)
    (apart : t ≠ RA.b) (other : t ≠ c.cache.home rd) : ∃ n', Emits b (do
        g.loadImmediate (c.cache.home rd) v
        unlockRegister (c.cache.home rd) true
        g.generateDynamicBranch t RA.b
        unlockRegister (c.cache.home rs1) false
        pure false) c false { nextLabel := n', cache := linkedCache c.cache rs1 rd }
      (fun k s => Mirrors b c.cache (Unread c₁ [writeOnly rd]) k s ∧ s.get t = k.2.registers.get rs1 + imm)
      (fun k _ => Meets b (linkedCache c.cache rs1 rd) k.1
        (b.setting.dynamicBranch (k.2.registers.get rs1 + imm) (k.2.setRegister rd v))) := by
  obtain ⟨id, place, -⟩ := locks.placed rd (mem_requested.mpr ⟨by simp [writeOnly], nonzero⟩)
  -- only the link register waits for its value
  have only : ∀ r id', c.cache.registerToSlot r = some id' → Unread c₁ [writeOnly rd] r → r = rd := by
    intro r id' here unread
    rcases locks.sources r id' here with before | member
    · rw [unread.1] at before
      cases before
    · simpa [writeOnly] using (mem_requested.mp member).1
  obtain ⟨n', emits⟩ := emits_linkTail uses real apart locks.wf rs1 place only other v
  refine ⟨n', emits.conseq (fun _ _ holds => holds.1) ?_⟩
  rintro k s ending ⟨-, value⟩ meets
  rwa [← value]

omit uses in
/-- The target moves out of the home of the link register. -/
private theorem does_moveTarget {stale : Register → Prop} {t : A64R} (value : Ghost → Word) :
    Does (ins (.mov RA.a t)) c () c (fun k s => Mirrors b c.cache stale k s ∧ s.get t = value k)
      (fun k _ s' => Mirrors b c.cache stale k s' ∧ s'.get RA.a = value k) := by
  refine .instr (run_ins rfl c) ?_
  rintro k s ⟨mirrors, here⟩
  refine ⟨rfl, _, rfl, ?_, ?_⟩
  · have disturbs : Disturbs [RA.a] s (s.setReg RA.a (s.get t) (s.getForeign t)) :=
      .setReg List.mem_cons_self s _ _
    exact mirrors.disturb disturbs (by decide)
  · rw [State.get_setReg s (by decide), if_pos rfl, here]

/-- The link register and the jump. -/
private theorem emits_linkJump {c₁ : RegisterCache} {rd : Register} {t : A64R}
    (locks : Locks c₁ c.cache [writeOnly rd]) (nonzero : rd ≠ Register.zero) (real : t ≠ A64R.xzr)
    (apart : t ≠ RA.b) (rs1 : Register) (imm v : Word) : ∃ n', Emits b
      (if c.cache.home rd = t then do
        ins (.mov RA.a t)
        g.loadImmediate (c.cache.home rd) v
        unlockRegister (c.cache.home rd) true
        g.generateDynamicBranch RA.a RA.b
        unlockRegister (c.cache.home rs1) false
        pure false
      else do
        g.loadImmediate (c.cache.home rd) v
        unlockRegister (c.cache.home rd) true
        g.generateDynamicBranch t RA.b
        unlockRegister (c.cache.home rs1) false
        pure false) c false { nextLabel := n', cache := linkedCache c.cache rs1 rd }
      (fun k s => Mirrors b c.cache (Unread c₁ [writeOnly rd]) k s ∧ s.get t = k.2.registers.get rs1 + imm)
      (fun k _ => Meets b (linkedCache c.cache rs1 rd) k.1
        (b.setting.dynamicBranch (k.2.registers.get rs1 + imm) (k.2.setRegister rd v))) := by
  -- the link would overwrite a target that is in the register of `rd`: it is moved to `a_reg` first
  by_cases clash : c.cache.home rd = t
  · rw [if_pos clash]
    have scratch : RA.a ≠ c.cache.home rd := fun same => by
      have outside := isScratch_home c.cache rd
      rw [← same] at outside
      cases outside
    obtain ⟨n', emits⟩ := emits_linkApart uses locks nonzero (by decide) (by decide) scratch
    exact ⟨n', Emitter.Emits.after_straight (bindsOwn_exitCode b) (Nat.le_refl _)
      (does_moveTarget fun k => k.2.registers.get rs1 + imm) emits (fun _ _ holds => holds)
      fun _ _ _ _ holds => ⟨holds, fun _ meets => meets⟩⟩
  · rw [if_neg clash]
    exact emits_linkApart uses locks nonzero real apart (Ne.symm clash)

omit uses in
/-- Code behind the lock of the link register. -/
private theorem emits_lockLink (p : Platform) {c₀ : RegisterCache} {rs1 rd : Register} (imm : Word) {t : A64R}
    (idle : c₀.Idle) (locks : Locks c₀ c.cache (readsOf [rs1])) (below : rd ≠ Register.pc)
    (place : t = RA.a ∨ t = c.cache.home rs1 ∧ c.cache.home rs1 ≠ A64R.xzr) :
    let c₁ := c.cache.locking p [writeOnly rd]
    Locks c.cache c₁ [writeOnly rd] ∧
      ∀ {rest : List A64R → Gen Bool} {c' : GenState} {post : Ghost → Ending State Exit → Prop},
        Emits b (rest [c₁.home rd]) { c with cache := c₁ } false c'
          (fun k s => Mirrors b c₁ (Unread c.cache [writeOnly rd]) k s ∧ s.get t = k.2.registers.get rs1 + imm)
          (fun k _ => post k) →
        Emits b (lockRegisters p [writeOnly rd] >>= rest) c false c' (HoldsTarget b c.cache rs1 imm t)
          (fun k _ => post k) := by
  intro c₁
  -- one register is locked, so there is room for another one
  have room : c.cache.Room [writeOnly rd] := by
    have held : c.cache.lockedSlots.card ≤ 1 := locks.card_lockedSlots idle
    exact Nat.le_trans (Nat.add_le_add_right held 1) (by decide)
  have belows : ∀ r ∈ [writeOnly rd], r.reg ≠ Register.pc := by
    intro r member
    rw [List.mem_singleton.mp member]
    exact below
  have held : rs1 ≠ Register.zero → ∃ id, c.cache.registerToSlot rs1 = some id ∧
      (c.cache.slots id).locked = true := fun nonzero =>
    locks.placed rs1 (mem_requested_readsOf.mpr ⟨by simp, nonzero⟩)
  refine ⟨locks.wf.locking p room belows, fun emits => ?_⟩
  refine Emitter.Emits.after_straight (bindsOwn_exitCode b) ?_
    (does_lockLink p locks.wf room below held place) emits (fun k s known => ⟨known.1, known.2.2.2⟩) ?_
  · exact Nat.le_refl _
  · rintro k s s₁ known ⟨mirrors, kept, -⟩
    exact ⟨⟨mirrors, kept.trans known.2.1⟩, fun _ meets => meets⟩

theorem compilesTo_jalr (be : BackEnd) (kind : i.type = .jalr) (idle : c.cache.Idle) :
    CompilesTo b g i c false (effect be b.setting g.currentPc i) := by
  have outcome : ∀ guest, effect be b.setting g.currentPc i guest = b.setting.dynamicBranch
      (guest.registers.get i.rs1 + i.imm) (guest.setRegister i.rd (g.currentPc + 4)) := fun guest => by
    simp only [effect, kind]
  refine CompilesTo.congr ?_ fun guest => (outcome guest).symm
  have below : ∀ r ∈ [i.rs1], r ≠ Register.pc := by simpa using i.rs1_ne_pc
  have few : [i.rs1].length ≤ 2 := Nat.le_succ 1
  let c₁ : GenState := { c with cache := c.cache.locking g.platform (readsOf [i.rs1]) }
  have locks₁ : Locks c.cache c₁.cache (readsOf [i.rs1]) := idle.locks g.platform below few
  have lock := does_lockReads g.platform b idle below few
  obtain ⟨t, place, real, apart, behind⟩ := emits_addTarget uses g.platform locks₁ i.imm
  by_cases zero : i.rd = Register.zero
  · -- nothing is linked
    obtain ⟨n', jump⟩ := emits_jump uses real apart locks₁.wf i.rs1
    refine ⟨{ nextLabel := n', cache := c₁.cache.unlocked (c₁.cache.home i.rs1) false },
      (locks₁.released idle).1, ?_⟩
    simp only [generateInstruction, kind, zero, ne_eq, not_true_eq_false, if_false, Emitter.pure_bind,
      Guest.setRegister_zero]
    refine Emitter.Emits.after_straight (bindsOwn_exitCode b) ?_ lock
      (behind (jump.conseq (fun _ _ known => known.1) ?_))
      (fun _ _ mirrors => mirrors) fun _ _ _ _ mirrors => ⟨mirrors, fun _ meets => meets⟩
    · exact Nat.le_refl _
    · intro k s ending known meets
      rw [← known.2.1, State.get_of_ne s real]
      exact meets
  · -- the link register is written before the jump
    obtain ⟨locks₂, locked⟩ := emits_lockLink (c := c₁) g.platform i.imm idle locks₁ i.rd_ne_pc place
    let c₂ : GenState := { c₁ with cache := c₁.cache.locking g.platform [writeOnly i.rd] }
    have home : c₂.cache.home i.rs1 = c₁.cache.home i.rs1 := home_kept locks₁ locks₂
    obtain ⟨n', link⟩ := emits_linkJump uses (c := c₂) locks₂ zero real apart i.rs1 i.imm (g.currentPc + 4)
    have released : (linkedCache c₂.cache i.rs1 i.rd).Idle := by
      unfold linkedCache
      rw [home]
      exact idle_linked idle locks₁ locks₂ home
    refine ⟨{ nextLabel := n', cache := linkedCache c₂.cache i.rs1 i.rd }, released, ?_⟩
    simp only [generateInstruction, kind, zero, ne_eq, not_false_eq_true, if_true, Emitter.pure_bind]
    refine Emitter.Emits.after_straight (bindsOwn_exitCode b) ?_ lock (behind (locked (home ▸ link)))
      (fun _ _ mirrors => mirrors) fun _ _ _ _ mirrors => ⟨mirrors, fun _ meets => meets⟩
    exact Nat.le_refl _

end Transfers

end Riscv64Emulator.Jit.Aarch64
