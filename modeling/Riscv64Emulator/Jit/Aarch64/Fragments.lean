import Riscv64Emulator.Jit.Aarch64.CodeGenerator
import Riscv64Emulator.Jit.Aarch64.CacheState
import Riscv64Emulator.Jit.HostAccess
import Riscv64Emulator.Lib.Emission

/-!
# Guest registers in host registers

While a block runs, the guest the abstract model talks about is spread over the register
table and the cached registers. `Mirrors` says that together they represent it. Locking,
evicting and flushing keep what is represented.
-/
namespace Riscv64Emulator.Jit.Aarch64

open LinearCode WriteBack RegisterCache

/-- The registers generated code computes in. -/
def isScratch (q : A64R) : Bool := q == RA.a || q == RA.b || q == RA.c

/-- The base registers hold what the trampoline loads, and the environment serves the
guest. No generated instruction but those of an exit writes a base register. -/
structure Anchored (st : Setting) (size : Word) (env : Env) (s : State) : Prop where
  serves : env.Serves st size s.guest
  registerState : s.regs RA.registerState = env.layout.registerState
  memoryBase : s.regs RA.memoryBase = env.layout.memoryBase
  permissionsBase : s.regs RA.permissionsBase
    = env.layout.memoryBase + BitVec.ofNat 64 (8 * blockCount size)
  memorySize : s.regs RA.memorySize = size
  blockBase : s.regs RA.blockBase = env.layout.blockBase
  maxExecutablePc : s.regs RA.maxExecutablePc = st.maxBlockCount * 4
  codeBase : s.regs RA.codeBase = env.layout.codeBase

/-- The registers generated code may write. -/
def isFree (q : A64R) : Bool := decide (8 ≤ q.val)

/-- Only registers a block may write differ, and the flags. -/
def Disturbs (ts : List A64R) (s s' : State) : Prop :=
  s'.guest = s.guest ∧ ∀ q, q ∉ ts → s'.regs q = s.regs q ∧ s'.foreign q = s.foreign q

namespace Disturbs

variable {ts : List A64R} {s s' s'' : State}

theorem refl (ts : List A64R) (s : State) : Disturbs ts s s := ⟨rfl, fun _ _ => ⟨rfl, rfl⟩⟩

theorem trans (first : Disturbs ts s s') (second : Disturbs ts s' s'') : Disturbs ts s s'' :=
  ⟨second.1.trans first.1, fun q other =>
    ⟨(second.2 q other).1.trans (first.2 q other).1, (second.2 q other).2.trans (first.2 q other).2⟩⟩

theorem setFlags (ts : List A64R) (s : State) (f : Option Flags) : Disturbs ts s (s.setFlags f) :=
  ⟨rfl, fun _ _ => ⟨rfl, rfl⟩⟩

theorem setReg {t : A64R} (member : t ∈ ts) (s : State) (v : Word) (f : Bool) :
    Disturbs ts s (s.setReg t v f) := by
  refine ⟨State.guest_setReg s t v f, fun q other => ?_⟩
  have apart : q ≠ t := fun h => other (h ▸ member)
  unfold State.setReg
  split
  · exact ⟨rfl, rfl⟩
  · simp only [if_neg apart, and_self]

theorem get (disturbs : Disturbs ts s s') {q : A64R} (other : q ∉ ts) :
    s'.get q = s.get q ∧ s'.getForeign q = s.getForeign q := by
  simp only [State.get, State.getForeign, (disturbs.2 q other).1, (disturbs.2 q other).2, and_self]

theorem anchored {st : Setting} {size : Word} {env : Env} (disturbs : Disturbs ts s s')
    (free : ∀ t ∈ ts, isFree t = true) (anchored : Anchored st size env s) :
    Anchored st size env s' := by
  have base : ∀ q, isFree q = false → s'.regs q = s.regs q := fun q fixed =>
    (disturbs.2 q fun member => by simp [free q member] at fixed).1
  constructor
  · rw [disturbs.1]
    exact anchored.serves
  · rw [base _ rfl, anchored.registerState]
  · rw [base _ rfl, anchored.memoryBase]
  · rw [base _ rfl, anchored.permissionsBase]
  · rw [base _ rfl, anchored.memorySize]
  · rw [base _ rfl, anchored.blockBase]
  · rw [base _ rfl, anchored.maxExecutablePc]
  · rw [base _ rfl, anchored.codeBase]

end Disturbs

theorem Anchored.setGuest {st : Setting} {size : Word} {env : Env} {s : State}
    (anchored : Anchored st size env s) {g : Guest} (serves : env.Serves st size g) :
    Anchored st size env (s.setGuest g) :=
  { anchored with serves := serves }

/-- What stays fixed while the code of a block runs. -/
structure Block where
  platform : Platform
  setting : Setting
  size : Word
  basePc : Word

/-- The register the first instruction of a block sets. -/
structure Block.Based (b : Block) (s : State) : Prop where
  value : s.regs RA.basePc = b.basePc
  native : s.foreign RA.basePc = false

/-- The state of the code behind that instruction. -/
structure Block.Ready (b : Block) (env : Env) (s : State) : Prop where
  anchored : Anchored b.setting b.size env s
  based : b.Based s

theorem Block.Based.disturb {b : Block} {ts : List A64R} {s s' : State} (based : b.Based s)
    (disturbs : Disturbs ts s s') (apart : RA.basePc ∉ ts) : b.Based s' :=
  ⟨(disturbs.2 _ apart).1.trans based.value, (disturbs.2 _ apart).2.trans based.native⟩

theorem Block.Ready.disturb {b : Block} {env : Env} {ts : List A64R} {s s' : State}
    (ready : b.Ready env s) (disturbs : Disturbs ts s s') (free : ∀ t ∈ ts, isFree t = true) :
    b.Ready env s' := by
  have fixed : RA.basePc ∉ ts := fun member => by simpa [isFree] using free _ member
  exact ⟨disturbs.anchored free ready.anchored, ready.based.disturb disturbs fixed⟩

theorem Block.Ready.setGuest {b : Block} {env : Env} {s : State} (ready : b.Ready env s) {g : Guest}
    (serves : env.Serves b.setting b.size g) : b.Ready env (s.setGuest g) :=
  ⟨ready.anchored.setGuest serves, ready.based.value, ready.based.native⟩

/-- The contents of the cached registers, and whether they are guest data. -/
def cells (s : State) : SlotId → Word × Bool := fun id => (s.regs (RA.cache id), s.foreign (RA.cache id))

/-- The entries of a register table. -/
def entries (g : Guest) : Register → Word × Bool := fun r => (g.registers.get r, false)

/-- The code of a block with its environment and the guest it is meant to work on. -/
abbrev Ghost := Env × Guest

/-- The machine state stands for the guest `k.2` while the generator's cache is `c`. -/
structure Mirrors (b : Block) (c : RegisterCache) (stale : Register → Prop) (k : Ghost)
    (s : State) : Prop where
  ready : b.Ready k.1 s
  memory : s.guest.memory = k.2.memory
  registers : Represents c.directory (cells s) (entries s.guest) (entries k.2) stale

/-- No register waits for its value. -/
abbrev settled : Register → Prop := fun _ => False

/-- The machine and the sandbox of generated code. -/
abbrev Does {α : Type} (x : Gen α) (c : GenState) (a : α) (c' : GenState)
    (pre : Ghost → State → Prop) (post : Ghost → State → State → Prop) : Prop :=
  Emitter.Straight (fun k : Ghost => step k.1) (fun k => Sandboxed k.1) x c a c' pre post

/-! ### Generation -/

theorem run_ins {i : Instr} (encodable : i.encodable = true) (c : GenState) :
    (ins i).run c = .ok ⟨(), [.instr i], [], c⟩ := by
  simp [ins, encodable]

@[simp] theorem run_getCache (c : GenState) : getCache.run c = .ok ⟨c.cache, [], [], c⟩ := rfl

@[simp] theorem run_modifyCache (f : RegisterCache → RegisterCache) (c : GenState) :
    (modifyCache f).run c = .ok ⟨(), [], [], { c with cache := f c.cache }⟩ := rfl

theorem run_allocateLabel (c : GenState) : allocateLabel.run c
    = .ok ⟨c.nextLabel, [], [], { c with nextLabel := c.nextLabel + 1 }⟩ := rfl

theorem liftExcept_ok_bind {α β : Type} (a : α) (f : α → Gen β) :
    (liftExcept (.ok a) >>= f) = f a := Emitter.pure_bind a f

theorem run_unlockRegister {c : GenState} (r : Register) (makeDirty : Bool) :
    (unlockRegister (c.cache.home r) makeDirty).run c
      = .ok ⟨(), [], [], { c with cache := c.cache.unlocked (c.cache.home r) makeDirty }⟩ := by
  unfold unlockRegister
  cases place : c.cache.registerToSlot r with
  | none => rw [unlocked_home_absent place, home_absent place]; rfl
  | some id =>
    rw [unlocked_home_placed place, home_placed place, if_neg (cache_ne_xzr id),
      platformRegisterToSlot_cache]
    rfl

/-! ### Register slots -/

section Slots

variable {b : Block} {env : Env} {s : State} (anchored : Anchored b.setting b.size env s)
include anchored

theorem step_registerLoad {t : A64R} (r : Register) (nonzero : r ≠ Register.zero)
    (below : r ≠ Register.pc) :
    Sandboxed env (.ldr .double false t RA.registerState (.imm (slotOffset r))) s ∧
      step env (.ldr .double false t RA.registerState (.imm (slotOffset r))) s
        = .next (s.setReg t (s.guest.registers.get r) false) := by
  have address : s.address RA.registerState (.imm (slotOffset r)) = env.slotAddress r := by
    rw [State.address, anchored.registerState]
    rfl
  have small : AccessSize.bytes .double ≤ 8 := Nat.le_refl 8
  constructor
  · simp only [Sandboxed, sandboxed, accesses, storesForeign, address,
      anchored.serves.permits_slot nonzero below false small, List.all_cons, List.all_nil,
      Bool.not_false, Bool.and_self]
  · simp only [step, address, anchored.serves.load_slot r small,
      anchored.serves.foreign_slot r small, AccessSize.extend, Bool.false_eq_true, if_false]
    rw [AccessSize.bytes, lowBytes_eight]

theorem step_registerStore {t : A64R} (r : Register) (nonzero : r ≠ Register.zero)
    (below : r ≠ Register.pc) (native : s.getForeign t = false) :
    Sandboxed env (.str .double t RA.registerState (.imm (slotOffset r))) s ∧
      step env (.str .double t RA.registerState (.imm (slotOffset r))) s
        = .next (s.setGuest (s.guest.setRegister r (s.get t))) := by
  have address : s.address RA.registerState (.imm (slotOffset r)) = env.slotAddress r := by
    rw [State.address, anchored.registerState]
    rfl
  have permitted := anchored.serves.permits_slot nonzero below true (Nat.le_refl 8)
  constructor
  · simp only [Sandboxed, sandboxed, accesses, storesForeign, address, native, AccessSize.bytes,
      permitted, List.all_cons, List.all_nil, Bool.not_false, Bool.and_self]
  · simp only [step, address, AccessSize.bytes, anchored.serves.store_slot nonzero]

end Slots

theorem get_cache (s : State) (id : SlotId) :
    s.get (RA.cache id) = s.regs (RA.cache id) ∧ s.getForeign (RA.cache id) = s.foreign (RA.cache id) := by
  have real := cache_ne_xzr id
  exact ⟨State.get_of_ne s real, by rw [State.getForeign, bne_iff_ne.mpr real, Bool.true_and]⟩

theorem entries_setRegister (g : Guest) (r : Register) (v : Word) (nonzero : r ≠ Register.zero) :
    entries (g.setRegister r v) = Function.update (entries g) r (v, false) := by
  funext q
  simp only [entries, Guest.registers_setRegister, RegisterState.get_set, Function.update_apply]
  by_cases same : q = r <;> simp [same, nonzero]

theorem entries_injective {g g' : Guest} (memory : g.memory = g'.memory)
    (same : entries g = entries g') : g = g' := by
  have registers : g.registers = g'.registers :=
    RegisterState.ext (funext fun q => congrArg Prod.fst (congrFun same q))
  cases g
  cases g'
  simp only at memory registers
  rw [memory, registers]

/-! ### Flushing -/

/-- The instructions that store the slots of a snapshot. -/
def storeItems (snapshot : StateSnapshot) (ids : List SlotId) : List (Item Instr) :=
  ids.flatMap fun id =>
    if snapshot id = Register.zero then []
    else [.instr (.str .double (RA.cache id) RA.registerState (.imm (slotOffset (snapshot id))))]

theorem run_flushSlots (snapshot : StateSnapshot) (ids : List SlotId) (c : GenState) :
    (flushSlots snapshot ids).run c = .ok ⟨(), storeItems snapshot ids, [], c⟩ := by
  induction ids with
  | nil => rfl
  | cons id rest ih =>
    have store : (Instr.str .double (RA.cache id) RA.registerState
        (.imm (slotOffset (snapshot id)))).encodable = true := rfl
    by_cases zero : snapshot id = Register.zero <;>
      simp [flushSlots, emitRegisterStore, Emitter.run_bind, run_ins store, ih, storeItems, zero]

theorem run_flushRegisters (snapshot : StateSnapshot) (c : GenState) :
    (flushRegisters snapshot).run c
      = .ok ⟨(), storeItems snapshot (List.finRange RA.cacheSize), [], c⟩ :=
  run_flushSlots snapshot _ c

theorem run_flushCurrentRegisters (c : GenState) : flushCurrentRegisters.run c
    = .ok ⟨(), storeItems c.cache.takeStateSnapshot (List.finRange RA.cacheSize), [], c⟩ := by
  unfold flushCurrentRegisters
  rw [Emitter.run_bind_of_ok (run_getCache c), run_flushRegisters]
  rfl

theorem binds_storeItems (snapshot : StateSnapshot) (ids : List SlotId) :
    binds (storeItems snapshot ids) = [] := by
  induction ids with
  | nil => rfl
  | cons id rest ih =>
    have first : binds (storeItems snapshot [id]) = [] := by
      unfold storeItems
      simp only [List.flatMap_cons, List.flatMap_nil, List.append_nil]
      split <;> rfl
    have split : storeItems snapshot (id :: rest)
        = storeItems snapshot [id] ++ storeItems snapshot rest := by simp [storeItems]
    rw [split, binds_append, first, ih]
    rfl

/-- The guest after the slots of a snapshot were stored. -/
def flushed (snapshot : StateSnapshot) (regs : A64R → Word) : List SlotId → Guest → Guest
  | [], g => g
  | id :: rest, g => flushed snapshot regs rest (g.setRegister (snapshot id) (regs (RA.cache id)))

/-- Storing the slots of `snapshot` leaves the guest `k.2` in the table. -/
structure Restores (b : Block) (snapshot : StateSnapshot) (k : Ghost) (s : State) : Prop where
  ready : b.Ready k.1 s
  native : ∀ id, snapshot id ≠ Register.zero → s.foreign (RA.cache id) = false
  below : ∀ id, snapshot id ≠ Register.pc
  result : flushed snapshot s.regs (List.finRange RA.cacheSize) s.guest = k.2

section Flush

variable {b : Block} {k : Ghost} {s : State}

theorem storeItems_runs (snapshot : StateSnapshot) (ids : List SlotId)
    (native : ∀ id, snapshot id ≠ Register.zero → s.foreign (RA.cache id) = false)
    (below : ∀ id, snapshot id ≠ Register.pc) {env : Env}
    (anchored : Anchored b.setting b.size env s) :
    Continues (step env) (Sandboxed env) (storeItems snapshot ids) s
      (s.setGuest (flushed snapshot s.regs ids s.guest)) := by
  induction ids generalizing s with
  | nil => exact .nil s
  | cons id rest ih =>
    -- a slot the snapshot leaves out is not stored
    by_cases zero : snapshot id = Register.zero
    · have skip : storeItems snapshot (id :: rest) = storeItems snapshot rest := by
        simp [storeItems, zero]
      rw [skip, flushed, zero, Guest.setRegister_zero]
      exact ih native anchored
    · have first : storeItems snapshot (id :: rest) = .instr (.str .double (RA.cache id)
          RA.registerState (.imm (slotOffset (snapshot id)))) :: storeItems snapshot rest := by
        simp [storeItems, zero]
      obtain ⟨value, own⟩ := get_cache s id
      obtain ⟨safe, next⟩ := step_registerStore anchored (snapshot id) zero (below id)
        (own.trans (native id zero))
      rw [value] at next
      rw [first]
      refine .cons safe next ?_
      have served := anchored.serves.setRegister (snapshot id) (s.regs (RA.cache id))
      exact ih (s := s.setGuest (s.guest.setRegister (snapshot id) (s.regs (RA.cache id)))) native
        (anchored.setGuest served)

theorem memory_flushed (snapshot : StateSnapshot) (regs : A64R → Word) (ids : List SlotId)
    (g : Guest) : (flushed snapshot regs ids g).memory = g.memory := by
  induction ids generalizing g with
  | nil => rfl
  | cons id rest ih => rw [flushed, ih, Guest.memory_setRegister]

theorem serves_flushed {st : Setting} {size : Word} {env : Env} (snapshot : StateSnapshot)
    (regs : A64R → Word) (ids : List SlotId) {g : Guest} (serves : env.Serves st size g) :
    env.Serves st size (flushed snapshot regs ids g) := by
  induction ids generalizing g with
  | nil => exact serves
  | cons id rest ih => exact ih (serves.setRegister _ _)

/-- Storing a snapshot of guest data is a flush of the write-back cache. -/
theorem entries_flushed (snapshot : StateSnapshot) (s : State) (ids : List SlotId) (g : Guest)
    (native : ∀ id, snapshot id ≠ Register.zero → s.foreign (RA.cache id) = false) :
    entries (flushed snapshot s.regs ids g) =
      WriteBack.flush (fun id => if snapshot id = Register.zero then none else some (snapshot id))
        (cells s) ids (entries g) := by
  induction ids generalizing g with
  | nil => rfl
  | cons id rest ih =>
    rw [flushed, ih, WriteBack.flush]
    by_cases zero : snapshot id = Register.zero
    · rw [if_pos zero, zero, Guest.setRegister_zero]
      rfl
    · rw [if_neg zero, entries_setRegister _ _ _ zero, writeBack, cells, native id zero]

/-- What the cache's own snapshot restores. -/
theorem Mirrors.restores {c : RegisterCache} {stale : Register → Prop} (wf : c.WF)
    (mirrors : Mirrors b c stale k s) : Restores b c.takeStateSnapshot k s := by
  -- the snapshot names the registers of the dirty slots
  have dirty : ∀ id, c.takeStateSnapshot id ≠ Register.zero →
      (c.slots id).dirty = true ∧ c.directory.key id = some (c.takeStateSnapshot id) := by
    intro id occupied
    unfold takeStateSnapshot at occupied ⊢
    split at occupied
    next holds => exact ⟨holds, by simp [directory, holds, occupied]⟩
    next => exact absurd rfl occupied
  have native : ∀ id, c.takeStateSnapshot id ≠ Register.zero → s.foreign (RA.cache id) = false := by
    intro id occupied
    obtain ⟨holds, key⟩ := dirty id occupied
    exact congrArg Prod.snd (mirrors.registers.held id _ key (Or.inl holds))
  have snapshot : (fun id => if c.takeStateSnapshot id = Register.zero then none
      else some (c.takeStateSnapshot id)) = c.directory.snapshot := by
    funext id
    change _ = if (c.slots id).dirty = true then _ else _
    by_cases holds : (c.slots id).dirty = true
    · simp only [takeStateSnapshot, if_pos holds, directory]
    · simp only [takeStateSnapshot, if_neg holds, if_pos]
  refine ⟨mirrors.ready, native, fun id => ?_, entries_injective ?_ ?_⟩
  · unfold takeStateSnapshot
    split
    · exact wf.below id
    · exact fun h => by cases h
  · rw [memory_flushed, mirrors.memory]
  · rw [entries_flushed _ _ _ _ native, snapshot]
    exact mirrors.registers.flush fun id => List.mem_finRange id

/-- After a flush nothing remains to be stored. -/
theorem Restores.empty (ready : b.Ready k.1 s) (guest : s.guest = k.2) :
    Restores b (fun _ => Register.zero) k s := by
  refine ⟨ready, fun _ occupied => absurd rfl occupied, fun _ => by decide, ?_⟩
  have same : ∀ ids : List SlotId, flushed (fun _ => Register.zero) s.regs ids s.guest = s.guest := by
    intro ids
    induction ids with
    | nil => rfl
    | cons id rest ih => rw [flushed, Guest.setRegister_zero, ih]
  rw [same, guest]

/-- Registers outside the cache do not matter. -/
theorem Restores.disturb {snapshot : StateSnapshot} {s' : State} {ts : List A64R}
    (restores : Restores b snapshot k s) (disturbs : Disturbs ts s s')
    (free : ∀ t ∈ ts, isFree t = true) (outside : ∀ id, RA.cache id ∉ ts) :
    Restores b snapshot k s' := by
  -- the flush reads the cache's registers only, which were not disturbed
  have same : ∀ (ids : List SlotId) (g : Guest),
      flushed snapshot s'.regs ids g = flushed snapshot s.regs ids g := by
    intro ids
    induction ids with
    | nil => exact fun _ => rfl
    | cons id rest ih =>
      intro g
      rw [flushed, flushed, ih, (disturbs.2 _ (outside id)).1]
  refine ⟨restores.ready.disturb disturbs free, fun id occupied => ?_, restores.below, ?_⟩
  · rw [(disturbs.2 _ (outside id)).2]
    exact restores.native id occupied
  · rw [same, disturbs.1]
    exact restores.result

theorem Restores.serves {snapshot : StateSnapshot} (restores : Restores b snapshot k s) :
    k.1.Serves b.setting b.size k.2 := by
  have served := serves_flushed snapshot s.regs (List.finRange RA.cacheSize)
    restores.ready.anchored.serves
  rwa [restores.result] at served

/-- A flush leaves the guest of the abstract model in the table. -/
theorem Restores.runs {snapshot : StateSnapshot} (restores : Restores b snapshot k s) :
    Continues (step k.1) (Sandboxed k.1) (storeItems snapshot (List.finRange RA.cacheSize)) s
      (s.setGuest k.2) := by
  rw [← restores.result]
  exact storeItems_runs snapshot _ restores.native restores.below restores.ready.anchored

/-- The cache mirrors the guest it was flushed to. -/
theorem Mirrors.flushed {c : RegisterCache} {stale : Register → Prop} (wf : c.WF)
    (mirrors : Mirrors b c stale k s) : Mirrors b c stale k (s.setGuest k.2) :=
  ⟨mirrors.ready.setGuest (mirrors.restores wf).serves, rfl, mirrors.registers.written⟩

end Flush

end Riscv64Emulator.Jit.Aarch64
