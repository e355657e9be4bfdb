import Riscv64Emulator.Jit.Aarch64.Refinement
import Riscv64Emulator.Jit.Executor
import Riscv64Emulator.Lib.Calls

/-!
# The calls of the register cache

The generator works on the register cache through the methods of the class only. For any
sequence of instructions the tables agree with each other after every single call, every
`lock_registers` hands out one host register for each guest register, and none of the
checks of the class fails.
-/
namespace Riscv64Emulator.Jit.Aarch64

open LinearCode RegisterCache CodeGenerator

/-- A call of a method of `RegisterCache`, with its answer. -/
inductive CacheCall where
  | lockRegisters (registers : List RegisterToLock) (locked : List A64R)
  | unlockRegister (reg : A64R) (makeDirty : Bool)
  | takeStateSnapshot (snapshot : StateSnapshot)
  | flushRegisters (snapshot : StateSnapshot)
  | finishInstruction

/-- The generators of the calls. -/
inductive IsCall (p : Platform) : (α : Type) → Gen α → α → CacheCall → Prop where
  | lockRegisters (registers : List RegisterToLock) (locked : List A64R) :
      IsCall p _ (lockRegisters p registers) locked (.lockRegisters registers locked)
  | unlockRegister (reg : A64R) (makeDirty : Bool) :
      IsCall p _ (unlockRegister reg makeDirty) () (.unlockRegister reg makeDirty)
  | takeStateSnapshot (snapshot : StateSnapshot) :
      IsCall p _ (exitSnapshot true) snapshot (.takeStateSnapshot snapshot)
  | flushRegisters (snapshot : StateSnapshot) :
      IsCall p _ (flushRegisters snapshot) () (.flushRegisters snapshot)
  | finishInstruction : IsCall p _ finishInstruction () .finishInstruction

/-- What `lock_registers` returns when it leaves the cache `c`. -/
structure Answers (registers : List RegisterToLock) (locked : List A64R) (c : RegisterCache) :
    Prop where
  length : locked.length = registers.length
  zero : ∀ q ∈ registers.zip locked, q.1.reg = Register.zero → q.2 = A64R.xzr
  held : ∀ q ∈ registers.zip locked, q.1.reg ≠ Register.zero →
    ∃ id, q.2 = RA.cache id ∧ (c.slots id).reg = q.1.reg ∧ (c.slots id).locked = true
  distinct : ∀ q ∈ registers.zip locked, ∀ q' ∈ registers.zip locked,
    q.2 = q'.2 ↔ q.1.reg = q'.1.reg

/-- After the call the tables agree, and a lock has the registers it was asked for. -/
structure Consistent (call : Emitter.Call CacheCall RegisterCache) : Prop where
  tables : call.after.WF
  answer : ∀ registers locked, call.op = .lockRegisters registers locked →
    Answers registers locked call.after

/-- The run of a generator makes these calls of the cache. -/
abbrev MakesCalls (p : Platform) {α : Type} (x : Gen α) (c : GenState)
    (calls : List (Emitter.Call CacheCall RegisterCache)) (o : Emitted Instr PendingExit GenState α) : Prop :=
  Emitter.Makes GenState.cache (IsCall p) x c calls o

abbrev Manages (p : Platform) {α : Type} (pre : RegisterCache → Prop) (x : Gen α)
    (post : α → RegisterCache → Prop) : Prop :=
  Emitter.Manages GenState.cache (IsCall p) Consistent pre x post

/-- The calls of `x` leave the cache as it is. -/
def Steady (p : Platform) {α : Type} (x : Gen α) : Prop :=
  ∀ c : RegisterCache, c.WF → Manages p (· = c) x fun _ c' => c' = c

namespace Steady

variable {p : Platform} {α β : Type} {x y : Gen α} {f : α → Gen β}

theorem quiet (quiet : ∀ c o, x.run c = .ok o → o.state.cache = c.cache) : Steady p x :=
  fun _ _ => .silent quiet fun _ _ holds _ => holds

theorem pure (a : α) : Steady p (Pure.pure a : Gen α) := fun _ _ => .pure fun _ holds => holds

theorem bind (first : Steady p x) (second : ∀ a, Steady p (f a)) : Steady p (x >>= f) :=
  fun c wf => (first c wf).bind fun a => second a c wf

theorem ite {q : Prop} [Decidable q] (yes : q → Steady p x) (no : ¬q → Steady p y) :
    Steady p (if q then x else y) := fun c wf =>
  .ite (fun holds => yes holds c wf) fun fails => no fails c wf

theorem ins (i : Instr) : Steady p (Aarch64.ins i) :=
  .ite (fun _ => .quiet fun _ _ ran => by cases ran; rfl) fun _ _ _ => .fail

theorem allocateLabel : Steady p Aarch64.allocateLabel := .quiet fun _ _ ran => by cases ran; rfl

theorem insertLabel (l : Nat) : Steady p (Aarch64.insertLabel l) :=
  .quiet fun _ _ ran => by cases ran; rfl

theorem defer (exit : PendingExit) : Steady p (Emitter.defer exit : Gen Unit) :=
  .quiet fun _ _ ran => by cases ran; rfl

theorem verify (condition : Bool) (message : String) : Steady p (Aarch64.verify condition message) :=
  .ite (fun _ => .pure _) fun _ _ _ => .fail

theorem liftExcept (a : Except Abort α) : Steady p (Aarch64.liftExcept a) := by
  cases a with
  | ok a => exact .pure a
  | error e => exact fun _ _ => .fail

end Steady

/-! ### Calls that leave the cache as it is -/

section Steady

variable (g : CodeGenerator)

/-- `flush_current_registers` takes a snapshot and flushes it. -/
theorem flushCurrentRegisters_eq : flushCurrentRegisters = exitSnapshot true >>= flushRegisters := by
  have runs : ∀ c, flushCurrentRegisters.run c = (exitSnapshot true >>= flushRegisters).run c := by
    intro c
    have taken : (exitSnapshot true).run c = .ok ⟨c.cache.takeStateSnapshot, [], [], c⟩ := rfl
    rw [run_flushCurrentRegisters, Emitter.run_bind_of_ok taken, run_flushRegisters]
    rfl
  exact congrArg Emitter.mk (funext runs)

theorem steady_exitSnapshot {p : Platform} (flush : Bool) : Steady p (exitSnapshot flush) := by
  cases flush with
  | false => exact .quiet fun _ _ ran => by cases ran; rfl
  | true =>
    refine fun c wf => .call (fun a => .takeStateSnapshot a) fun c' o holds ran => ?_
    have taken : (exitSnapshot true).run c' = .ok ⟨c'.cache.takeStateSnapshot, [], [], c'⟩ := rfl
    rw [taken] at ran
    cases ran
    subst holds
    exact ⟨⟨wf, fun _ _ h => by cases h⟩, rfl⟩

theorem steady_flushRegisters {p : Platform} (snapshot : StateSnapshot) :
    Steady p (flushRegisters snapshot) := by
  refine fun c wf => .call (fun _ => .flushRegisters snapshot) fun c' o holds ran => ?_
  rw [run_flushRegisters] at ran
  cases ran
  subst holds
  exact ⟨⟨wf, fun _ _ h => by cases h⟩, rfl⟩

theorem steady_flushCurrentRegisters {p : Platform} : Steady p flushCurrentRegisters := by
  rw [flushCurrentRegisters_eq]
  exact .bind (steady_exitSnapshot true) fun _ => steady_flushRegisters _

theorem steady_loadImmediate (t : A64R) (v : Word) : Steady g.platform (g.loadImmediate t v) := .ins _

theorem steady_loadImmediateOrZero (t : A64R) (v : Word) :
    Steady g.platform (g.loadImmediateOrZero t v) :=
  .ite (fun _ => .pure _) fun _ => .bind (steady_loadImmediate g t v) fun _ => .pure _

theorem steady_addOffsetToRegister (value scratch : A64R) (offset : Word) :
    Steady g.platform (g.addOffsetToRegister value scratch offset) :=
  .ite (fun _ => .bind (steady_loadImmediate g _ _) fun _ => .pure _) fun _ =>
    .ite (fun _ => .pure _) fun _ =>
      .ite (fun _ => .bind (.ins _) fun _ => .pure _) fun _ =>
        .bind (steady_loadImmediate g _ _) fun _ => .bind (.ins _) fun _ => .pure _

theorem steady_generateExit (reason : ArchExitReason) (pc : Word) :
    Steady g.platform (g.generateExit reason pc) :=
  .bind steady_flushCurrentRegisters fun _ => .bind (steady_loadImmediate g _ _) fun _ =>
    .bind (steady_loadImmediate g _ _) fun _ => .ins _

theorem steady_generateExitRegister (reason : ArchExitReason) (pc : A64R) :
    Steady g.platform (g.generateExitRegister reason pc) :=
  .bind steady_flushCurrentRegisters fun _ => .bind (.ins _) fun _ =>
    .bind (steady_loadImmediate g _ _) fun _ => .ins _

theorem steady_addPendingExit {p : Platform} (l : Nat) (reason : ArchExitReason) (flush : Bool)
    (pc : Word) : Steady p (addPendingExit l reason flush pc) :=
  .bind (steady_exitSnapshot flush) fun _ => .defer _

theorem steady_addPendingExitRegister {p : Platform} (l : Nat) (reason : ArchExitReason) (flush : Bool)
    (pc : A64R) : Steady p (addPendingExitRegister l reason flush pc) :=
  .bind (steady_exitSnapshot flush) fun _ => .defer _

theorem steady_loadMemoryPermissionMask {p : Platform} (t : A64R) (flag : MemoryFlags) (k : Nat) :
    Steady p (loadMemoryPermissionMask t flag k) := by
  unfold loadMemoryPermissionMask
  split
  all_goals first
    | exact .bind (.ins _) fun _ => .pure _
    | exact fun _ _ => .fail

theorem steady_generateValidateMemoryAccess (address scratch1 scratch2 : A64R) (k : Nat)
    (write : Bool) :
    Steady g.platform (g.generateValidateMemoryAccess address scratch1 scratch2 k write) := by
  -- none of the instructions touches the cache, and the pending exit only copies it
  have permissions : ∀ l, Steady g.platform (do
      if !g.flags.skipPermissionChecks then
        ins (← liftExcept (permissionLoad scratch1 address k))
        let flag := if write then MemoryFlags.write else MemoryFlags.read
        let truncate ← loadMemoryPermissionMask scratch2 flag k
        let width : Width := if truncate then .w32 else .w64
        ins (.alu .and width scratch1 scratch1 scratch2)
        ins (.cmp width scratch1 scratch2)
        ins (.b .notEqual l)
      addPendingExit l (if write then .memoryWriteFault else .memoryReadFault) true g.currentPc) :=
    fun _ => .ite (fun _ => .bind (.liftExcept _) fun _ => .bind (.ins _) fun _ =>
      .bind (steady_loadMemoryPermissionMask _ _ _) fun _ => .bind (.ins _) fun _ =>
        .bind (.ins _) fun _ => .bind (.ins _) fun _ => steady_addPendingExit _ _ _ _)
      fun _ => steady_addPendingExit _ _ _ _
  have bound : ∀ l, Steady g.platform _ := fun l =>
    .bind (.ins (.cmp .w64 address RA.memorySize)) fun _ =>
      .bind (.ins (.b .unsignedGreaterEqual l)) fun _ => permissions l
  exact .bind .allocateLabel fun l => .ite
    (fun _ => .bind (.ins _) fun _ => .bind (.ins _) fun _ => bound l) fun _ => bound l

theorem steady_generateValidatedBranch (t : A64R) : Steady g.platform (g.generateValidatedBranch t) := by
  have branch : Steady g.platform (do
      let noBlockLabel ← allocateLabel
      ins (.cbz t noBlockLabel)
      ins (.alu .add .w64 t RA.codeBase t)
      ins (.br t)
      pure noBlockLabel) :=
    .bind .allocateLabel fun _ => .bind (.ins _) fun _ => .bind (.ins _) fun _ =>
      .bind (.ins _) fun _ => .pure _
  exact .ite (fun _ => .bind (.ins _) fun _ => branch)
    fun _ => .bind (.ins _) fun _ => .bind (.ins _) fun _ => branch

theorem steady_generateStaticBranch (target : Word) (scratch : A64R) :
    Steady g.platform (g.generateStaticBranch target scratch) :=
  .ite (fun _ => steady_generateExit g _ _) fun _ => .ite (fun _ => steady_generateExit g _ _) fun _ =>
    .ite (fun _ => steady_generateExit g _ _) fun _ => .bind (steady_loadImmediate g _ _) fun _ =>
      .bind steady_flushCurrentRegisters fun _ => .bind (steady_generateValidatedBranch g _) fun _ =>
        steady_addPendingExit _ _ _ _

theorem steady_generateDynamicBranch (target scratch : A64R) :
    Steady g.platform (g.generateDynamicBranch target scratch) := by
  have exits : ∀ outOfBounds unaligned, Steady g.platform (do
      addPendingExitRegister outOfBounds .outOfBoundsPc false target
      addPendingExitRegister unaligned .unalignedPc false target) :=
    fun _ _ => .bind (steady_addPendingExitRegister _ _ _ _) fun _ =>
      steady_addPendingExitRegister _ _ _ _
  refine .bind (.verify _ _) fun _ => .bind .allocateLabel fun _ => .bind .allocateLabel fun _ =>
    .bind (.ins _) fun _ => .bind steady_flushCurrentRegisters fun _ => .bind (.ins _) fun _ =>
      .bind (.ins _) fun _ => .bind (.ins _) fun _ => .bind (.ins _) fun _ => .ite (fun _ => ?_) fun _ => ?_
  · exact .bind (steady_generateExitRegister g _ _) fun _ => exits _ _
  · exact .bind (steady_generateValidatedBranch g _) fun _ =>
      .bind (steady_addPendingExitRegister _ _ _ _) fun _ => exits _ _

end Steady

/-! ### Calls that change the cache -/

section Changes

variable {p : Platform} {c : RegisterCache}

/-- A lock answers with the homes of the registers. -/
theorem answers_of_locks {c' : RegisterCache} {registers : List RegisterToLock}
    (locks : Locks c c' registers) :
    Answers registers (registers.map fun r => c'.home r.reg) c' := by
  have answer : ∀ q ∈ registers.zip (registers.map fun r => c'.home r.reg),
      q.1 ∈ registers ∧ q.2 = c'.home q.1.reg := by
    intro q member
    rw [← List.map_prod_left_eq_zip] at member
    obtain ⟨r, asked, rfl⟩ := List.mem_map.mp member
    exact ⟨asked, rfl⟩
  have placed : ∀ q ∈ registers.zip (registers.map fun r => c'.home r.reg),
      q.1.reg ≠ Register.zero → ∃ id, c'.registerToSlot q.1.reg = some id ∧
        (c'.slots id).locked = true := fun q member nonzero =>
    locks.placed _ (mem_requested.mpr ⟨List.mem_map_of_mem (answer q member).1, nonzero⟩)
  have zero : ∀ q ∈ registers.zip (registers.map fun r => c'.home r.reg),
      q.1.reg = Register.zero → q.2 = A64R.xzr := fun q member zero => by
    rw [(answer q member).2, zero, locks.wf.home_zero]
  have held : ∀ q ∈ registers.zip (registers.map fun r => c'.home r.reg),
      q.1.reg ≠ Register.zero → ∃ id, q.2 = RA.cache id ∧ (c'.slots id).reg = q.1.reg ∧
        (c'.slots id).locked = true := fun q member nonzero => by
    obtain ⟨id, place, locked⟩ := placed q member nonzero
    exact ⟨id, (answer q member).2.trans (home_placed place), ((locks.wf.placed _ id).mp place).2,
      locked⟩
  refine ⟨List.length_map _, zero, held, fun q member q' member' => ⟨fun same => ?_, fun same => ?_⟩⟩
  -- equal answers name one slot, which holds one register; register zero has no slot
  · by_cases first : q.1.reg = Register.zero <;> by_cases second : q'.1.reg = Register.zero
    · exact first.trans second.symm
    · obtain ⟨id, here, -⟩ := held q' member' second
      rw [zero q member first, here] at same
      exact absurd same.symm (cache_ne_xzr id)
    · obtain ⟨id, here, -⟩ := held q member first
      rw [zero q' member' second, here] at same
      exact absurd same (cache_ne_xzr id)
    · obtain ⟨id, here, reg, -⟩ := held q member first
      obtain ⟨id', here', reg', -⟩ := held q' member' second
      have slot := cache_injective (here.symm.trans (same.trans here'))
      rw [← reg, ← reg', slot]
  · rw [(answer q member).2, (answer q' member').2, same]

theorem manages_lockRegisters (wf : c.WF) {registers : List RegisterToLock} (room : c.Room registers)
    (below : ∀ r ∈ registers, r.reg ≠ Register.pc) :
    Manages p (· = c) (lockRegisters p registers) fun locked c' =>
      locked = registers.map (fun r => (c.locking p registers).home r.reg) ∧
        c' = c.locking p registers := by
  have locks := wf.locking p room below
  refine .call (fun locked => .lockRegisters registers locked) fun start o holds ran => ?_
  subst holds
  -- which code goes with it does not matter, so any block will do
  let b : Block := ⟨p, ⟨{}, 0, false, fun _ => 0⟩, 0, 0⟩
  obtain ⟨code, emitted, -⟩ := does_lockRegisters p b wf room below
  rw [emitted] at ran
  cases ran
  refine ⟨⟨locks.wf, fun _ _ op => ?_⟩, rfl, rfl⟩
  cases op
  exact answers_of_locks locks

theorem manages_unlockRegister (wf : c.WF) (r : Register) (makeDirty : Bool) :
    Manages p (· = c) (unlockRegister (c.home r) makeDirty) fun _ c' =>
      c' = c.unlocked (c.home r) makeDirty := by
  refine .call (fun _ => .unlockRegister (c.home r) makeDirty) fun start o holds ran => ?_
  subst holds
  rw [run_unlockRegister r makeDirty] at ran
  cases ran
  exact ⟨⟨(wf.unlocked r makeDirty).wf, fun _ _ op => by cases op⟩, rfl⟩

theorem manages_unlockRegisters (wf : c.WF) (rs : List Register) :
    Manages p (· = c) (unlockRegisters (rs.map c.home)) fun _ c' =>
      c' = c.unlockedAll (rs.map c.home) := by
  induction rs generalizing c with
  | nil => exact .pure fun _ holds => holds
  | cons r rest ih =>
    have first := wf.unlocked r false
    have later := ih first.wf
    rw [first.home] at later
    exact .bind (manages_unlockRegister wf r false) fun _ => later

theorem manages_finishInstruction : Manages p Idle finishInstruction fun _ c' => c'.Idle := by
  refine .call (fun _ => .finishInstruction) fun start o idle ran => ?_
  rw [run_finishInstruction idle] at ran
  cases ran
  exact ⟨⟨idle.tick.wf, fun _ _ op => by cases op⟩, idle.tick⟩

end Changes

/-! ### Instructions -/

section Instructions

variable (g : CodeGenerator) {i : Instruction}

/-- Code behind a lock. -/
theorem manages_locked {α : Type} {p : Platform} {c : RegisterCache} (wf : c.WF)
    {registers : List RegisterToLock} (room : c.Room registers)
    (below : ∀ r ∈ registers, r.reg ≠ Register.pc) {rest : List A64R → Gen α}
    {post : α → RegisterCache → Prop}
    (body : Manages p (· = c.locking p registers)
      (rest (registers.map fun r => (c.locking p registers).home r.reg)) post) :
    Manages p (· = c) (lockRegisters p registers >>= rest) post := by
  refine .bind (manages_lockRegisters wf room below) fun locked => .assume ?_
  rintro rfl
  exact body

/-- Registers that are only read are locked around code without calls that change the cache. -/
theorem manages_reads {α : Type} (reads : List Register) (below : ∀ r ∈ reads, r ≠ Register.pc)
    (few : reads.length ≤ 2) {rest : List A64R → Gen α}
    (body : ∀ c : RegisterCache, c.WF → Manages g.platform (· = c) (rest (reads.map c.home)) fun _ c' =>
      c' = c.unlockedAll (reads.map c.home)) :
    Manages g.platform Idle (lockRegisters g.platform (readsOf reads) >>= rest) fun _ c' => c'.Idle := by
  refine .pointwise fun c idle => ?_
  have locks := idle.locks g.platform below few
  -- two operands always fit an idle cache
  have room : c.Room (readsOf reads) := by
    refine idle.room ?_
    rw [readsOf, List.length_map]
    exact Nat.le_trans few (by decide)
  have belows : ∀ r ∈ readsOf reads, r.reg ≠ Register.pc := by
    intro r member
    obtain ⟨q, read, rfl⟩ := List.mem_map.mp member
    exact below q read
  have homes : (readsOf reads).map (fun r => (c.locking g.platform (readsOf reads)).home r.reg)
      = reads.map (c.locking g.platform (readsOf reads)).home := by
    simp [readsOf, Function.comp_def]
  refine manages_locked idle.wf room belows ?_
  rw [homes]
  refine (body _ locks.wf).conseq (fun _ h => h) fun _ c' released => ?_
  rw [released]
  exact (locks.released idle).1

/-- An instruction that writes `rd`. -/
theorem manages_withRegisters (reads : List Register) {rd : Register} (nonzero : rd ≠ Register.zero)
    (below : ∀ r ∈ reads ++ [rd], r ≠ Register.pc) (few : reads.length ≤ 2)
    {write : List A64R → A64R → Gen Unit}
    (steady : ∀ operands dest, Steady g.platform (write operands dest)) :
    Manages g.platform Idle (g.withRegisters reads rd write) fun _ c' => c'.Idle := by
  refine .pointwise fun c idle => ?_
  -- two operands and a destination always fit an idle cache
  have room : c.Room (operandsOf reads rd) := by
    refine idle.room ?_
    simp only [operandsOf, List.length_append, List.length_map, List.length_singleton]
    exact Nat.le_trans (Nat.add_le_add_right few 1) (by decide)
  have belows : ∀ r ∈ operandsOf reads rd, r.reg ≠ Register.pc := by
    intro r member
    refine below r.reg ?_
    rw [← map_reg_operandsOf]
    exact List.mem_map_of_mem member
  have locks := idle.wf.locking g.platform room belows
  obtain ⟨id, place, -⟩ := locks.placed rd (mem_requested_operandsOf.mpr ⟨Or.inr rfl, nonzero⟩)
  have homes : (operandsOf reads rd).map
      (fun r => (c.locking g.platform (operandsOf reads rd)).home r.reg)
      = reads.map (c.locking g.platform (operandsOf reads rd)).home
        ++ [(c.locking g.platform (operandsOf reads rd)).home rd] := by
    simp [operandsOf, writeOnly, Function.comp_def]
  refine manages_locked idle.wf room belows ?_
  rw [homes]
  generalize c.locking g.platform (operandsOf reads rd) = c₁ at locks place
  simp only [List.dropLast_concat, List.getLastD_concat]
  have unlock := manages_unlockRegister (p := g.platform) (locks.wf.unlockedAll reads).1 rd true
  rw [home_unlockedAll locks.wf] at unlock
  -- the operands are released before the destination, which becomes dirty
  refine .bind (steady _ _ c₁ locks.wf) fun _ =>
    .bind (manages_unlockRegisters locks.wf reads) fun _ => unlock.conseq (fun _ h => h) fun _ c' h => ?_
  rw [h]
  exact (locks.retired idle place).1

/-- The one instruction that locks a register while another is locked. -/
theorem manages_jalr (kind : i.type = .jalr) :
    Manages g.platform Idle (g.generateInstruction i) fun _ c' => c'.Idle := by
  have jump : ∀ (c : RegisterCache), c.WF → ∀ r t, Manages g.platform (· = c) (do
      g.generateDynamicBranch t RA.b
      unlockRegister (c.home r) false
      pure false) fun _ c' => c' = c.unlocked (c.home r) false := fun c wf r t =>
    .bind (steady_generateDynamicBranch g _ _ c wf) fun _ =>
      .bind (manages_unlockRegister wf r false) fun _ => .pure fun _ holds => holds
  have below : ∀ r ∈ [i.rs1], r ≠ Register.pc := by simpa using i.rs1_ne_pc
  refine .pointwise fun c idle => ?_
  have locks₁ := idle.locks g.platform below (Nat.le_succ 1)
  have belows : ∀ r ∈ readsOf [i.rs1], r.reg ≠ Register.pc := by simpa [readsOf] using i.rs1_ne_pc
  have room₁ : c.Room (readsOf [i.rs1]) := idle.room (show 1 ≤ RA.cacheSize by decide)
  by_cases zero : i.rd = Register.zero
  · simp only [generateInstruction, kind, zero, ne_eq, not_true_eq_false, if_false,
      Emitter.pure_bind]
    refine manages_locked idle.wf room₁ belows ?_
    refine .bind (steady_addOffsetToRegister g _ _ _ _ locks₁.wf) fun t => ?_
    exact (jump _ locks₁.wf i.rs1 t).conseq (fun _ h => h) fun _ c' h => h ▸ (locks₁.released idle).1
  · have room : (c.locking g.platform (readsOf [i.rs1])).Room [writeOnly i.rd] := by
      have held := locks₁.card_lockedSlots idle
      exact Nat.le_trans (Nat.add_le_add_right held 1) (show 1 + 1 ≤ RA.cacheSize by decide)
    have belows' : ∀ r ∈ [writeOnly i.rd], r.reg ≠ Register.pc := by
      simpa [writeOnly] using i.rd_ne_pc
    simp only [generateInstruction, kind, zero, ne_eq, not_false_eq_true, if_true, Emitter.pure_bind]
    refine manages_locked idle.wf room₁ belows ?_
    refine .bind (steady_addOffsetToRegister g _ _ _ _ locks₁.wf) fun t => ?_
    have locks₂ := locks₁.wf.locking g.platform room belows'
    have home := home_kept locks₁ locks₂
    refine manages_locked locks₁.wf room belows' ?_
    generalize (c.locking g.platform (readsOf [i.rs1])).locking g.platform [writeOnly i.rd] = c₂
      at locks₂ home
    have unlocks := locks₂.wf.unlocked i.rd true
    -- behind the lock of the link register, for either target
    have tail : ∀ t, Manages g.platform (· = c₂) (do
        g.loadImmediate (c₂.home i.rd) (g.currentPc + 4)
        unlockRegister (c₂.home i.rd) true
        g.generateDynamicBranch t RA.b
        unlockRegister (c₂.home i.rs1) false
        pure false) fun _ c' => c'.Idle := fun t => by
      refine .bind (steady_loadImmediate g _ _ c₂ locks₂.wf) fun _ =>
        .bind (manages_unlockRegister locks₂.wf i.rd true) fun _ => ?_
      have last := jump _ unlocks.wf i.rs1 t
      rw [unlocks.home] at last
      refine last.conseq (fun _ h => h) fun _ c' h => ?_
      rw [h, home]
      exact idle_linked idle locks₁ locks₂ home
    rw [home] at tail
    exact .ite (fun _ => .bind (Steady.ins _ c₂ locks₂.wf) fun _ => tail RA.a) fun _ => tail t

theorem steady_tryImmediate (i : Instruction) (a dest : A64R) :
    Steady g.platform (g.tryImmediate i a dest) := by
  have finish : ∀ succeeded : Bool, Steady g.platform (do
      if succeeded ∧ i.type = .addiw then ins (.sxtw dest dest)
      pure succeeded) := fun _ =>
    .ite (fun _ => .bind (.ins _) fun _ => .pure _) fun _ => .pure _
  refine .bind (.liftExcept _) fun _ => .ite (fun _ => ?_) fun _ => ?_
  · exact .ite (fun _ => .bind (.ins _) fun _ => .bind (.pure _) finish) fun _ =>
      .ite (fun _ => .bind (steady_loadImmediate g _ _) fun _ => .bind (.pure _) finish) fun _ =>
        .ite (fun _ => .bind (.ins _) fun _ => .bind (.pure _) finish) fun _ => .bind (.pure _) finish
  · exact .ite (fun _ => .bind (.ins _) fun _ => .pure _) fun _ => .pure _

theorem steady_extendResult {p : Platform} (width : Width) (dest : A64R) :
    Steady p (extendResult width dest) := by
  cases width with
  | w32 => exact .ins _
  | w64 => exact .pure _

theorem steady_mulDivCode {p : Platform} (dest a b : A64R) (type : InstructionType) :
    Steady p (mulDivCode dest a b type) := by
  unfold mulDivCode
  split
  all_goals first
    | exact .ins _
    | exact .bind (.ins _) fun _ => steady_extendResult _ _
    | exact .bind (.ins _) fun _ => .bind (.ins _) fun _ => steady_extendResult _ _
    | exact fun _ _ => .fail

theorem manages_withDestination (nonzero : i.rd ≠ Register.zero) {write : A64R → Gen Unit}
    (steady : ∀ dest, Steady g.platform (write dest)) :
    Manages g.platform Idle (g.withDestination i.rd write) fun _ c' => c'.Idle :=
  manages_withRegisters g [] nonzero (by simpa using i.rd_ne_pc) (Nat.zero_le 2) fun _ dest => steady dest

theorem manages_withOperand (nonzero : i.rd ≠ Register.zero) {write : A64R → A64R → Gen Unit}
    (steady : ∀ a dest, Steady g.platform (write a dest)) :
    Manages g.platform Idle (g.withOperand i.rs1 i.rd write) fun _ c' => c'.Idle := by
  refine manages_withRegisters g [i.rs1] nonzero (by simpa using ⟨i.rs1_ne_pc, i.rd_ne_pc⟩) (Nat.le_succ 1)
    fun operands dest => ?_
  split
  · exact steady _ _
  · exact fun _ _ => .fail

theorem manages_withOperands (nonzero : i.rd ≠ Register.zero) {write : A64R → A64R → A64R → Gen Unit}
    (steady : ∀ a b dest, Steady g.platform (write a b dest)) :
    Manages g.platform Idle (g.withOperands i.rs1 i.rs2 i.rd write) fun _ c' => c'.Idle := by
  refine manages_withRegisters g [i.rs1, i.rs2] nonzero
    (by simpa using ⟨i.rs1_ne_pc, i.rs2_ne_pc, i.rd_ne_pc⟩) (Nat.le_refl 2) fun operands dest => ?_
  split
  · exact steady _ _ _
  · exact fun _ _ => .fail

theorem manages_generateLoad (nonzero : i.rd ≠ Register.zero) :
    Manages g.platform Idle (g.generateLoad i) fun _ c' => c'.Idle :=
  manages_withOperand g nonzero fun _ _ => .bind (steady_addOffsetToRegister g _ _ _) fun _ =>
    .bind (.liftExcept _) fun _ => .bind (steady_generateValidateMemoryAccess g _ _ _ _ _) fun _ =>
      .bind (.liftExcept _) fun _ => .ins _

theorem manages_generateStore : Manages g.platform Idle (g.generateStore i) fun _ c' => c'.Idle := by
  refine manages_reads g [i.rs1, i.rs2] (by simpa using ⟨i.rs1_ne_pc, i.rs2_ne_pc⟩)
    (Nat.le_refl 2) fun c wf => ?_
  exact .bind (steady_addOffsetToRegister g _ _ _ c wf) fun _ => .bind (Steady.liftExcept _ c wf) fun _ =>
    .bind (steady_generateValidateMemoryAccess g _ _ _ _ _ c wf) fun _ =>
      .bind (Steady.liftExcept _ c wf) fun _ => .bind (Steady.ins _ c wf) fun _ =>
        manages_unlockRegisters wf [i.rs1, i.rs2]

theorem manages_generateImmediate (nonzero : i.rd ≠ Register.zero) :
    Manages g.platform Idle (g.generateImmediate i) fun _ c' => c'.Idle :=
  manages_withOperand g nonzero fun _ _ => .bind (steady_tryImmediate g _ _ _) fun _ => .ite
    (fun _ => .bind (steady_loadImmediateOrZero g _ _) fun _ => .bind (.liftExcept _) fun _ =>
      .bind (.ins _) fun _ => .ite (fun _ => .ins _) fun _ => .pure _)
    fun _ => .pure _

theorem manages_generateShiftImmediate (nonzero : i.rd ≠ Register.zero) :
    Manages g.platform Idle (g.generateShiftImmediate i) fun _ c' => c'.Idle :=
  manages_withOperand g nonzero fun _ _ => .bind (.liftExcept _) fun _ => .bind (.ins _) fun _ =>
    steady_extendResult _ _

theorem manages_generateCompare (nonzero : i.rd ≠ Register.zero) :
    Manages g.platform Idle (g.generateCompare i) fun _ c' => c'.Idle :=
  manages_withOperands g nonzero fun _ _ _ => .bind (.ins _) fun _ => .ins _

theorem manages_generateCompareImmediate (nonzero : i.rd ≠ Register.zero) :
    Manages g.platform Idle (g.generateCompareImmediate i) fun _ c' => c'.Idle :=
  .ite (fun _ => manages_withDestination g nonzero fun _ => steady_loadImmediate g _ _) fun _ =>
    manages_withOperand g nonzero fun _ _ => .ite (fun _ => .bind (.ins _) fun _ => .ins _) fun _ =>
      .bind (steady_loadImmediateOrZero g _ _) fun _ => .bind (.ins _) fun _ => .ins _

theorem manages_generateRegister (nonzero : i.rd ≠ Register.zero) :
    Manages g.platform Idle (g.generateRegister i) fun _ c' => c'.Idle :=
  manages_withOperands g nonzero fun _ _ _ => .bind (.liftExcept _) fun _ => .bind (.ins _) fun _ =>
    steady_extendResult _ _

theorem manages_branch (kind : isBranch i.type = true) :
    Manages g.platform Idle (g.generateInstruction i) fun _ c' => c'.Idle := by
  obtain ⟨condition, chosen, -⟩ := holds_skipCondition kind
  rw [generateInstruction_branch g kind chosen]
  refine manages_reads g [i.rs1, i.rs2] (by simpa using ⟨i.rs1_ne_pc, i.rs2_ne_pc⟩)
    (Nat.le_refl 2) fun c wf => ?_
  exact .bind (Steady.allocateLabel c wf) fun _ => .bind (Steady.ins _ c wf) fun _ =>
    .bind (Steady.ins _ c wf) fun _ => .bind (steady_generateStaticBranch g _ _ c wf) fun _ =>
      .bind (Steady.insertLabel _ c wf) fun _ =>
        .bind (manages_unlockRegisters wf [i.rs1, i.rs2]) fun _ => .pure fun _ holds => holds

theorem Steady.idle {p : Platform} {α : Type} {x : Gen α} (steady : Steady p x) :
    Manages p Idle x fun _ c' => c'.Idle :=
  .pointwise fun c idle => (steady c idle.wf).conseq (fun _ h => h) fun _ _ h => h ▸ idle

theorem manages_computation (kind : isComputation i.type = true) :
    Manages g.platform Idle (g.generateInstruction i) fun _ c' => c'.Idle := by
  have unlessZero : ∀ {x : Gen Unit}, (i.rd ≠ Register.zero →
      Manages g.platform Idle x fun _ c' => c'.Idle) → Manages g.platform Idle (do
        if i.rd ≠ Register.zero then x
        pure true) fun _ c' => c'.Idle := fun manages =>
    .ite (fun nonzero => .bind (manages nonzero) fun _ => .pure fun _ idle => idle)
      fun _ => .pure fun _ idle => idle
  have constant : ∀ v, i.rd ≠ Register.zero → Manages g.platform Idle
      (g.withDestination i.rd fun dest => g.loadImmediate dest v) fun _ c' => c'.Idle :=
    fun v nonzero => manages_withDestination g nonzero fun dest => steady_loadImmediate g dest v
  -- the source tests the destination of a product or a division inside the case
  have product : Manages g.platform Idle
      (if i.rd ≠ Register.zero then do
        g.withOperands i.rs1 i.rs2 i.rd fun a b dest => mulDivCode dest a b i.type
        pure true
      else do
        g.generateExit .unsupportedInstruction g.currentPc
        pure false) fun _ c' => c'.Idle :=
    .ite (fun nonzero => .bind
        (manages_withOperands g nonzero fun _ _ _ => steady_mulDivCode _ _ _ _) fun _ =>
          .pure fun _ idle => idle)
      fun _ => .bind (steady_generateExit g _ _).idle fun _ => .pure fun _ idle => idle
  cases type : i.type <;> try exact absurd (type ▸ kind) (by decide)
  all_goals simp only [generateInstruction, type]
  case lui | auipc => exact unlessZero (constant _)
  case addi | xori | ori | andi | addiw => exact unlessZero (manages_generateImmediate g)
  case slli | srli | srai | slliw | srliw | sraiw =>
    exact unlessZero (manages_generateShiftImmediate g)
  case slt | sltu => exact unlessZero (manages_generateCompare g)
  case slti | sltiu => exact unlessZero (manages_generateCompareImmediate g)
  case add | sub | xor | or | and | sll | srl | sra | addw | subw | sllw | srlw | sraw =>
    exact unlessZero (manages_generateRegister g)
  case mul | mulw | div | divw | divu | divuw | rem | remw | remu | remuw =>
    rw [type] at product
    exact product

/-- Every instruction leaves an idle cache. -/
theorem manages_generateInstruction (i : Instruction) :
    Manages g.platform Idle (g.generateInstruction i) fun _ c' => c'.Idle := by
  rcases instruction_family i.type with kind | kind | kind | ⟨reason, kind⟩ | kind | kind | kind | kind
  · rw [generateInstruction_load g kind]
    exact .ite (fun nonzero => .bind (manages_generateLoad g nonzero) fun _ => .pure fun _ idle => idle)
      fun _ => .pure fun _ idle => idle
  · rw [generateInstruction_store g kind]
    exact .bind (manages_generateStore g) fun _ => .pure fun _ idle => idle
  · exact manages_branch g kind
  · rw [generateInstruction_exit g kind]
    exact .bind (steady_generateExit g _ _).idle fun _ => .pure fun _ idle => idle
  -- what leaves the block uses the cache as it stands
  · have branch : Manages g.platform Idle (do
        g.generateStaticBranch (g.currentPc + i.imm) RA.a
        pure false) fun _ c' => c'.Idle :=
      .bind (steady_generateStaticBranch g _ _).idle fun _ => .pure fun _ idle => idle
    rw [generateInstruction_jal g kind]
    exact .ite (fun nonzero => .bind
        (manages_withDestination g nonzero fun _ => steady_loadImmediate g _ _) fun _ => branch)
      fun _ => branch
  · exact manages_jalr g kind
  · rw [generateInstruction_fence g kind]
    exact .pure fun _ idle => idle
  · exact manages_computation g kind

end Instructions

/-! ### Sequences of instructions -/

namespace CodeGenerator

/-- The generator fed with instructions, at consecutive pcs. -/
def generateInstructions (g : CodeGenerator) : List Instruction → Gen Unit
  | [] => pure ()
  | i :: rest => do
    let _ ← g.generateInstruction i
    finishInstruction
    let g' := { g with currentPc := g.currentPc + 4 }
    g'.generateInstructions rest

end CodeGenerator

theorem manages_generateInstructions (g : CodeGenerator) (instructions : List Instruction) :
    Manages g.platform Idle (g.generateInstructions instructions) fun _ c' => c'.Idle := by
  induction instructions generalizing g with
  | nil => exact .pure fun _ idle => idle
  | cons i rest ih =>
    exact .bind (manages_generateInstruction g i) fun _ =>
      .bind manages_finishInstruction fun _ => ih { g with currentPc := g.currentPc + 4 }

theorem manages_generateBlock (g : CodeGenerator) (fuel : Nat) :
    Manages g.platform Idle (g.generateBlock fuel) fun _ c' => c'.Idle := by
  induction fuel generalizing g with
  | zero => exact .fail
  | succ fuel ih =>
    unfold generateBlock
    cases codeAt g.memory g.currentPc with
    | none => exact (steady_generateExit g _ _).idle
    | some i =>
      refine .bind (manages_generateInstruction g i) fun goesOn =>
        .bind manages_finishInstruction fun _ => .ite (fun _ => .ite (fun _ => ?_) fun _ => ?_) fun _ => ?_
      · exact (steady_generateExit { g with currentPc := g.currentPc + 4 } _ _).idle
      · exact ih { g with currentPc := g.currentPc + 4 }
      · exact .pure fun _ idle => idle

/-- The generator never gives up on a sequence of decoded instructions. -/
theorem run_generateInstructions (g : CodeGenerator) (words : List (BitVec 32)) {c : GenState}
    (idle : c.cache.Idle) : ∃ o, (g.generateInstructions (words.map .ofWord)).run c = .ok o := by
  induction words generalizing g c with
  | nil => exact ⟨_, rfl⟩
  | cons w rest ih =>
    obtain ⟨b, uses⟩ := g.exists_block
    obtain ⟨goesOn, ⟨c₁, idle₁, code₁, exits₁, ran₁, -⟩, -⟩ :=
      compilesTo_effect uses (Instruction.immediateOf_ofWord w) idle
    obtain ⟨o, ran⟩ := ih { g with currentPc := g.currentPc + 4 } (c := ⟨c₁.nextLabel, _⟩) idle₁.tick
    simp only [List.map_cons, generateInstructions, Emitter.run_bind_of_ok ran₁,
      Emitter.run_bind_of_ok (run_finishInstruction idle₁), ran]
    exact ⟨_, rfl⟩

/-- A generator that manages the cache well, from the empty cache. -/
theorem makesCalls_of_manages {p : Platform} {x : Gen Unit} {n : Nat}
    {o : Emitted Instr PendingExit GenState Unit}
    (manages : Manages p Idle x fun _ c' => c'.Idle) (ran : x.run ⟨n, {}⟩ = .ok o) :
    ∃ calls, MakesCalls p x ⟨n, {}⟩ calls o ∧ Emitter.Linked {} calls o.state.cache ∧
      (∀ call ∈ calls, Consistent call) ∧ o.state.cache.Idle := by
  obtain ⟨calls, makes, sound, idle⟩ := manages ⟨n, {}⟩ o Idle.empty ran
  exact ⟨calls, makes, makes.linked, sound, idle⟩

/-- However many instructions the generator is fed with, and in a whole block of any memory,
it makes one call of the cache after the other without a failing check, and behind every
call the tables agree and the locked registers are the ones asked for. -/
theorem registerCache_consistent (g : CodeGenerator) (n : Nat) :
    (∀ words : List (BitVec 32), ∃ calls o,
      MakesCalls g.platform (g.generateInstructions (words.map .ofWord)) ⟨n, {}⟩ calls o ∧
        Emitter.Linked {} calls o.state.cache ∧ (∀ call ∈ calls, Consistent call) ∧ o.state.cache.Idle) ∧
    ∃ calls o, MakesCalls g.platform (g.generateBlock (blockFuel g.memory)) ⟨n, {}⟩ calls o ∧
      Emitter.Linked {} calls o.state.cache ∧ (∀ call ∈ calls, Consistent call) ∧ o.state.cache.Idle := by
  constructor
  · intro words
    obtain ⟨o, ran⟩ := run_generateInstructions g words (c := ⟨n, {}⟩) Idle.empty
    obtain ⟨calls, sound⟩ := makesCalls_of_manages (manages_generateInstructions g _) ran
    exact ⟨calls, o, sound⟩
  -- the block ends where the code does, so its generator has fuel enough
  · obtain ⟨b, uses⟩ := g.exists_block
    obtain ⟨o, ran⟩ := run_generateBlock (b := b) (blockFuel g.memory) g uses (c := ⟨n, {}⟩) Idle.empty
      (exists_unfetchable g.memory g.currentPc)
    obtain ⟨calls, sound⟩ := makesCalls_of_manages (manages_generateBlock g _) ran
    exact ⟨calls, o, sound⟩

end Riscv64Emulator.Jit.Aarch64
