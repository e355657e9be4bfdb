import Riscv64Emulator.Jit.BackEnds
import Riscv64Emulator.Jit.Aarch64.Checks

/-!
# The registers AArch64 code leaves alone

Generated code works on the registers of the allocation and on those of the cache. The platform
register, the frame pointer and the return address are the same behind the code of a block.
-/
namespace Riscv64Emulator.Jit.Aarch64

open LinearCode RegisterCache

/-- The registers an instruction writes. -/
def Instr.writes : Instr → List A64R
  | .movImm dst _ | .mov dst _ | .addImm dst _ _ | .logicImm _ dst _ _ | .alu _ _ dst _ _ => [dst]
  | .shiftImm _ _ dst _ _ | .shift _ _ dst _ _ | .sxtw dst _ | .cset dst _ | .mul _ dst _ _ => [dst]
  | .div _ _ dst _ _ | .msub _ dst _ _ _ | .ldr _ _ dst _ _ | .ldar dst _ => [dst]
  | _ => []

/-- `X18`, `X29` and `X30`. -/
def preserved : List A64R := [18, 29, 30]

/-- An instruction writes none of the registers that are preserved. -/
def Instr.Tidy (i : Instr) : Prop := ∀ r ∈ i.writes, r ∉ preserved

theorem regs_setReg_of_ne (s : State) {r q : A64R} (other : q ≠ r) (v : Word) (f : Bool) :
    (s.setReg r v f).regs q = s.regs q := by
  unfold State.setReg
  split
  · rfl
  · exact if_neg other

/-- What an instruction does not write stays. -/
theorem step_keeps {env : Env} {s : State} {q : A64R} {i : Instr} (other : q ∉ i.writes) {v : Word}
    (holds : s.regs q = v) : (step env i s).mode.Holds fun s' => s'.regs q = v := by
  -- an instruction with one destination
  have single : ∀ {r : A64R} {w : Word} {f : Bool}, q ∉ [r] → (s.setReg r w f).regs q = v :=
    fun apart => (regs_setReg_of_ne s (fun same => apart (List.mem_singleton.mpr same)) _ _).trans holds
  cases i with
  | movImm dst v | mov dst src | addImm dst src v | logicImm op dst src v | alu op width dst a b
  | shiftImm op width dst a amount | shift op width dst a b | sxtw dst src | mul width dst a b
  | div signed width dst a b | msub width dst a b c => exact single other
  | cmp width a b => cases width <;> exact holds
  | cmpImm a v | tst a v | br r | ret => exact holds
  | cset dst c | ldr size signed dst base offset | ldar dst base =>
    simp only [step]
    split
    · trivial
    · exact single other
  | str size src base offset =>
    simp only [step]
    split
    · trivial
    · exact holds
  | b c l =>
    simp only [step]
    split
    · trivial
    · split <;> exact holds
  | cbz r l =>
    simp only [step]
    split <;> exact holds

/-! ### The generator -/

abbrev Tidies {α : Type} (x : Gen α) : Prop := Emitter.EmitsOnly Instr.Tidy x

/-- An instruction that writes no register. -/
theorem tidies_ins_none {i : Instr} (none : i.writes = []) : Tidies (ins i) := by
  refine .ite (fun _ => .instr fun r member => ?_) fun _ => .fail
  rw [none] at member
  cases member

/-- An instruction that writes one. -/
theorem tidies_ins_one {i : Instr} {t : A64R} (one : i.writes = [t]) (own : t ∉ preserved) :
    Tidies (ins i) := by
  refine .ite (fun _ => .instr fun r member => ?_) fun _ => .fail
  rw [one, List.mem_singleton] at member
  rwa [member]

theorem tidies_allocateLabel : Tidies allocateLabel := .modifyGet _

theorem tidies_verify (condition : Bool) (message : String) : Tidies (verify condition message) :=
  .ite (fun _ => .pure _) fun _ => .fail

theorem tidies_liftExcept {α : Type} (x : Except Abort α) : Tidies (liftExcept x) := by
  cases x with
  | ok a => exact .pure a
  | error e => exact .fail

/-! ### The register cache -/

namespace RegisterCache

/-- The cache has none of them. -/
theorem cache_notMem_preserved (id : SlotId) : RA.cache id ∉ preserved := by
  revert id
  decide

theorem tidies_emitRegisterLoad {target : A64R} (own : target ∉ preserved) (source : Register) :
    Tidies (emitRegisterLoad target source) := tidies_ins_one rfl own

theorem tidies_emitRegisterStore (target : Register) (source : A64R) :
    Tidies (emitRegisterStore target source) := tidies_ins_none rfl

theorem tidies_acquireCacheSlot : Tidies acquireCacheSlot := by
  refine .bind (.modifyGet _) fun cache => ?_
  cases cache.freeSlots with
  | nil => exact .fail
  | cons slotId rest => exact .bind (.modifyGet _) fun _ => .pure _

theorem tidies_evict (slotId : SlotId) : Tidies (evict slotId) := by
  refine .bind (.modifyGet _) fun cache => .ite (fun _ => ?_) fun _ => .modifyGet _
  exact .bind (tidies_emitRegisterStore _ _) fun _ => .modifyGet _

theorem tidies_evictAll (slots : List SlotId) : Tidies (evictAll slots) := by
  induction slots with
  | nil => exact .pure _
  | cons slotId rest ih => exact .bind (tidies_evict slotId) fun _ => ih

theorem tidies_reserveRegisters (p : Platform) (registers : List RegisterToLock) :
    Tidies (reserveRegisters p registers) := by
  have free : ∀ count, Tidies (freeCacheSlots p count) := fun _ =>
    .bind (.modifyGet _) fun _ => .bind (tidies_verify _ _) fun _ => tidies_evictAll _
  exact .bind (.modifyGet _) fun _ => .bind (.modifyGet _) fun _ => .ite (fun _ => free _) fun _ => .pure _

theorem tidies_lockOne (reads : List Register) (reg : Register) : Tidies (lockOne reads reg) := by
  refine .ite (fun _ => .pure _) fun _ => .bind (.modifyGet _) fun cache => ?_
  cases cache.registerToSlot reg with
  | some slotId => exact .bind (.modifyGet _) fun _ => .pure _
  | none =>
    refine .bind tidies_acquireCacheSlot fun slotId => .bind (.modifyGet _) fun _ =>
      .ite (fun _ => ?_) fun _ => .pure _
    exact .bind (tidies_emitRegisterLoad (cache_notMem_preserved slotId) _) fun _ => .pure _

/-- What is locked is a register of the cache or `Xzr`. -/
theorem locks_lockOne (reads : List Register) (reg : Register) :
    (lockOne reads reg).Yields fun r => r ∉ preserved := by
  unfold lockOne
  split
  · exact .pure (by decide)
  · refine .bind (.trivial _) fun cache _ => ?_
    cases cache.registerToSlot reg with
    | some slotId => exact .bind (.trivial _) fun _ _ => .pure (cache_notMem_preserved slotId)
    | none =>
      refine .bind (.trivial _) fun slotId _ => .bind (.trivial _) fun _ _ => ?_
      split
      · exact .bind (.trivial _) fun _ _ => .pure (cache_notMem_preserved slotId)
      · exact .pure (cache_notMem_preserved slotId)

theorem tidies_lockEach (reads : List Register) (registers : List RegisterToLock) :
    Tidies (lockEach reads registers) := by
  induction registers with
  | nil => exact .pure _
  | cons r rest ih => exact .bind (tidies_lockOne reads r.reg) fun _ => .bind ih fun _ => .pure _

theorem locks_lockEach (reads : List Register) (registers : List RegisterToLock) :
    (lockEach reads registers).Yields fun outputs => ∀ r ∈ outputs, r ∉ preserved := by
  induction registers with
  | nil => exact .pure fun _ member => absurd member List.not_mem_nil
  | cons r rest ih =>
    exact .bind (locks_lockOne reads r.reg) fun _ first => .bind ih fun _ others =>
      .pure (List.forall_mem_cons.mpr ⟨first, others⟩)

theorem tidies_lockRegisters (p : Platform) (registers : List RegisterToLock) :
    Tidies (lockRegisters p registers) :=
  .bind (tidies_reserveRegisters p registers) fun _ => tidies_lockEach _ registers

theorem locks_lockRegisters (p : Platform) (registers : List RegisterToLock) :
    (lockRegisters p registers).Yields fun outputs => ∀ r ∈ outputs, r ∉ preserved :=
  .bind (.trivial _) fun _ _ => locks_lockEach _ registers

theorem tidies_unlockRegister (reg : A64R) (makeDirty : Bool) : Tidies (unlockRegister reg makeDirty) := by
  refine .ite (fun _ => .pure _) fun _ => ?_
  cases platformRegisterToSlot reg with
  | none => exact .fail
  | some slotId => exact .modifyGet _

theorem tidies_unlockRegisters (regs : List A64R) : Tidies (unlockRegisters regs) := by
  induction regs with
  | nil => exact .pure _
  | cons reg rest ih => exact .bind (tidies_unlockRegister reg false) fun _ => ih

theorem tidies_flushRegisters (snapshot : StateSnapshot) : Tidies (flushRegisters snapshot) := by
  have slots : ∀ slots, Tidies (flushSlots snapshot slots) := by
    intro slots
    induction slots with
    | nil => exact .pure _
    | cons id rest ih => exact .ite (fun _ => .bind (tidies_emitRegisterStore _ _) fun _ => ih) fun _ => ih
  exact slots _

theorem tidies_flushCurrentRegisters : Tidies flushCurrentRegisters :=
  .bind (.modifyGet _) fun _ => tidies_flushRegisters _

theorem tidies_finishInstruction : Tidies finishInstruction :=
  .bind (.modifyGet _) fun _ => .bind (tidies_verify _ _) fun _ => .modifyGet _

end RegisterCache

namespace CodeGenerator

variable (g : CodeGenerator)

/-! ### Immediates, exits and branches -/

theorem tidies_loadImmediate {target : A64R} (own : target ∉ preserved) (immediate : Word) :
    Tidies (g.loadImmediate target immediate) := by
  refine tidies_ins_one (t := target) ?_ own
  unfold immediateInstr
  dsimp only
  split <;> rfl

theorem tidies_loadImmediateOrZero {target : A64R} (own : target ∉ preserved) (immediate : Word) :
    Tidies (g.loadImmediateOrZero target immediate) :=
  .ite (fun _ => .pure _) fun _ => .bind (g.tidies_loadImmediate own _) fun _ => .pure _

theorem tidies_addOffsetToRegister (valueReg : A64R) {scratchReg : A64R} (own : scratchReg ∉ preserved)
    (offset : Word) : Tidies (g.addOffsetToRegister valueReg scratchReg offset) := by
  refine .ite (fun _ => ?_) fun _ => .ite (fun _ => .pure _) fun _ => .ite (fun _ => ?_) fun _ => ?_
  · exact .bind (g.tidies_loadImmediate own _) fun _ => .pure _
  · exact .bind (tidies_ins_one rfl own) fun _ => .pure _
  · exact .bind (g.tidies_loadImmediate own _) fun _ => .bind (tidies_ins_one rfl own) fun _ => .pure _

theorem tidies_generateExit (reason : ArchExitReason) (pc : Word) : Tidies (g.generateExit reason pc) :=
  .bind tidies_flushCurrentRegisters fun _ => .bind (g.tidies_loadImmediate (by decide) _) fun _ =>
    .bind (g.tidies_loadImmediate (by decide) _) fun _ => tidies_ins_none rfl

theorem tidies_generateExitRegister (reason : ArchExitReason) (pc : A64R) :
    Tidies (g.generateExitRegister reason pc) :=
  .bind tidies_flushCurrentRegisters fun _ => .bind (tidies_ins_one rfl (by decide)) fun _ =>
    .bind (g.tidies_loadImmediate (by decide) _) fun _ => tidies_ins_none rfl

theorem tidies_addPendingExit (label : Nat) (reason : ArchExitReason) (flush : Bool) (pc : Word) :
    Tidies (addPendingExit label reason flush pc) :=
  .bind (.bind (.modifyGet _) fun _ => .pure _) fun _ => .defer _

theorem tidies_addPendingExitRegister (label : Nat) (reason : ArchExitReason) (flush : Bool) (pc : A64R) :
    Tidies (addPendingExitRegister label reason flush pc) :=
  .bind (.bind (.modifyGet _) fun _ => .pure _) fun _ => .defer _

theorem tidies_generatePendingExits (exits : List PendingExit) : Tidies (g.generatePendingExits exits) := by
  induction exits with
  | nil => exact .pure _
  | cons exit rest ih =>
    have reported : Tidies (do
        g.loadImmediate RA.exitReason exit.reason.code
        ins .ret
        g.generatePendingExits rest) :=
      .bind (g.tidies_loadImmediate (by decide) _) fun _ => .bind (tidies_ins_none rfl) fun _ => ih
    refine .bind (.label _) fun _ => .bind (tidies_flushRegisters _) fun _ => .ite (fun _ => ?_) fun _ => ?_
    · exact .bind (tidies_ins_one rfl (by decide)) fun _ => reported
    · exact .bind (g.tidies_loadImmediate (by decide) _) fun _ => reported

theorem tidies_generateValidatedBranch {blockOffset : A64R} (own : blockOffset ∉ preserved) :
    Tidies (g.generateValidatedBranch blockOffset) := by
  have enter : Tidies (do
      let noBlockLabel ← allocateLabel
      ins (.cbz blockOffset noBlockLabel)
      ins (.alu .add .w64 blockOffset RA.codeBase blockOffset)
      ins (.br blockOffset)
      pure noBlockLabel) :=
    .bind (.modifyGet _) fun _ => .bind (tidies_ins_none rfl) fun _ => .bind (tidies_ins_one rfl own) fun _ =>
      .bind (tidies_ins_none rfl) fun _ => .pure _
  refine .ite (fun _ => ?_) fun _ => ?_
  · exact .bind (tidies_ins_one rfl own) fun _ => enter
  · exact .bind (tidies_ins_one rfl own) fun _ => .bind (tidies_ins_one rfl own) fun _ => enter

theorem tidies_generateStaticBranch (targetPc : Word) {scratch : A64R} (own : scratch ∉ preserved) :
    Tidies (g.generateStaticBranch targetPc scratch) :=
  .ite (fun _ => g.tidies_generateExit _ _) fun _ => .ite (fun _ => g.tidies_generateExit _ _) fun _ =>
    .ite (fun _ => g.tidies_generateExit _ _) fun _ => .bind (g.tidies_loadImmediate own _) fun _ =>
      .bind tidies_flushCurrentRegisters fun _ =>
        .bind (g.tidies_generateValidatedBranch own) fun _ => tidies_addPendingExit _ _ _ _

theorem tidies_generateDynamicBranch (targetPc : A64R) {scratch : A64R} (own : scratch ∉ preserved) :
    Tidies (g.generateDynamicBranch targetPc scratch) := by
  have exits (outOfBounds unaligned : Nat) : Tidies (do
      addPendingExitRegister outOfBounds .outOfBoundsPc false targetPc
      addPendingExitRegister unaligned .unalignedPc false targetPc) :=
    .bind (tidies_addPendingExitRegister _ _ _ _) fun _ => tidies_addPendingExitRegister _ _ _ _
  refine .bind (tidies_verify _ _) fun _ => .bind (.modifyGet _) fun _ => .bind (.modifyGet _) fun _ =>
    .bind (tidies_ins_one rfl own) fun _ => .bind tidies_flushCurrentRegisters fun _ =>
      .bind (tidies_ins_none rfl) fun _ => .bind (tidies_ins_none rfl) fun _ =>
        .bind (tidies_ins_none rfl) fun _ => .bind (tidies_ins_none rfl) fun _ => .ite (fun _ => ?_) fun _ => ?_
  · exact .bind (g.tidies_generateExitRegister _ _) fun _ => exits _ _
  · exact .bind (g.tidies_generateValidatedBranch own) fun _ =>
      .bind (tidies_addPendingExitRegister _ _ _ _) fun _ => exits _ _

theorem tidies_loadMemoryPermissionMask {target : A64R} (own : target ∉ preserved) (flag : MemoryFlags)
    (accessSizeLog2 : Nat) : Tidies (loadMemoryPermissionMask target flag accessSizeLog2) := by
  unfold loadMemoryPermissionMask
  split
  all_goals first
    | exact .bind (tidies_ins_one rfl own) fun _ => .pure _
    | exact .fail

theorem tidies_generateValidateMemoryAccess (address : A64R) {scratch1 scratch2 : A64R}
    (own1 : scratch1 ∉ preserved) (own2 : scratch2 ∉ preserved) (accessSizeLog2 : Nat) (write : Bool) :
    Tidies (g.generateValidateMemoryAccess address scratch1 scratch2 accessSizeLog2 write) := by
  have load : (liftExcept (permissionLoad scratch1 address accessSizeLog2) : Gen Instr).Yields
      fun j => j.writes = [scratch1] := by
    intro c o ran
    unfold permissionLoad at ran
    split at ran <;> cases ran <;> rfl
  -- from the last test to the first: permissions, bound, alignment
  have permissions : ∀ l, Tidies (do
      if !g.flags.skipPermissionChecks then
        ins (← liftExcept (permissionLoad scratch1 address accessSizeLog2))
        let flag := if write then MemoryFlags.write else MemoryFlags.read
        let truncate ← loadMemoryPermissionMask scratch2 flag accessSizeLog2
        let width : Width := if truncate then .w32 else .w64
        ins (.alu .and width scratch1 scratch1 scratch2)
        ins (.cmp width scratch1 scratch2)
        ins (.b .notEqual l)
      addPendingExit l (if write then .memoryWriteFault else .memoryReadFault) true g.currentPc) :=
    fun _ => .ite
      (fun _ => .bind_yields (tidies_liftExcept _) load fun _ one => .bind (tidies_ins_one one own1) fun _ =>
        .bind (tidies_loadMemoryPermissionMask own2 _ _) fun _ => .bind (tidies_ins_one rfl own1) fun _ =>
          .bind (tidies_ins_none rfl) fun _ => .bind (tidies_ins_none rfl) fun _ =>
            tidies_addPendingExit _ _ _ _)
      fun _ => tidies_addPendingExit _ _ _ _
  have bound : ∀ l, Tidies _ := fun l =>
    .bind (tidies_ins_none (i := .cmp .w64 address RA.memorySize) rfl) fun _ =>
      .bind (tidies_ins_none (i := .b .unsignedGreaterEqual l) rfl) fun _ => permissions l
  exact .bind (.modifyGet _) fun l => .ite
    (fun _ => .bind (tidies_ins_none rfl) fun _ => .bind (tidies_ins_none rfl) fun _ => bound l)
    fun _ => bound l

/-! ### Instructions -/

/-- The destination is a register of the cache. -/
theorem tidies_withRegisters (reads : List Register) (rd : Register) {write : List A64R → A64R → Gen Unit}
    (writes : ∀ operands dest, dest ∉ preserved → Tidies (write operands dest)) :
    Tidies (g.withRegisters reads rd write) := by
  refine .bind_yields (tidies_lockRegisters _ _) (locks_lockRegisters _ _) fun locked apart => ?_
  have dest : locked.getLastD A64R.xzr ∉ preserved := by
    cases locked with
    | nil => decide
    | cons r rest =>
      rw [List.getLastD_cons]
      exact apart _ List.getLastD_mem_cons
  exact .bind (writes _ _ dest) fun _ => .bind (tidies_unlockRegisters _) fun _ => tidies_unlockRegister _ _

theorem tidies_withDestination (rd : Register) {write : A64R → Gen Unit}
    (writes : ∀ dest, dest ∉ preserved → Tidies (write dest)) : Tidies (g.withDestination rd write) :=
  g.tidies_withRegisters [] rd fun _ dest own => writes dest own

theorem tidies_withOperand (rs1 rd : Register) {write : A64R → A64R → Gen Unit}
    (writes : ∀ a dest, dest ∉ preserved → Tidies (write a dest)) : Tidies (g.withOperand rs1 rd write) := by
  refine g.tidies_withRegisters [rs1] rd fun operands dest own => ?_
  split
  · exact writes _ dest own
  · exact .fail

theorem tidies_withOperands (rs1 rs2 rd : Register) {write : A64R → A64R → A64R → Gen Unit}
    (writes : ∀ a b dest, dest ∉ preserved → Tidies (write a b dest)) :
    Tidies (g.withOperands rs1 rs2 rd write) := by
  refine g.tidies_withRegisters [rs1, rs2] rd fun operands dest own => ?_
  split
  · exact writes _ _ dest own
  · exact .fail

variable {i : Instruction}

theorem tidies_generateLoad : Tidies (g.generateLoad i) := by
  refine g.tidies_withOperand _ _ fun a dest own => ?_
  have load : ∀ address, (liftExcept (loadInstr dest address i.type) : Gen Instr).Yields
      fun j => j.writes = [dest] := by
    intro address c o ran
    unfold loadInstr at ran
    split at ran <;> cases ran <;> rfl
  exact .bind (g.tidies_addOffsetToRegister _ (by decide) _) fun address => .bind (tidies_liftExcept _) fun _ =>
    .bind (g.tidies_generateValidateMemoryAccess _ (by decide) (by decide) _ _) fun _ =>
      .bind_yields (tidies_liftExcept _) (load address) fun _ one => tidies_ins_one one own

theorem tidies_generateStore : Tidies (g.generateStore i) := by
  have store : ∀ value address, (liftExcept (storeInstr value address i.type) : Gen Instr).Yields
      fun j => j.writes = [] := by
    intro value address c o ran
    unfold storeInstr at ran
    split at ran <;> cases ran <;> rfl
  refine .bind (tidies_lockRegisters _ _) fun locked => ?_
  split
  · exact .bind (g.tidies_addOffsetToRegister _ (by decide) _) fun address =>
      .bind (tidies_liftExcept _) fun _ =>
        .bind (g.tidies_generateValidateMemoryAccess _ (by decide) (by decide) _ _) fun _ =>
          .bind_yields (tidies_liftExcept _) (store _ address) fun _ none => .bind (tidies_ins_none none) fun _ =>
            tidies_unlockRegisters _
  · exact .fail

theorem tidies_tryImmediate (a : A64R) {dest : A64R} (own : dest ∉ preserved) :
    Tidies (g.tryImmediate i a dest) := by
  have finish : ∀ succeeded : Bool, Tidies (do
      if succeeded ∧ i.type = .addiw then ins (.sxtw dest dest)
      pure succeeded) :=
    fun _ => .ite (fun _ => .bind (tidies_ins_one rfl own) fun _ => .pure _) fun _ => .pure _
  refine .bind (tidies_liftExcept _) fun _ => .ite (fun _ => ?_) fun _ =>
    .ite (fun _ => .bind (tidies_ins_one rfl own) fun _ => .pure _) fun _ => .pure _
  exact .ite (fun _ => .bind (tidies_ins_one rfl own) fun _ => .bind (.pure _) finish) fun _ =>
    .ite (fun _ => .bind (g.tidies_loadImmediate own _) fun _ => .bind (.pure _) finish) fun _ =>
      .ite (fun _ => .bind (tidies_ins_one rfl own) fun _ => .bind (.pure _) finish) fun _ =>
        .bind (.pure _) finish

theorem tidies_generateImmediate : Tidies (g.generateImmediate i) := by
  refine g.tidies_withOperand _ _ fun a dest own => .bind (g.tidies_tryImmediate a own) fun _ =>
    .ite (fun _ => ?_) fun _ => .pure _
  exact .bind (g.tidies_loadImmediateOrZero (by decide) _) fun _ => .bind (tidies_liftExcept _) fun _ =>
    .bind (tidies_ins_one rfl own) fun _ => .ite (fun _ => tidies_ins_one rfl own) fun _ => .pure _

theorem tidies_extendResult (width : Width) {dest : A64R} (own : dest ∉ preserved) :
    Tidies (extendResult width dest) := by
  cases width
  · exact tidies_ins_one rfl own
  · exact .pure _

theorem tidies_generateShiftImmediate : Tidies (g.generateShiftImmediate i) :=
  g.tidies_withOperand _ _ fun _ _ own => .bind (tidies_liftExcept _) fun _ =>
    .bind (tidies_ins_one rfl own) fun _ => tidies_extendResult _ own

theorem tidies_generateCompare : Tidies (g.generateCompare i) :=
  g.tidies_withOperands _ _ _ fun _ _ _ own => .bind (tidies_ins_none rfl) fun _ => tidies_ins_one rfl own

theorem tidies_generateCompareImmediate : Tidies (g.generateCompareImmediate i) := by
  refine .ite (fun _ => ?_) fun _ => ?_
  · exact g.tidies_withDestination _ fun dest own => g.tidies_loadImmediate own _
  · exact g.tidies_withOperand _ _ fun a dest own => .ite
      (fun _ => .bind (tidies_ins_none rfl) fun _ => tidies_ins_one rfl own)
      fun _ => .bind (g.tidies_loadImmediateOrZero (by decide) _) fun _ => .bind (tidies_ins_none rfl) fun _ =>
        tidies_ins_one rfl own

theorem tidies_generateRegister : Tidies (g.generateRegister i) := by
  refine g.tidies_withOperands _ _ _ fun a b dest own => ?_
  have chosen : (liftExcept (registerInstr dest a b i.type) : Gen (Instr × Width)).Yields
      fun j => j.1.writes = [dest] := by
    intro c o ran
    unfold registerInstr at ran
    cases type : i.type <;> rw [type] at ran <;> cases ran <;> rfl
  exact .bind_yields (tidies_liftExcept _) chosen fun _ one => .bind (tidies_ins_one one own) fun _ =>
    tidies_extendResult _ own

theorem tidies_mulDivCode {dest : A64R} (own : dest ∉ preserved) (a b : A64R) (type : InstructionType) :
    Tidies (mulDivCode dest a b type) := by
  have quotient (signed : Bool) (width : Width) : Tidies (do
      ins (.div signed width dest a b)
      extendResult width dest) :=
    .bind (tidies_ins_one rfl own) fun _ => tidies_extendResult _ own
  have remainder (signed : Bool) (width : Width) : Tidies (do
      ins (.div signed width RA.a a b)
      ins (.msub width dest RA.a b a)
      extendResult width dest) :=
    .bind (tidies_ins_one rfl (by decide)) fun _ => .bind (tidies_ins_one rfl own) fun _ =>
      tidies_extendResult _ own
  unfold mulDivCode
  split
  case h_1 => exact tidies_ins_one rfl own
  case h_2 => exact .bind (tidies_ins_one rfl own) fun _ => tidies_extendResult _ own
  case h_11 => exact .fail
  all_goals first
    | exact quotient _ _
    | exact remainder _ _

theorem tidies_jalr (kind : i.type = .jalr) : Tidies (g.generateInstruction i) := by
  -- the jump, behind the link if there is one
  have rest : ∀ target offseted, Tidies (do
      g.generateDynamicBranch offseted RA.b
      unlockRegister target false
      pure false) :=
    fun _ _ => .bind (g.tidies_generateDynamicBranch _ (by decide)) fun _ =>
      .bind (tidies_unlockRegister _ _) fun _ => .pure _
  have link : ∀ target offseted dest, dest ∉ preserved → Tidies (do
      g.loadImmediate dest (g.currentPc + 4)
      unlockRegister dest true
      let offseted ← pure offseted
      g.generateDynamicBranch offseted RA.b
      unlockRegister target false
      pure false) :=
    fun _ _ _ own => .bind (g.tidies_loadImmediate own _) fun _ =>
      .bind (tidies_unlockRegister _ _) fun _ => .bind (.pure _) fun _ => rest _ _
  simp only [generateInstruction, kind]
  refine .bind (tidies_lockRegisters _ _) fun locked => ?_
  split
  · refine .bind (g.tidies_addOffsetToRegister _ (by decide) _) fun offseted => .ite (fun _ => ?_) fun _ => ?_
    · refine .bind_yields (tidies_lockRegisters _ _) (locks_lockRegisters _ _) fun locked apart => ?_
      split
      next dest =>
        have own := apart dest (List.mem_singleton_self _)
        exact .ite
          (fun _ => .bind (tidies_ins_one rfl (by decide)) fun _ => .bind (.pure _) fun _ => link _ _ _ own)
          fun _ => .bind (.pure _) fun _ => link _ _ _ own
      next => exact .fail
    · exact .bind (.pure _) fun _ => rest _ _
  · exact .fail

theorem tidies_branch (kind : isBranch i.type = true) : Tidies (g.generateInstruction i) := by
  have chosen : ∃ condition, skipCondition i.type = .ok condition := by
    cases type : i.type <;> first | exact ⟨_, rfl⟩ | exact absurd (type ▸ kind) (by decide)
  obtain ⟨condition, chosen⟩ := chosen
  rw [generateInstruction_branch g kind chosen]
  refine .bind (tidies_lockRegisters _ _) fun locked => ?_
  split
  · exact .bind (.modifyGet _) fun _ => .bind (tidies_ins_none rfl) fun _ =>
      .bind (tidies_ins_none rfl) fun _ => .bind (g.tidies_generateStaticBranch _ (by decide)) fun _ =>
        .bind (.label _) fun _ => .bind (tidies_unlockRegisters _) fun _ => .pure _
  · exact .fail

theorem tidies_computation (kind : isComputation i.type = true) : Tidies (g.generateInstruction i) := by
  have unlessZero : ∀ {x : Gen Unit}, Tidies x → Tidies (do
      if i.rd ≠ Register.zero then x
      pure true) := fun tidies => .ite (fun _ => .bind tidies fun _ => .pure _) fun _ => .pure _
  have constant : ∀ v, Tidies (g.withDestination i.rd fun dest => g.loadImmediate dest v) :=
    fun _ => g.tidies_withDestination _ fun _ own => g.tidies_loadImmediate own _
  have mulDiv : ∀ type, Tidies (do
      if i.rd ≠ Register.zero then do
        g.withOperands i.rs1 i.rs2 i.rd fun a b dest => mulDivCode dest a b type
        pure true
      else do
        g.generateExit .unsupportedInstruction g.currentPc
        pure false) := fun _ =>
    .ite (fun _ => .bind (g.tidies_withOperands _ _ _ fun _ _ _ own => tidies_mulDivCode own _ _ _)
      fun _ => .pure _) fun _ => .bind (g.tidies_generateExit _ _) fun _ => .pure _
  unfold generateInstruction
  -- each type runs one of seven generators
  cases type : i.type <;> rw [type] at kind
  case lui | auipc => exact unlessZero (constant _)
  case addi | xori | ori | andi | addiw => exact unlessZero g.tidies_generateImmediate
  case slli | srli | srai | slliw | srliw | sraiw => exact unlessZero g.tidies_generateShiftImmediate
  case slt | sltu => exact unlessZero g.tidies_generateCompare
  case slti | sltiu => exact unlessZero g.tidies_generateCompareImmediate
  case add | sub | xor | or | and | sll | srl | sra | addw | subw | sllw | srlw | sraw =>
    exact unlessZero g.tidies_generateRegister
  case mul | mulw | div | divw | divu | divuw | rem | remu | remw | remuw => exact mulDiv _
  all_goals exact absurd kind (by decide)

theorem tidies_generateInstruction (i : Instruction) : Tidies (g.generateInstruction i) := by
  rcases instruction_family i.type with kind | kind | kind | ⟨reason, kind⟩ | kind | kind | kind | kind
  · rw [generateInstruction_load g kind]
    exact .ite (fun _ => .bind g.tidies_generateLoad fun _ => .pure _) fun _ => .pure _
  · rw [generateInstruction_store g kind]
    exact .bind g.tidies_generateStore fun _ => .pure _
  · exact g.tidies_branch kind
  · rw [generateInstruction_exit g kind]
    exact .bind (g.tidies_generateExit _ _) fun _ => .pure _
  · have branch : Tidies (do g.generateStaticBranch (g.currentPc + i.imm) RA.a; pure false) :=
      .bind (g.tidies_generateStaticBranch _ (by decide)) fun _ => .pure _
    rw [generateInstruction_jal g kind]
    exact .ite (fun _ => .bind (g.tidies_withDestination _ fun _ own => g.tidies_loadImmediate own _)
      fun _ => branch) fun _ => branch
  · exact g.tidies_jalr kind
  · rw [generateInstruction_fence g kind]
    exact .pure _
  · exact g.tidies_computation kind

theorem tidies_generateBlock (g : CodeGenerator) (fuel : Nat) : Tidies (g.generateBlock fuel) := by
  induction fuel generalizing g with
  | zero => exact .fail
  | succ fuel ih =>
    unfold generateBlock
    cases codeAt g.memory g.currentPc with
    | none => exact g.tidies_generateExit _ _
    | some i =>
      refine .bind (g.tidies_generateInstruction i) fun goesOn => .bind tidies_finishInstruction fun _ => ?_
      cases goesOn with
      | true =>
        simp only [if_true]
        exact .ite (fun _ => tidies_generateExit _ _ _) fun _ => ih _
      | false => exact .pure _

/-- The code of a block writes no register that is preserved. -/
theorem tidy_generateCode {fuel : Nat} {code : List (Item Instr)} (compiled : g.generateCode fuel = .ok code) :
    ∀ i, .instr i ∈ code → i.Tidy := by
  unfold generateCode at compiled
  simp only [bind, Except.bind] at compiled
  have base : Tidies (ins (.movImm RA.basePc g.basePc)) := tidies_ins_one rfl (by decide)
  cases start : (ins (.movImm RA.basePc g.basePc)).run ⟨0, {}⟩ with
  | error e =>
    rw [start] at compiled
    cases compiled
  | ok o =>
    rw [start] at compiled
    simp only at compiled
    cases block : (g.generateBlock fuel).run o.state with
    | error e =>
      rw [block] at compiled
      cases compiled
    | ok o' =>
      rw [block] at compiled
      simp only at compiled
      cases exits : (g.generatePendingExits o'.exits).run o'.state with
      | error e =>
        rw [exits] at compiled
        cases compiled
      | ok o'' =>
        rw [exits] at compiled
        cases compiled
        -- the first instruction, one of the block, or one of an exit
        intro i member
        simp only [List.mem_append] at member
        rcases member with (first | here) | exit
        · exact base _ _ start i first
        · exact tidies_generateBlock g fuel _ _ block i here
        · exact g.tidies_generatePendingExits _ _ _ exits i exit

end CodeGenerator

/-- Where the code of a block ends, the preserved registers are as they were. -/
theorem runCode_keeps {g : CodeGenerator} {fuel : Nat} {code : List (Item Instr)}
    (compiled : g.generateCode fuel = .ok code) {env : Env} {s s' : State} {target : Option Word}
    (ran : runCode env code s = some (target, s')) {r : A64R} (kept : r ∈ preserved) :
    s'.regs r = s.regs r := by
  have keeps : (exec (step env) code (.running s)).Holds fun t => t.regs r = s.regs r :=
    exec_keeps (fun i member t holds => step_keeps (fun written =>
      g.tidy_generateCode compiled i member r written kept) holds) rfl
  obtain ⟨e, here, -⟩ := runCode_eq_some.mp ran
  rw [here] at keeps
  exact keeps

end Riscv64Emulator.Jit.Aarch64
