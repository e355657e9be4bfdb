import Riscv64Emulator.Jit.Aarch64.Transfers

/-!
# The defaults of the generator's switches

The switches of the generator end in `unreachable()`, and so do the matches on the registers
that the cache has locked. No instruction gets there: each function of the generator has one
lemma.
-/
namespace Riscv64Emulator.Jit.Aarch64

open LinearCode Emitter RegisterCache

/-- No switch of the generator takes its default branch in `x`. -/
abbrev Dispatches {α : Type} (x : Gen α) : Prop :=
  x.FailsOnly (· ≠ .fatalError "entered unreachable code")

theorem dispatches_verified {α : Type} (message : String) :
    Dispatches (Emitter.fail (.verify message) : Gen α) := .fail nofun

theorem dispatches_ins (i : Instr) : Dispatches (ins i) := .ite (fun _ => .emit _) fun _ => .fail nofun

theorem dispatches_verify (condition : Bool) (message : String) : Dispatches (verify condition message) :=
  .ite (fun _ => .pure _) fun _ => dispatches_verified message

theorem dispatches_liftExcept {α : Type} {a : α} {x : Except Abort α} (ok : x = .ok a) :
    Dispatches (liftExcept x) := by
  rw [ok]
  exact .pure a

theorem yields_liftExcept {α : Type} {a : α} {x : Except Abort α} (ok : x = .ok a) :
    (liftExcept x : Gen α).Yields (· = a) := by
  rw [ok]
  exact .pure rfl

/-! ### The register cache -/

namespace RegisterCache

theorem dispatches_emitRegisterLoad (target : A64R) (source : Register) :
    Dispatches (emitRegisterLoad target source) := dispatches_ins _

theorem dispatches_emitRegisterStore (target : Register) (source : A64R) :
    Dispatches (emitRegisterStore target source) := dispatches_ins _

theorem dispatches_acquireCacheSlot : Dispatches acquireCacheSlot := by
  refine .bind (.modifyGet _) fun cache => ?_
  cases cache.freeSlots with
  | nil => exact dispatches_verified _
  | cons slotId rest => exact .bind (.modifyGet _) fun _ => .pure _

theorem dispatches_evict (slotId : SlotId) : Dispatches (evict slotId) := by
  refine .bind (.modifyGet _) fun cache => .ite (fun _ => ?_) fun _ => .modifyGet _
  exact .bind (dispatches_emitRegisterStore _ _) fun _ => .modifyGet _

theorem dispatches_evictAll (slots : List SlotId) : Dispatches (evictAll slots) := by
  induction slots with
  | nil => exact .pure _
  | cons slotId rest ih => exact .bind (dispatches_evict slotId) fun _ => ih

theorem dispatches_freeCacheSlots (p : Platform) (count : Nat) : Dispatches (freeCacheSlots p count) :=
  .bind (.modifyGet _) fun _ => .bind (dispatches_verify _ _) fun _ => dispatches_evictAll _

theorem dispatches_reserveRegisters (p : Platform) (registers : List RegisterToLock) :
    Dispatches (reserveRegisters p registers) :=
  .bind (.modifyGet _) fun _ => .bind (.modifyGet _) fun _ =>
    .ite (fun _ => dispatches_freeCacheSlots p _) fun _ => .pure _

theorem dispatches_lockOne (reads : List Register) (reg : Register) : Dispatches (lockOne reads reg) := by
  refine .ite (fun _ => .pure _) fun _ => .bind (.modifyGet _) fun cache => ?_
  cases cache.registerToSlot reg with
  | some slotId => exact .bind (.modifyGet _) fun _ => .pure _
  | none =>
    refine .bind dispatches_acquireCacheSlot fun slotId => .bind (.modifyGet _) fun _ =>
      .ite (fun _ => ?_) fun _ => .pure _
    exact .bind (dispatches_emitRegisterLoad _ _) fun _ => .pure _

theorem dispatches_lockEach (reads : List Register) (registers : List RegisterToLock) :
    Dispatches (lockEach reads registers) := by
  induction registers with
  | nil => exact .pure _
  | cons r rest ih => exact .bind (dispatches_lockOne reads r.reg) fun _ => .bind ih fun _ => .pure _

/-- Every register that is asked for is returned. -/
theorem yields_lockEach (reads : List Register) (registers : List RegisterToLock) :
    (lockEach reads registers).Yields fun outputs => outputs.length = registers.length := by
  induction registers with
  | nil => exact .pure rfl
  | cons r rest ih =>
    exact .bind (.trivial _) fun _ _ => .bind ih fun outputs same =>
      .pure (by rw [List.length_cons, List.length_cons, same])

theorem dispatches_lockRegisters (p : Platform) (registers : List RegisterToLock) :
    Dispatches (lockRegisters p registers) :=
  .bind (dispatches_reserveRegisters p registers) fun _ => dispatches_lockEach _ registers

theorem yields_lockRegisters (p : Platform) (registers : List RegisterToLock) :
    (lockRegisters p registers).Yields fun outputs => outputs.length = registers.length :=
  .bind (.trivial _) fun _ _ => yields_lockEach _ registers

theorem dispatches_unlockRegister (reg : A64R) (makeDirty : Bool) :
    Dispatches (unlockRegister reg makeDirty) := by
  refine .ite (fun _ => .pure _) fun _ => ?_
  cases platformRegisterToSlot reg with
  | none => exact dispatches_verified _
  | some slotId => exact .modifyGet _

theorem dispatches_unlockRegisters (regs : List A64R) : Dispatches (unlockRegisters regs) := by
  induction regs with
  | nil => exact .pure _
  | cons reg rest ih => exact .bind (dispatches_unlockRegister reg false) fun _ => ih

theorem dispatches_flushSlots (snapshot : StateSnapshot) (slots : List SlotId) :
    Dispatches (flushSlots snapshot slots) := by
  induction slots with
  | nil => exact .pure _
  | cons id rest ih =>
    refine .ite (fun _ => ?_) fun _ => ih
    exact .bind (dispatches_emitRegisterStore _ _) fun _ => ih

theorem dispatches_flushCurrentRegisters : Dispatches flushCurrentRegisters :=
  .bind (.modifyGet _) fun _ => dispatches_flushSlots _ _

end RegisterCache

namespace CodeGenerator

variable (g : CodeGenerator)

/-! ### Immediates, exits and branches -/

theorem dispatches_loadImmediate (target : A64R) (immediate : Word) :
    Dispatches (g.loadImmediate target immediate) := dispatches_ins _

theorem dispatches_loadImmediateOrZero (target : A64R) (immediate : Word) :
    Dispatches (g.loadImmediateOrZero target immediate) :=
  .ite (fun _ => .pure _) fun _ => .bind (g.dispatches_loadImmediate _ _) fun _ => .pure _

theorem dispatches_addOffsetToRegister (valueReg scratchReg : A64R) (offset : Word) :
    Dispatches (g.addOffsetToRegister valueReg scratchReg offset) := by
  refine .ite (fun _ => ?_) fun _ => .ite (fun _ => .pure _) fun _ => .ite (fun _ => ?_) fun _ => ?_
  · exact .bind (g.dispatches_loadImmediate _ _) fun _ => .pure _
  · exact .bind (dispatches_ins _) fun _ => .pure _
  · exact .bind (g.dispatches_loadImmediate _ _) fun _ => .bind (dispatches_ins _) fun _ => .pure _

theorem dispatches_generateExit (reason : ArchExitReason) (pc : Word) :
    Dispatches (g.generateExit reason pc) :=
  .bind dispatches_flushCurrentRegisters fun _ => .bind (g.dispatches_loadImmediate _ _) fun _ =>
    .bind (g.dispatches_loadImmediate _ _) fun _ => dispatches_ins _

theorem dispatches_generateExitRegister (reason : ArchExitReason) (pc : A64R) :
    Dispatches (g.generateExitRegister reason pc) :=
  .bind dispatches_flushCurrentRegisters fun _ => .bind (dispatches_ins _) fun _ =>
    .bind (g.dispatches_loadImmediate _ _) fun _ => dispatches_ins _

theorem dispatches_addPendingExit (label : Nat) (reason : ArchExitReason) (flush : Bool) (pc : Word) :
    Dispatches (addPendingExit label reason flush pc) :=
  .bind (.bind (.modifyGet _) fun _ => .pure _) fun _ => .defer _

theorem dispatches_addPendingExitRegister (label : Nat) (reason : ArchExitReason) (flush : Bool)
    (pc : A64R) : Dispatches (addPendingExitRegister label reason flush pc) :=
  .bind (.bind (.modifyGet _) fun _ => .pure _) fun _ => .defer _

theorem dispatches_generateValidatedBranch (blockOffset : A64R) :
    Dispatches (g.generateValidatedBranch blockOffset) := by
  have enter : Dispatches (do
      let noBlockLabel ← allocateLabel
      ins (.cbz blockOffset noBlockLabel)
      ins (.alu .add .w64 blockOffset RA.codeBase blockOffset)
      ins (.br blockOffset)
      pure noBlockLabel) :=
    .bind (.modifyGet _) fun _ => .bind (dispatches_ins _) fun _ => .bind (dispatches_ins _) fun _ =>
      .bind (dispatches_ins _) fun _ => .pure _
  refine .ite (fun _ => ?_) fun _ => ?_
  · exact .bind (dispatches_ins _) fun _ => enter
  · exact .bind (dispatches_ins _) fun _ => .bind (dispatches_ins _) fun _ => enter

theorem dispatches_generateStaticBranch (targetPc : Word) (scratch : A64R) :
    Dispatches (g.generateStaticBranch targetPc scratch) :=
  .ite (fun _ => g.dispatches_generateExit _ _) fun _ =>
    .ite (fun _ => g.dispatches_generateExit _ _) fun _ =>
      .ite (fun _ => g.dispatches_generateExit _ _) fun _ =>
        .bind (g.dispatches_loadImmediate _ _) fun _ => .bind dispatches_flushCurrentRegisters fun _ =>
          .bind (g.dispatches_generateValidatedBranch _) fun _ => dispatches_addPendingExit _ _ _ _

theorem dispatches_generateDynamicBranch (targetPc scratch : A64R) :
    Dispatches (g.generateDynamicBranch targetPc scratch) := by
  have exits (outOfBounds unaligned : Nat) : Dispatches (do
      addPendingExitRegister outOfBounds .outOfBoundsPc false targetPc
      addPendingExitRegister unaligned .unalignedPc false targetPc) :=
    .bind (dispatches_addPendingExitRegister _ _ _ _) fun _ => dispatches_addPendingExitRegister _ _ _ _
  refine .bind (dispatches_verify _ _) fun _ => .bind (.modifyGet _) fun _ => .bind (.modifyGet _) fun _ =>
    .bind (dispatches_ins _) fun _ => .bind dispatches_flushCurrentRegisters fun _ =>
      .bind (dispatches_ins _) fun _ => .bind (dispatches_ins _) fun _ => .bind (dispatches_ins _) fun _ =>
        .bind (dispatches_ins _) fun _ => .ite (fun _ => ?_) fun _ => ?_
  · exact .bind (g.dispatches_generateExitRegister _ _) fun _ => exits _ _
  · exact .bind (g.dispatches_generateValidatedBranch _) fun _ =>
      .bind (dispatches_addPendingExitRegister _ _ _ _) fun _ => exits _ _

/-- The masks of the four sizes. -/
theorem dispatches_loadMemoryPermissionMask (target : A64R) (flag : MemoryFlags) {accessSizeLog2 : Nat}
    (small : accessSizeLog2 ≤ 3) :
    Dispatches (loadMemoryPermissionMask target flag accessSizeLog2) := by
  obtain rfl | rfl | rfl | rfl : accessSizeLog2 = 0 ∨ accessSizeLog2 = 1 ∨ accessSizeLog2 = 2 ∨
      accessSizeLog2 = 3 := by omega
  all_goals exact .bind (dispatches_ins _) fun _ => .pure _

theorem dispatches_generateValidateMemoryAccess (address scratch1 scratch2 : A64R) {accessSizeLog2 : Nat}
    (small : accessSizeLog2 ≤ 3) (write : Bool) :
    Dispatches (g.generateValidateMemoryAccess address scratch1 scratch2 accessSizeLog2 write) := by
  have load : ∃ j, permissionLoad scratch1 address accessSizeLog2 = .ok j := by
    obtain rfl | rfl | rfl | rfl : accessSizeLog2 = 0 ∨ accessSizeLog2 = 1 ∨ accessSizeLog2 = 2 ∨
        accessSizeLog2 = 3 := by omega
    all_goals exact ⟨_, rfl⟩
  obtain ⟨j, load⟩ := load
  -- from the last test to the first: permissions, bound, alignment
  have permissions : ∀ l, Dispatches (do
      if !g.flags.skipPermissionChecks then
        ins (← liftExcept (permissionLoad scratch1 address accessSizeLog2))
        let flag := if write then MemoryFlags.write else MemoryFlags.read
        let truncate ← loadMemoryPermissionMask scratch2 flag accessSizeLog2
        let width : Width := if truncate then .w32 else .w64
        ins (.alu .and width scratch1 scratch1 scratch2)
        ins (.cmp width scratch1 scratch2)
        ins (.b .notEqual l)
      addPendingExit l (if write then .memoryWriteFault else .memoryReadFault) true g.currentPc) :=
    fun _ => .ite (fun _ => .bind (dispatches_liftExcept load) fun _ => .bind (dispatches_ins _) fun _ =>
      .bind (dispatches_loadMemoryPermissionMask _ _ small) fun _ => .bind (dispatches_ins _) fun _ =>
        .bind (dispatches_ins _) fun _ => .bind (dispatches_ins _) fun _ =>
          dispatches_addPendingExit _ _ _ _)
      fun _ => dispatches_addPendingExit _ _ _ _
  have bound : ∀ l, Dispatches _ := fun l =>
    .bind (dispatches_ins (.cmp .w64 address RA.memorySize)) fun _ =>
      .bind (dispatches_ins (.b .unsignedGreaterEqual l)) fun _ => permissions l
  exact .bind (.modifyGet _) fun l => .ite
    (fun _ => .bind (dispatches_ins _) fun _ => .bind (dispatches_ins _) fun _ => bound l)
    fun _ => bound l

/-! ### Instructions -/

/-- The code that writes the destination is given as many operands as were asked for. -/
theorem dispatches_withRegisters (reads : List Register) (rd : Register)
    {write : List A64R → A64R → Gen Unit}
    (writes : ∀ operands dest, operands.length = reads.length → Dispatches (write operands dest)) :
    Dispatches (g.withRegisters reads rd write) := by
  refine .bind_yields (dispatches_lockRegisters _ _) (yields_lockRegisters _ _) fun locked same => ?_
  have operands : locked.dropLast.length = reads.length := by
    rw [List.length_dropLast, same, List.length_append, List.length_map, List.length_singleton,
      Nat.add_sub_cancel]
  exact .bind (writes _ _ operands) fun _ => .bind (dispatches_unlockRegisters _) fun _ =>
    dispatches_unlockRegister _ _

theorem dispatches_withDestination (rd : Register) {write : A64R → Gen Unit}
    (writes : ∀ dest, Dispatches (write dest)) : Dispatches (g.withDestination rd write) :=
  g.dispatches_withRegisters [] rd fun _ dest _ => writes dest

theorem dispatches_withOperand (rs1 rd : Register) {write : A64R → A64R → Gen Unit}
    (writes : ∀ a dest, Dispatches (write a dest)) : Dispatches (g.withOperand rs1 rd write) := by
  refine g.dispatches_withRegisters [rs1] rd fun operands dest one => ?_
  obtain ⟨a, rfl⟩ := List.length_eq_one_iff.mp one
  exact writes a dest

theorem dispatches_withOperands (rs1 rs2 rd : Register) {write : A64R → A64R → A64R → Gen Unit}
    (writes : ∀ a b dest, Dispatches (write a b dest)) : Dispatches (g.withOperands rs1 rs2 rd write) := by
  refine g.dispatches_withRegisters [rs1, rs2] rd fun operands dest two => ?_
  obtain ⟨a, b, rfl⟩ := List.length_eq_two.mp two
  exact writes a b dest

variable {i : Instruction}

theorem dispatches_generateLoad (kind : isLoad i.type = true) : Dispatches (g.generateLoad i) := by
  refine g.dispatches_withOperand _ _ fun a dest => ?_
  obtain ⟨size, small⟩ := memoryAccessSizeLog2_eq (Or.inl kind)
  have chosen : ∀ address, ∃ j, loadInstr dest address i.type = .ok j := fun address => by
    cases type : i.type <;> first | exact ⟨_, rfl⟩ | exact absurd (type ▸ kind) (by decide)
  have load : ∀ address, Dispatches (do ins (← liftExcept (loadInstr dest address i.type))) :=
    fun address => by
      obtain ⟨j, chosen⟩ := chosen address
      exact .bind (dispatches_liftExcept chosen) fun _ => dispatches_ins _
  refine .bind (g.dispatches_addOffsetToRegister _ _ _) fun address => ?_
  exact .bind_yields (dispatches_liftExcept size) (yields_liftExcept size) fun _ same =>
    .bind (g.dispatches_generateValidateMemoryAccess _ _ _ (same ▸ small) _) fun _ => load address

theorem dispatches_generateStore (kind : isStore i.type = true) : Dispatches (g.generateStore i) := by
  refine .bind_yields (dispatches_lockRegisters _ _) (yields_lockRegisters _ _) fun locked two => ?_
  obtain ⟨a, value, rfl⟩ := List.length_eq_two.mp two
  obtain ⟨size, small⟩ := memoryAccessSizeLog2_eq (Or.inr kind)
  have chosen : ∀ address, ∃ j, storeInstr value address i.type = .ok j := fun address => by
    cases type : i.type <;> first | exact ⟨_, rfl⟩ | exact absurd (type ▸ kind) (by decide)
  refine .bind (g.dispatches_addOffsetToRegister _ _ _) fun address => ?_
  obtain ⟨j, chosen⟩ := chosen address
  exact .bind_yields (dispatches_liftExcept size) (yields_liftExcept size) fun _ same =>
    .bind (g.dispatches_generateValidateMemoryAccess _ _ _ (same ▸ small) _) fun _ =>
      .bind (dispatches_liftExcept chosen) fun _ => .bind (dispatches_ins _) fun _ =>
        dispatches_unlockRegisters _

theorem dispatches_tryImmediate {op : AluOp} (known : immediateOp i.type = .ok op) (a dest : A64R) :
    Dispatches (g.tryImmediate i a dest) := by
  have finish : ∀ succeeded : Bool, Dispatches (do
      if succeeded ∧ i.type = .addiw then ins (.sxtw dest dest)
      pure succeeded) :=
    fun _ => .ite (fun _ => .bind (dispatches_ins _) fun _ => .pure _) fun _ => .pure _
  refine .bind (dispatches_liftExcept known) fun _ => .ite (fun _ => ?_) fun _ =>
    .ite (fun _ => .bind (dispatches_ins _) fun _ => .pure _) fun _ => .pure _
  exact .ite (fun _ => .bind (dispatches_ins _) fun _ => .bind (.pure _) finish) fun _ =>
    .ite (fun _ => .bind (g.dispatches_loadImmediate _ _) fun _ => .bind (.pure _) finish) fun _ =>
      .ite (fun _ => .bind (dispatches_ins _) fun _ => .bind (.pure _) finish) fun _ =>
        .bind (.pure _) finish

theorem dispatches_generateImmediate {op : AluOp} (known : immediateOp i.type = .ok op) :
    Dispatches (g.generateImmediate i) := by
  refine g.dispatches_withOperand _ _ fun a dest => .bind (g.dispatches_tryImmediate known a dest) fun _ =>
    .ite (fun _ => ?_) fun _ => .pure _
  exact .bind (g.dispatches_loadImmediateOrZero _ _) fun _ => .bind (dispatches_liftExcept known) fun _ =>
    .bind (dispatches_ins _) fun _ => .ite (fun _ => dispatches_ins _) fun _ => .pure _

theorem dispatches_extendResult (width : Width) (dest : A64R) : Dispatches (extendResult width dest) := by
  cases width
  · exact dispatches_ins _
  · exact .pure _

theorem dispatches_generateShiftImmediate {shift : ShiftOp × Width} (known : shiftOp i.type = .ok shift) :
    Dispatches (g.generateShiftImmediate i) :=
  g.dispatches_withOperand _ _ fun _ _ => .bind (dispatches_liftExcept known) fun _ =>
    .bind (dispatches_ins _) fun _ => dispatches_extendResult _ _

theorem dispatches_generateCompare : Dispatches (g.generateCompare i) :=
  g.dispatches_withOperands _ _ _ fun _ _ _ => .bind (dispatches_ins _) fun _ => dispatches_ins _

theorem dispatches_generateCompareImmediate : Dispatches (g.generateCompareImmediate i) := by
  refine .ite (fun _ => ?_) fun _ => ?_
  · exact g.dispatches_withDestination _ fun dest => g.dispatches_loadImmediate _ _
  · exact g.dispatches_withOperand _ _ fun a dest => .ite
      (fun _ => .bind (dispatches_ins _) fun _ => dispatches_ins _)
      fun _ => .bind (g.dispatches_loadImmediateOrZero _ _) fun _ => .bind (dispatches_ins _) fun _ =>
        dispatches_ins _

theorem dispatches_generateRegister
    (known : ∀ dest a b, ∃ j, registerInstr dest a b i.type = .ok j) :
    Dispatches (g.generateRegister i) := by
  refine g.dispatches_withOperands _ _ _ fun a b dest => ?_
  obtain ⟨j, known⟩ := known dest a b
  exact .bind (dispatches_liftExcept known) fun _ => .bind (dispatches_ins _) fun _ =>
    dispatches_extendResult _ _

theorem dispatches_mulDivCode (dest a b : A64R)
    (kind : i.type = .mul ∨ i.type = .mulw ∨ isDivision i.type = true) :
    Dispatches (mulDivCode dest a b i.type) := by
  have quotient (signed : Bool) (width : Width) : Dispatches (do
      ins (.div signed width dest a b)
      extendResult width dest) :=
    .bind (dispatches_ins _) fun _ => dispatches_extendResult _ _
  have remainder (signed : Bool) (width : Width) : Dispatches (do
      ins (.div signed width RA.a a b)
      ins (.msub width dest RA.a b a)
      extendResult width dest) :=
    .bind (dispatches_ins _) fun _ => .bind (dispatches_ins _) fun _ => dispatches_extendResult _ _
  unfold mulDivCode
  cases type : i.type <;> rw [type] at kind
  case mul => exact dispatches_ins _
  case mulw => exact .bind (dispatches_ins _) fun _ => dispatches_extendResult _ _
  all_goals first
    | exact quotient _ _
    | exact remainder _ _
    | simp [isDivision] at kind

theorem dispatches_jalr (kind : i.type = .jalr) : Dispatches (g.generateInstruction i) := by
  -- the jump, behind the link if there is one
  have rest : ∀ target offseted, Dispatches (do
      g.generateDynamicBranch offseted RA.b
      unlockRegister target false
      pure false) :=
    fun _ _ => .bind (g.dispatches_generateDynamicBranch _ _) fun _ =>
      .bind (dispatches_unlockRegister _ _) fun _ => .pure _
  have link : ∀ target offseted dest, Dispatches (do
      g.loadImmediate dest (g.currentPc + 4)
      unlockRegister dest true
      let offseted ← pure offseted
      g.generateDynamicBranch offseted RA.b
      unlockRegister target false
      pure false) :=
    fun _ _ _ => .bind (g.dispatches_loadImmediate _ _) fun _ =>
      .bind (dispatches_unlockRegister _ _) fun _ => .bind (.pure _) fun _ => rest _ _
  simp only [generateInstruction, kind]
  refine .bind_yields (dispatches_lockRegisters _ _) (yields_lockRegisters _ _) fun locked one => ?_
  obtain ⟨target, rfl⟩ := List.length_eq_one_iff.mp one
  refine .bind (g.dispatches_addOffsetToRegister _ _ _) fun offseted => .ite (fun _ => ?_) fun _ => ?_
  · refine .bind_yields (dispatches_lockRegisters _ _) (yields_lockRegisters _ _) fun locked one => ?_
    obtain ⟨dest, rfl⟩ := List.length_eq_one_iff.mp one
    exact .ite (fun _ => .bind (dispatches_ins _) fun _ => .bind (.pure _) fun _ => link _ _ _)
      fun _ => .bind (.pure _) fun _ => link _ _ _
  · exact .bind (.pure _) fun _ => rest _ _

theorem dispatches_branch (kind : isBranch i.type = true) : Dispatches (g.generateInstruction i) := by
  have chosen : ∃ condition, skipCondition i.type = .ok condition := by
    cases type : i.type <;> first | exact ⟨_, rfl⟩ | exact absurd (type ▸ kind) (by decide)
  obtain ⟨condition, chosen⟩ := chosen
  rw [generateInstruction_branch g kind chosen]
  refine .bind_yields (dispatches_lockRegisters _ _) (yields_lockRegisters _ _) fun locked two => ?_
  obtain ⟨a, b, rfl⟩ := List.length_eq_two.mp two
  exact .bind (.modifyGet _) fun _ => .bind (dispatches_ins _) fun _ => .bind (dispatches_ins _) fun _ =>
    .bind (g.dispatches_generateStaticBranch _ _) fun _ => .bind (.emit _) fun _ =>
      .bind (dispatches_unlockRegisters _) fun _ => .pure _

theorem dispatches_computation (kind : isComputation i.type = true) :
    Dispatches (g.generateInstruction i) := by
  have unlessZero : ∀ {x : Gen Unit}, Dispatches x → Dispatches (do
      if i.rd ≠ Register.zero then x
      pure true) := fun dispatches =>
    .ite (fun _ => .bind dispatches fun _ => .pure _) fun _ => .pure _
  have constant : ∀ v, Dispatches (g.withDestination i.rd fun dest => g.loadImmediate dest v) :=
    fun _ => g.dispatches_withDestination _ fun _ => g.dispatches_loadImmediate _ _
  have immediate : ∀ op, immediateOp i.type = .ok op → Dispatches (g.generateImmediate i) :=
    fun op known => g.dispatches_generateImmediate known
  have shift : ∀ shift, shiftOp i.type = .ok shift → Dispatches (g.generateShiftImmediate i) :=
    fun shift known => g.dispatches_generateShiftImmediate known
  have register : (∀ dest a b, ∃ j, registerInstr dest a b i.type = .ok j) →
      Dispatches (g.generateRegister i) := g.dispatches_generateRegister
  have mulDiv : i.type = .mul ∨ i.type = .mulw ∨ isDivision i.type = true → Dispatches (do
      if i.rd ≠ Register.zero then do
        g.withOperands i.rs1 i.rs2 i.rd fun a b dest => mulDivCode dest a b i.type
        pure true
      else do
        g.generateExit .unsupportedInstruction g.currentPc
        pure false) := fun known =>
    .ite (fun _ => .bind (g.dispatches_withOperands _ _ _ fun _ _ _ => dispatches_mulDivCode _ _ _ known)
      fun _ => .pure _) fun _ => .bind (g.dispatches_generateExit _ _) fun _ => .pure _
  unfold generateInstruction
  -- each type runs one of seven generators
  cases type : i.type <;> rw [type] at kind immediate shift register mulDiv
  case lui | auipc => exact unlessZero (constant _)
  case addi | xori | ori | andi | addiw => exact unlessZero (immediate _ rfl)
  case slli | srli | srai | slliw | srliw | sraiw => exact unlessZero (shift _ rfl)
  case slt | sltu => exact unlessZero g.dispatches_generateCompare
  case slti | sltiu => exact unlessZero g.dispatches_generateCompareImmediate
  case add | sub | xor | or | and | sll | srl | sra | addw | subw | sllw | srlw | sraw =>
    exact unlessZero (register fun _ _ _ => ⟨_, rfl⟩)
  case mul | mulw | div | divw | divu | divuw | rem | remu | remw | remuw => exact mulDiv (by decide)
  all_goals exact absurd kind (by decide)

/-- The generator has code, or an exit, for every instruction. -/
theorem dispatches_generateInstruction (i : Instruction) : Dispatches (g.generateInstruction i) := by
  rcases instruction_family i.type with kind | kind | kind | ⟨reason, kind⟩ | kind | kind | kind | kind
  · rw [generateInstruction_load g kind]
    exact .ite (fun _ => .bind (g.dispatches_generateLoad kind) fun _ => .pure _) fun _ => .pure _
  · rw [generateInstruction_store g kind]
    exact .bind (g.dispatches_generateStore kind) fun _ => .pure _
  · exact g.dispatches_branch kind
  · rw [generateInstruction_exit g kind]
    exact .bind (g.dispatches_generateExit _ _) fun _ => .pure _
  · have branch : Dispatches (do g.generateStaticBranch (g.currentPc + i.imm) RA.a; pure false) :=
      .bind (g.dispatches_generateStaticBranch _ _) fun _ => .pure _
    rw [generateInstruction_jal g kind]
    exact .ite (fun _ => .bind (g.dispatches_withDestination _ fun _ => g.dispatches_loadImmediate _ _)
      fun _ => branch) fun _ => branch
  · exact g.dispatches_jalr kind
  · rw [generateInstruction_fence g kind]
    exact .pure _
  · exact g.dispatches_computation kind

end CodeGenerator

end Riscv64Emulator.Jit.Aarch64
