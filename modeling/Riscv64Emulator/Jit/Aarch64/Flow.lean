import Riscv64Emulator.Jit.Aarch64.Refinement
import Riscv64Emulator.Jit.Stretch
import Riscv64Emulator.Lib.EmittedFlow

/-!
# The control flow of AArch64 code

As for x64. The code that moves registers in and out of the cache and that flushes it is
straight-line code.
-/
namespace Riscv64Emulator.Jit.Aarch64

open LinearCode RegisterCache CodeGenerator

/-- Where control can go behind a host instruction. -/
def control : Instr → Control
  | .b _ l | .cbz _ l => .branch l
  | .br _ | .ret => .leave
  | _ => .next

theorem classifies_step (env : Env) : Classifies control (step env) := by
  intro i s
  cases i <;> simp only [step] <;> (repeat' split) <;> first | rfl | trivial

theorem control_immediateInstr (platform : Platform) (basePc : Word) (t : A64R) (v : Word) :
    control (immediateInstr platform basePc t v) = .next := by
  unfold immediateInstr
  dsimp only
  split <;> rfl

abbrev Flows {α : Type} (p : Point) (x : Gen α) (q : α → Point) : Prop :=
  Emitter.Flows control PendingExit.label GenState.nextLabel p x q

variable {p : Point}

theorem flows_ins {i : Instr} (plain : control i = .next) : Flows p (ins i) fun _ => p :=
  .ite (fun _ => .instr (fun _ live => live) (fun l target => by rw [plain] at target; cases target) rfl)
    fun _ => .fail

theorem flows_ins_branch {i : Instr} {l : Nat} (branch : control i = .branch l)
    (pending : l ∈ p.pending) : Flows p (ins i) fun _ => p :=
  .ite (fun _ => .instr (fun _ live => live)
    (fun k target => by rw [branch] at target; exact Option.some.inj target ▸ pending) rfl) fun _ => .fail

theorem flows_ins_leave {i : Instr} (leave : control i = .leave) :
    Flows p (ins i) fun _ => ⟨False, p.pending⟩ :=
  .ite (fun _ => .instr (fun falls => by rw [leave] at falls; cases falls)
    (fun l target => by rw [leave] at target; cases target) rfl) fun _ => .fail

theorem flows_allocateLabel {β : Type} {f : Nat → Gen β} {r : β → Point}
    (rest : ∀ l ∉ p.pending, Flows ⟨p.live, insert l p.pending⟩ (f l) r) :
    Flows p (allocateLabel >>= f) r :=
  .allocate (fun _ _ ran => by cases ran; exact ⟨rfl, rfl, rfl, rfl⟩) rest

theorem flows_verify (condition : Bool) (message : String) : Flows p (verify condition message) fun _ => p :=
  .ite (fun _ => .pure _ rfl) fun _ => .fail

theorem flows_liftExcept {α : Type} (x : Except Abort α) : Flows p (liftExcept x) fun _ => p := by
  cases x with
  | ok a => exact .pure a rfl
  | error e => exact .fail

/-! ### The register cache -/

theorem flows_getCache : Flows p getCache fun _ => p :=
  .silent fun _ _ ran => by cases ran; exact ⟨rfl, rfl, rfl, rfl⟩

theorem flows_modifyCache (f : RegisterCache → RegisterCache) : Flows p (modifyCache f) fun _ => p :=
  .silent fun _ _ ran => by cases ran; exact ⟨rfl, rfl, rfl, rfl⟩

theorem flows_evictAll (ids : List SlotId) : Flows p (evictAll ids) fun _ => p := by
  induction ids with
  | nil => exact .pure _ rfl
  | cons id rest ih =>
    have evicts : Flows p (evict id) fun _ => p := .bind flows_getCache fun _ =>
      .ite (fun _ => .bind (flows_ins rfl) fun _ => flows_modifyCache _) fun _ => flows_modifyCache _
    exact .bind evicts fun _ => ih

theorem flows_reserveRegisters (platform : Platform) (registers : List RegisterToLock) :
    Flows p (reserveRegisters platform registers) fun _ => p := by
  have frees : ∀ count, Flows p (freeCacheSlots platform count) fun _ => p := fun _ =>
    .bind flows_getCache fun _ => .bind (flows_verify _ _) fun _ => flows_evictAll _
  exact .bind flows_getCache fun _ => .bind (flows_modifyCache _) fun _ =>
    .ite (fun _ => frees _) fun _ => .pure _ rfl

theorem flows_acquireCacheSlot : Flows p acquireCacheSlot fun _ => p := by
  refine .bind flows_getCache fun cache => ?_
  split
  · exact .fail
  · exact .bind (flows_modifyCache _) fun _ => .pure _ rfl

theorem flows_lockOne (reads : List Register) (r : Register) :
    Flows p (lockOne reads r) fun _ => p := by
  refine .ite (fun _ => .pure _ rfl) fun _ => .bind flows_getCache fun cache => ?_
  split
  · exact .bind (flows_modifyCache _) fun _ => .pure _ rfl
  · exact .bind flows_acquireCacheSlot fun _ => .bind (flows_modifyCache _) fun _ =>
      .ite (fun _ => .bind (flows_ins rfl) fun _ => .pure _ rfl) fun _ => .pure _ rfl

theorem flows_lockEach (reads : List Register) (registers : List RegisterToLock) :
    Flows p (lockEach reads registers) fun _ => p := by
  induction registers with
  | nil => exact .pure _ rfl
  | cons r rest ih => exact .bind (flows_lockOne _ _) fun _ => .bind ih fun _ => .pure _ rfl

theorem flows_lockRegisters (platform : Platform) (registers : List RegisterToLock) :
    Flows p (lockRegisters platform registers) fun _ => p :=
  .bind (flows_reserveRegisters _ _) fun _ => flows_lockEach _ _

theorem flows_unlockRegister (r : A64R) (makeDirty : Bool) :
    Flows p (unlockRegister r makeDirty) fun _ => p := by
  refine .ite (fun _ => .pure _ rfl) fun _ => ?_
  split
  · exact .fail
  · exact flows_modifyCache _

theorem flows_unlockRegisters (rs : List A64R) : Flows p (unlockRegisters rs) fun _ => p := by
  induction rs with
  | nil => exact .pure _ rfl
  | cons r rest ih => exact .bind (flows_unlockRegister _ _) fun _ => ih

theorem flows_flushSlots (snapshot : StateSnapshot) (ids : List SlotId) :
    Flows p (flushSlots snapshot ids) fun _ => p := by
  induction ids with
  | nil => exact .pure _ rfl
  | cons id rest ih => exact .ite (fun _ => .bind (flows_ins rfl) fun _ => ih) fun _ => ih

theorem flows_flushCurrentRegisters : Flows p flushCurrentRegisters fun _ => p :=
  .bind flows_getCache fun _ => flows_flushSlots _ _

theorem flows_finishInstruction : Flows p finishInstruction fun _ => p :=
  .bind flows_getCache fun _ => .bind (flows_verify _ _) fun _ => flows_modifyCache _

/-! ### Exits and branches -/

theorem flows_exitSnapshot (flush : Bool) : Flows p (exitSnapshot flush) fun _ => p :=
  .bind flows_getCache fun _ => .pure _ rfl

theorem flows_addPendingExit {live : Prop} {pending : Set Nat} {l : Nat} (fresh : l ∉ pending)
    (reason : ArchExitReason) (flush : Bool) (pc : Word) :
    Flows ⟨live, insert l pending⟩ (addPendingExit l reason flush pc) fun _ => ⟨live, pending⟩ :=
  .bind (flows_exitSnapshot flush) fun _ =>
    .conseq (.defers (Set.mem_insert _ _)) (fun _ live => live)
      fun _ => Set.insert_sdiff_self_of_notMem fresh

theorem flows_addPendingExitRegister {live : Prop} {pending : Set Nat} {l : Nat} (fresh : l ∉ pending)
    (reason : ArchExitReason) (flush : Bool) (pc : A64R) :
    Flows ⟨live, insert l pending⟩ (addPendingExitRegister l reason flush pc)
      fun _ => ⟨live, pending⟩ :=
  .bind (flows_exitSnapshot flush) fun _ =>
    .conseq (.defers (Set.mem_insert _ _)) (fun _ live => live)
      fun _ => Set.insert_sdiff_self_of_notMem fresh

section Branches

variable (g : CodeGenerator)

theorem flows_loadImmediate (t : A64R) (v : Word) : Flows p (g.loadImmediate t v) fun _ => p :=
  flows_ins (control_immediateInstr _ _ _ _)

theorem flows_loadImmediateOrZero (t : A64R) (v : Word) :
    Flows p (g.loadImmediateOrZero t v) fun _ => p :=
  .ite (fun _ => .pure _ rfl) fun _ => .bind (flows_loadImmediate g _ _) fun _ => .pure _ rfl

theorem flows_addOffsetToRegister (value scratch : A64R) (offset : Word) :
    Flows p (g.addOffsetToRegister value scratch offset) fun _ => p :=
  .ite (fun _ => .bind (flows_loadImmediate g _ _) fun _ => .pure _ rfl) fun _ =>
    .ite (fun _ => .pure _ rfl) fun _ =>
      .ite (fun _ => .bind (flows_ins rfl) fun _ => .pure _ rfl) fun _ =>
        .bind (flows_loadImmediate g _ _) fun _ => .bind (flows_ins rfl) fun _ => .pure _ rfl

theorem flows_generateExit (reason : ArchExitReason) (pc : Word) :
    Flows p (g.generateExit reason pc) fun _ => ⟨False, p.pending⟩ :=
  .bind flows_flushCurrentRegisters fun _ => .bind (flows_loadImmediate g _ _) fun _ =>
    .bind (flows_loadImmediate g _ _) fun _ => flows_ins_leave rfl

theorem flows_generateExitRegister (reason : ArchExitReason) (pc : A64R) :
    Flows p (g.generateExitRegister reason pc) fun _ => ⟨False, p.pending⟩ :=
  .bind flows_flushCurrentRegisters fun _ => .bind (flows_ins rfl) fun _ =>
    .bind (flows_loadImmediate g _ _) fun _ => flows_ins_leave rfl

theorem flows_loadMemoryPermissionMask (t : A64R) (flag : MemoryFlags) (k : Nat) :
    Flows p (loadMemoryPermissionMask t flag k) fun _ => p := by
  unfold loadMemoryPermissionMask
  split
  all_goals first
    | exact .bind (flows_ins rfl) fun _ => .pure _ rfl
    | exact .fail

theorem flows_generateValidateMemoryAccess (address scratch1 scratch2 : A64R) (k : Nat)
    (write : Bool) :
    Flows p (g.generateValidateMemoryAccess address scratch1 scratch2 k write) fun _ => p := by
  refine flows_allocateLabel fun l fresh => ?_
  have here : l ∈ insert l p.pending := Set.mem_insert _ _
  have exit : Flows ⟨p.live, insert l p.pending⟩
      (addPendingExit l (if write then .memoryWriteFault else .memoryReadFault) true g.currentPc)
      fun _ => p := flows_addPendingExit fresh _ _ _
  -- from the last test to the first, each of which may jump to the one exit
  have permissions : Flows ⟨p.live, insert l p.pending⟩ (do
      if !g.flags.skipPermissionChecks then
        ins (← liftExcept (permissionLoad scratch1 address k))
        let flag := if write then MemoryFlags.write else MemoryFlags.read
        let truncate ← loadMemoryPermissionMask scratch2 flag k
        let width : Width := if truncate then .w32 else .w64
        ins (.alu .and width scratch1 scratch1 scratch2)
        ins (.cmp width scratch1 scratch2)
        ins (.b .notEqual l)
      addPendingExit l (if write then .memoryWriteFault else .memoryReadFault) true g.currentPc)
      fun _ => p := by
    refine .ite (fun _ => .bind_of (F := fun j => control j = .next) (flows_liftExcept _)
      (fun _ _ _ ran => ?_) fun _ plain => .bind (flows_ins plain) fun _ =>
        .bind (flows_loadMemoryPermissionMask _ _ _) fun _ => .bind (flows_ins rfl) fun _ =>
          .bind (flows_ins rfl) fun _ => .bind (flows_ins_branch rfl here) fun _ => exit) fun _ => exit
    unfold permissionLoad at ran
    split at ran <;> cases ran <;> rfl
  have bound : Flows ⟨p.live, insert l p.pending⟩ _ fun _ => p :=
    .bind (flows_ins (i := .cmp .w64 address RA.memorySize) rfl) fun _ =>
      .bind (flows_ins_branch (i := .b .unsignedGreaterEqual l) rfl here) fun _ => permissions
  exact .ite (fun _ => .bind (flows_ins rfl) fun _ => .bind (flows_ins_branch rfl here) fun _ => bound)
    fun _ => bound

/-- The label for a missing block is new, and open behind the branch. -/
theorem flows_generateValidatedBranch (t : A64R) :
    Flows p (g.generateValidatedBranch t) fun l => ⟨False, insert l p.pending⟩ := by
  have branch : Flows p (do
      let noBlockLabel ← allocateLabel
      ins (.cbz t noBlockLabel)
      ins (.alu .add .w64 t RA.codeBase t)
      ins (.br t)
      pure noBlockLabel) fun l => ⟨False, insert l p.pending⟩ :=
    flows_allocateLabel fun _ _ => .bind (flows_ins_branch rfl (Set.mem_insert _ _)) fun _ =>
      .bind (flows_ins rfl) fun _ => .bind (flows_ins_leave rfl) fun _ => .pure _ rfl
  exact .ite (fun _ => .bind (flows_ins rfl) fun _ => branch)
    fun _ => .bind (flows_ins rfl) fun _ => .bind (flows_ins rfl) fun _ => branch

theorem flows_blockBranch {β : Type} {f : Nat → Gen β} {r : β → Point} {t : A64R} (real : t ≠ A64R.xzr)
    (rest : ∀ l ∉ p.pending, Flows ⟨False, insert l p.pending⟩ (f l) r) :
    Flows p (g.generateValidatedBranch t >>= f) r :=
  .bind_of (F := fun l => l ∉ p.pending) (flows_generateValidatedBranch g t)
    (fun c o below ran => by
      rw [run_generateValidatedBranch g real] at ran
      cases ran
      exact fun pending => Nat.lt_irrefl c.nextLabel (below c.nextLabel pending)) rest

theorem flows_generateStaticBranch (target : Word) {scratch : A64R} (real : scratch ≠ A64R.xzr) :
    Flows p (g.generateStaticBranch target scratch) fun _ => ⟨False, p.pending⟩ :=
  .ite (fun _ => flows_generateExit g _ _) fun _ => .ite (fun _ => flows_generateExit g _ _) fun _ =>
    .ite (fun _ => flows_generateExit g _ _) fun _ => .bind (flows_loadImmediate g _ _) fun _ =>
      .bind flows_flushCurrentRegisters fun _ => flows_blockBranch g real fun _ fresh =>
        flows_addPendingExit fresh _ _ _

theorem flows_generateDynamicBranch (target : A64R) {scratch : A64R} (real : scratch ≠ A64R.xzr) :
    Flows p (g.generateDynamicBranch target scratch) fun _ => ⟨False, p.pending⟩ := by
  refine .bind (flows_verify _ _) fun _ => flows_allocateLabel fun o freshO =>
    flows_allocateLabel fun u freshU => ?_
  have openO : o ∈ insert u (insert o p.pending) := by simp
  have openU : u ∈ insert u (insert o p.pending) := by simp
  -- the two tests have an exit each, bound behind the jump
  have exits : Flows ⟨False, insert u (insert o p.pending)⟩ (do
      addPendingExitRegister o .outOfBoundsPc false target
      addPendingExitRegister u .unalignedPc false target) fun _ => ⟨False, p.pending⟩ := by
    obtain ⟨apart, new⟩ := fresh_pair freshO freshU
    rw [Set.insert_comm]
    exact .bind (flows_addPendingExitRegister apart _ _ _) fun _ =>
      flows_addPendingExitRegister new _ _ _
  refine .bind (flows_ins rfl) fun _ => .bind flows_flushCurrentRegisters fun _ =>
    .bind (flows_ins rfl) fun _ => .bind (flows_ins_branch rfl openU) fun _ => .bind (flows_ins rfl) fun _ =>
      .bind (flows_ins_branch rfl openO) fun _ => .ite (fun _ => ?_) fun _ => ?_
  · exact .bind (flows_generateExitRegister g _ _) fun _ => exits
  · exact flows_blockBranch g real fun _ fresh => .bind (flows_addPendingExitRegister fresh _ _ _)
      fun _ => exits

end Branches

/-! ### Instructions -/

section Instructions

variable (g : CodeGenerator) {i : Instruction}

theorem flows_withRegisters (reads : List Register) (rd : Register)
    {write : List A64R → A64R → Gen Unit}
    (flows : ∀ operands dest, Flows p (write operands dest) fun _ => p) :
    Flows p (g.withRegisters reads rd write) fun _ => p :=
  .bind (flows_lockRegisters _ _) fun _ => .bind (flows _ _) fun _ =>
    .bind (flows_unlockRegisters _) fun _ => flows_unlockRegister _ _

theorem flows_withDestination (rd : Register) {write : A64R → Gen Unit}
    (flows : ∀ dest, Flows p (write dest) fun _ => p) :
    Flows p (g.withDestination rd write) fun _ => p :=
  flows_withRegisters g [] rd fun _ dest => flows dest

theorem flows_withOperand (rs1 rd : Register) {write : A64R → A64R → Gen Unit}
    (flows : ∀ a dest, Flows p (write a dest) fun _ => p) :
    Flows p (g.withOperand rs1 rd write) fun _ => p := by
  refine flows_withRegisters g [rs1] rd fun operands dest => ?_
  split
  · exact flows _ _
  · exact .fail

theorem flows_withOperands (rs1 rs2 rd : Register) {write : A64R → A64R → A64R → Gen Unit}
    (flows : ∀ a b dest, Flows p (write a b dest) fun _ => p) :
    Flows p (g.withOperands rs1 rs2 rd write) fun _ => p := by
  refine flows_withRegisters g [rs1, rs2] rd fun operands dest => ?_
  split
  · exact flows _ _ _
  · exact .fail

theorem flows_chosen {x : Except Abort Instr} {f : Instr → Gen Unit}
    (plain : ∀ j, x = .ok j → control j = .next)
    (rest : ∀ j, control j = .next → Flows p (f j) fun _ => p) :
    Flows p (liftExcept x >>= f) fun _ => p := by
  refine .bind_of (F := fun j => control j = .next) (flows_liftExcept x) (fun _ _ _ ran => ?_) rest
  cases x with
  | error e => cases ran
  | ok j =>
    cases ran
    exact plain j rfl

theorem flows_generateLoad : Flows p (g.generateLoad i) fun _ => p := by
  refine flows_withOperand g _ _ fun _ dest => .bind (flows_addOffsetToRegister g _ _ _) fun _ =>
    .bind (flows_liftExcept _) fun _ => .bind (flows_generateValidateMemoryAccess g _ _ _ _ _) fun _ =>
      flows_chosen (fun j chosen => ?_) fun _ plain => flows_ins plain
  unfold loadInstr at chosen
  split at chosen <;> cases chosen <;> rfl

theorem flows_generateStore : Flows p (g.generateStore i) fun _ => p := by
  refine .bind (flows_lockRegisters _ _) fun locked => ?_
  split
  · refine .bind (flows_addOffsetToRegister g _ _ _) fun _ => .bind (flows_liftExcept _) fun _ =>
      .bind (flows_generateValidateMemoryAccess g _ _ _ _ _) fun _ =>
        flows_chosen (fun j chosen => ?_) fun _ plain =>
          .bind (flows_ins plain) fun _ => flows_unlockRegisters _
    unfold storeInstr at chosen
    split at chosen <;> cases chosen <;> rfl
  · exact .fail

theorem flows_tryImmediate (i : Instruction) (a dest : A64R) :
    Flows p (g.tryImmediate i a dest) fun _ => p := by
  have finish : ∀ succeeded : Bool, Flows p (do
      if succeeded ∧ i.type = .addiw then ins (.sxtw dest dest)
      pure succeeded) fun _ => p := fun _ =>
    .ite (fun _ => .bind (flows_ins rfl) fun _ => .pure _ rfl) fun _ => .pure _ rfl
  refine .bind (flows_liftExcept _) fun _ => .ite (fun _ => ?_) fun _ => ?_
  · exact .ite (fun _ => .bind (flows_ins rfl) fun _ => .bind (.pure _ rfl) finish) fun _ =>
      .ite (fun _ => .bind (flows_loadImmediate g _ _) fun _ => .bind (.pure _ rfl) finish) fun _ =>
        .ite (fun _ => .bind (flows_ins rfl) fun _ => .bind (.pure _ rfl) finish)
          fun _ => .bind (.pure _ rfl) finish
  · exact .ite (fun _ => .bind (flows_ins rfl) fun _ => .pure _ rfl) fun _ => .pure _ rfl

theorem flows_extendResult (width : Width) (dest : A64R) :
    Flows p (extendResult width dest) fun _ => p := by
  cases width with
  | w32 => exact flows_ins rfl
  | w64 => exact .pure _ rfl

theorem flows_generateImmediate : Flows p (g.generateImmediate i) fun _ => p :=
  flows_withOperand g _ _ fun _ _ => .bind (flows_tryImmediate g _ _ _) fun _ => .ite
    (fun _ => .bind (flows_loadImmediateOrZero g _ _) fun _ => .bind (flows_liftExcept _) fun _ =>
      .bind (flows_ins rfl) fun _ => .ite (fun _ => flows_ins rfl) fun _ => .pure _ rfl)
    fun _ => .pure _ rfl

theorem flows_generateShiftImmediate : Flows p (g.generateShiftImmediate i) fun _ => p :=
  flows_withOperand g _ _ fun _ _ => .bind (flows_liftExcept _) fun _ => .bind (flows_ins rfl) fun _ =>
    flows_extendResult _ _

theorem flows_generateCompare : Flows p (g.generateCompare i) fun _ => p :=
  flows_withOperands g _ _ _ fun _ _ _ => .bind (flows_ins rfl) fun _ => flows_ins rfl

theorem flows_generateCompareImmediate : Flows p (g.generateCompareImmediate i) fun _ => p :=
  .ite (fun _ => flows_withDestination g _ fun _ => flows_loadImmediate g _ _) fun _ =>
    flows_withOperand g _ _ fun _ _ => .ite (fun _ => .bind (flows_ins rfl) fun _ => flows_ins rfl)
      fun _ => .bind (flows_loadImmediateOrZero g _ _) fun _ => .bind (flows_ins rfl) fun _ => flows_ins rfl

theorem flows_generateRegister : Flows p (g.generateRegister i) fun _ => p := by
  refine flows_withOperands g _ _ _ fun a b dest =>
    .bind_of (F := fun j => control j.1 = .next) (flows_liftExcept _) (fun _ _ _ ran => ?_) fun _ plain =>
      .bind (flows_ins plain) fun _ => flows_extendResult _ _
  unfold registerInstr shiftOp at ran
  cases type : i.type <;> rw [type] at ran <;> cases ran <;> rfl

theorem flows_mulDivCode (dest a b : A64R) (type : InstructionType) :
    Flows p (mulDivCode dest a b type) fun _ => p := by
  unfold mulDivCode
  split
  all_goals first
    | exact flows_ins rfl
    | exact .bind (flows_ins rfl) fun _ => flows_extendResult _ _
    | exact .bind (flows_ins rfl) fun _ => .bind (flows_ins rfl) fun _ => flows_extendResult _ _
    | exact .fail

/-- The two locks of `jalr` move registers only. -/
theorem flows_jalr (kind : i.type = .jalr) :
    Flows ⟨True, ∅⟩ (g.generateInstruction i) fun goesOn => ⟨goesOn = true, ∅⟩ := by
  have jump : ∀ target t : A64R, Flows ⟨True, ∅⟩ (do
      g.generateDynamicBranch target RA.b
      unlockRegister t false
      pure false) fun goesOn => ⟨goesOn = true, ∅⟩ := fun _ _ =>
    .bind (flows_generateDynamicBranch g _ (by decide)) fun _ => .bind (flows_unlockRegister _ _) fun _ =>
      .pure _ (by simp)
  have link : ∀ dest target t : A64R, Flows ⟨True, ∅⟩ (do
      g.loadImmediate dest (g.currentPc + 4)
      unlockRegister dest true
      g.generateDynamicBranch target RA.b
      unlockRegister t false
      pure false) fun goesOn => ⟨goesOn = true, ∅⟩ := fun _ _ _ =>
    .bind (flows_loadImmediate g _ _) fun _ => .bind (flows_unlockRegister _ _) fun _ => jump _ _
  simp only [generateInstruction, kind, Emitter.pure_bind]
  -- the base is locked, then the link register, whose value is loaded before the jump
  refine .bind (flows_lockRegisters _ _) fun locked => ?_
  split
  · refine .bind (flows_addOffsetToRegister g _ _ _) fun _ => .ite (fun _ => ?_) fun _ => jump _ _
    refine .bind (flows_lockRegisters _ _) fun linked => ?_
    split
    · exact .ite (fun _ => .bind (flows_ins rfl) fun _ => link _ _ _) fun _ => link _ _ _
    · exact .fail
  · exact .fail

theorem flows_computation (kind : isComputation i.type = true) :
    Flows ⟨True, ∅⟩ (g.generateInstruction i) fun goesOn => ⟨goesOn = true, ∅⟩ := by
  have unlessZero : ∀ {x : Gen Unit}, Flows ⟨True, ∅⟩ x (fun _ => ⟨True, ∅⟩) →
      Flows ⟨True, ∅⟩ (do
        if i.rd ≠ Register.zero then x
        pure true) fun goesOn => ⟨goesOn = true, ∅⟩ := fun flows =>
    .ite (fun _ => .bind flows fun _ => .pure _ (by simp)) fun _ => .pure _ (by simp)
  -- a product or a division into register zero leaves the block
  have product : Flows ⟨True, ∅⟩
      (if i.rd ≠ Register.zero then do
        g.withOperands i.rs1 i.rs2 i.rd fun a b dest => mulDivCode dest a b i.type
        pure true
      else do
        g.generateExit .unsupportedInstruction g.currentPc
        pure false) fun goesOn => ⟨goesOn = true, ∅⟩ :=
    .ite (fun _ => .bind (flows_withOperands g _ _ _ fun _ _ _ => flows_mulDivCode _ _ _ _) fun _ =>
      .pure _ (by simp)) fun _ => .bind (flows_generateExit g _ _) fun _ => .pure _ (by simp)
  cases type : i.type <;> try exact absurd (type ▸ kind) (by decide)
  all_goals simp only [generateInstruction, type]
  case lui | auipc => exact unlessZero (flows_withDestination g _ fun _ => flows_loadImmediate g _ _)
  case addi | xori | ori | andi | addiw => exact unlessZero (flows_generateImmediate g)
  case slli | srli | srai | slliw | srliw | sraiw => exact unlessZero (flows_generateShiftImmediate g)
  case slt | sltu => exact unlessZero (flows_generateCompare g)
  case slti | sltiu => exact unlessZero (flows_generateCompareImmediate g)
  case add | sub | xor | or | and | sll | srl | sra | addw | subw | sllw | srlw | sraw =>
    exact unlessZero (flows_generateRegister g)
  case mul | mulw | div | divw | divu | divuw | rem | remw | remu | remuw =>
    rw [type] at product
    exact product

/-- Control comes out of an instruction exactly if the block goes on behind it. -/
theorem flows_generateInstruction (i : Instruction) :
    Flows ⟨True, ∅⟩ (g.generateInstruction i) fun goesOn => ⟨goesOn = true, ∅⟩ := by
  -- control falls through exactly where the generator says that the block goes on
  rcases instruction_family i.type with kind | kind | kind | ⟨reason, kind⟩ | kind | kind | kind | kind
  · rw [generateInstruction_load g kind]
    exact .ite (fun _ => .bind (flows_generateLoad g) fun _ => .pure _ (by simp))
      fun _ => .pure _ (by simp)
  · rw [generateInstruction_store g kind]
    exact .bind (flows_generateStore g) fun _ => .pure _ (by simp)
  · obtain ⟨condition, chosen, -⟩ := holds_skipCondition kind
    rw [generateInstruction_branch g kind chosen]
    refine .bind (flows_lockRegisters _ _) fun locked => ?_
    split
    · exact flows_allocateLabel fun l fresh => .bind (flows_ins rfl) fun _ =>
        .bind (flows_ins_branch rfl (Set.mem_insert _ _)) fun _ =>
          .bind (flows_generateStaticBranch g _ (by decide)) fun _ =>
            .bind (.bound (Set.mem_insert _ _)) fun _ => .bind (flows_unlockRegisters _) fun _ =>
              .pure _ (by simp)
    · exact .fail
  · rw [generateInstruction_exit g kind]
    exact .bind (flows_generateExit g _ _) fun _ => .pure _ (by simp)
  · have branch : Flows ⟨True, ∅⟩ (do
        g.generateStaticBranch (g.currentPc + i.imm) RA.a
        pure false) fun goesOn => ⟨goesOn = true, ∅⟩ :=
      .bind (flows_generateStaticBranch g _ (by decide)) fun _ => .pure _ (by simp)
    rw [generateInstruction_jal g kind]
    exact .ite (fun _ => .bind (flows_withDestination g _ fun _ => flows_loadImmediate g _ _) fun _ => branch)
      fun _ => branch
  · exact flows_jalr g kind
  · rw [generateInstruction_fence g kind]
    exact .pure _ (by simp)
  · exact flows_computation g kind

end Instructions

theorem flows_generateBlock (g : CodeGenerator) (fuel : Nat) :
    Flows ⟨True, ∅⟩ (g.generateBlock fuel) fun _ => ⟨False, ∅⟩ := by
  induction fuel generalizing g with
  | zero => exact .fail
  | succ fuel ih =>
    unfold generateBlock
    cases codeAt g.memory g.currentPc with
    | none => exact flows_generateExit g _ _
    | some i =>
      refine .bind (flows_generateInstruction g i) fun goesOn => .bind flows_finishInstruction fun _ => ?_
      cases goesOn with
      | true =>
        simp only [if_true]
        exact .ite (fun _ => flows_generateExit { g with currentPc := g.currentPc + 4 } _ _) fun _ => ih _
      | false => exact .pure _ (by simp)

theorem plain_storeItems (snapshot : StateSnapshot) (ids : List SlotId) :
    Plain control (storeItems snapshot ids) := by
  induction ids with
  | nil => exact .nil
  | cons id rest ih =>
    have split : storeItems snapshot (id :: rest)
        = storeItems snapshot [id] ++ storeItems snapshot rest := by simp [storeItems]
    rw [split]
    refine .append ?_ ih
    by_cases zero : snapshot id = Register.zero
    · simpa [storeItems, zero] using Plain.nil
    · simpa [storeItems, zero] using Plain.cons rfl .nil

/-- The code of a block is closed together with the code of its exits. -/
theorem closed_generateCode (g : CodeGenerator) {fuel : Nat} {code : List (Item Instr)}
    (compiled : g.generateCode fuel = .ok code) : Closed control code := by
  obtain ⟨b, uses⟩ := g.exists_block
  unfold generateCode at compiled
  rw [run_basePc] at compiled
  cases block : (g.generateBlock fuel).run ⟨0, {}⟩ with
  | error e =>
    simp only [block, bind, Except.bind] at compiled
    cases compiled
  | ok o =>
    simp only [block, bind, Except.bind, run_generatePendingExits uses, pure, Except.pure,
      Except.ok.injEq] at compiled
    subst compiled
    have nothing : ∀ l ∈ (⟨True, ∅⟩ : Point).pending, l < 0 := fun l member =>
      absurd member (Set.notMem_empty l)
    have base : Flows ⟨True, ∅⟩ (ins (.movImm RA.basePc g.basePc)) fun _ => ⟨True, ∅⟩ := flows_ins rfl
    have flows := (base ⟨0, {}⟩ _ nothing (run_basePc g.basePc ⟨0, {}⟩)).append nothing
      (flows_generateBlock g fuel ⟨0, {}⟩ o nothing block)
    refine flows.closed (bindsOwn_exitCode b) fun exit => ?_
    let pc : Instr := if exit.pcRegister ≠ A64R.xzr then .mov RA.exitPc exit.pcRegister
      else immediateInstr b.platform b.basePc RA.exitPc exit.pcValue
    -- the target is in a register or is loaded as a constant; neither jumps
    have plain : control pc = .next := by
      by_cases known : exit.pcRegister = A64R.xzr
      · simp only [pc, known, ne_eq, not_true_eq_false, if_false]
        exact control_immediateInstr _ _ _ _
      · simp only [pc, ne_eq, known, not_false_eq_true, if_true]
        rfl
    refine ⟨storeItems exit.snapshot (List.finRange RA.cacheSize) ++ [.instr pc,
      .instr (immediateInstr b.platform b.basePc RA.exitReason exit.reason.code)], .ret, ?_, ?_, rfl⟩
    · simp [exitCode, exitInstrs, exitTail, pc]
    · exact .append (plain_storeItems _ _) (.cons plain (.cons (control_immediateInstr _ _ _ _) .nil))

/-! ### The instructions of a block -/

/-- The host has no code for the instruction. -/
def CompilesToUnsupported (i : Instruction) : Prop :=
  ∀ g : CodeGenerator, g.generateInstruction i = (do
    g.generateExit .unsupportedInstruction g.currentPc
    pure false)

section Results

variable (g : CodeGenerator) {i : Instruction}

theorem returns_of_terminates (ends : Terminates CompilesToUnsupported i) :
    (g.generateInstruction i).Returns false := by
  -- the types the source lists, and those the back end answers by an exit
  rcases ends with listed | unsupported
  · simp only [List.mem_cons, List.not_mem_nil, or_false] at listed
    rcases listed with kind | kind | kind | kind | kind
    · rw [generateInstruction_jal g kind]
      exact .ite (fun _ => .bind fun _ => .bind fun _ => .pure false) fun _ => .bind fun _ => .pure false
    · simp only [generateInstruction, kind, Emitter.pure_bind]
      refine .bind fun locked => ?_
      split
      · refine .bind fun _ => .ite (fun _ => .bind fun linked => ?_)
          fun _ => .bind fun _ => .bind fun _ => .pure false
        split
        · exact .ite (fun _ => .bind fun _ => .bind fun _ => .bind fun _ => .bind fun _ => .bind fun _ =>
            .pure false) fun _ => .bind fun _ => .bind fun _ => .bind fun _ => .bind fun _ => .pure false
        · exact .fail
      · exact .fail
    all_goals
      rw [generateInstruction_exit g (by rw [kind]; rfl)]
      exact .bind fun _ => .pure false
  · rw [unsupported g]
    exact .bind fun _ => .pure false

theorem returns_of_not_terminates (passes : ¬Terminates CompilesToUnsupported i) :
    (g.generateInstruction i).Returns true := by
  have unlessZero : ∀ x : Gen Unit, (do
      if i.rd ≠ Register.zero then x
      pure true).Returns true := fun _ =>
    .ite (fun _ => .bind fun _ => .pure true) fun _ => .pure true
  rcases instruction_family i.type with kind | kind | kind | ⟨reason, kind⟩ | kind | kind | kind | kind
  · rw [generateInstruction_load g kind]
    exact unlessZero _
  · rw [generateInstruction_store g kind]
    exact .bind fun _ => .pure true
  · obtain ⟨condition, chosen, -⟩ := holds_skipCondition kind
    rw [generateInstruction_branch g kind chosen]
    refine .bind fun locked => ?_
    split
    · exact .bind fun _ => .bind fun _ => .bind fun _ => .bind fun _ => .bind fun _ => .bind fun _ =>
        .pure true
    · exact .fail
  -- exits and jumps terminate, so they are not among these
  · refine absurd ?_ passes
    cases reason with
    | unsupportedInstruction => exact Or.inr fun g => generateInstruction_exit g kind
    | _ =>
      refine Or.inl ?_
      cases type : i.type <;> rw [type] at kind <;> first | decide | cases kind
  · exact absurd (Or.inl (by simp [kind])) passes
  · exact absurd (Or.inl (by simp [kind])) passes
  · rw [generateInstruction_fence g kind]
    exact .pure true
  · -- into `x0` the host has no code for a product or a quotient
    have product : (∀ g : CodeGenerator, g.generateInstruction i = if i.rd ≠ Register.zero then do
          g.withOperands i.rs1 i.rs2 i.rd fun a b dest => mulDivCode dest a b i.type
          pure true
        else do
          g.generateExit .unsupportedInstruction g.currentPc
          pure false) → (g.generateInstruction i).Returns true := fun compiled => by
      rw [compiled g]
      refine .ite (fun _ => .bind fun _ => .pure true) fun zero => absurd (Or.inr fun g => ?_) passes
      rw [compiled g, if_neg zero]
    cases type : i.type <;> try exact absurd (type ▸ kind) (by decide)
    case mul | mulw | div | divw | divu | divuw | rem | remw | remu | remuw =>
      exact product fun g => by simp only [generateInstruction, type]
    all_goals
      simp only [generateInstruction, type]
      exact unlessZero _

end Results

namespace CodeGenerator

/-- The code behind the instructions of a stretch. -/
def generateEnd (g : CodeGenerator) : StretchEnd → Gen Unit
  | .terminator => pure ()
  | .unfetchable => g.generateExit .instructionFetchFault g.currentPc
  | .singleStep => g.generateExit .singleStep g.currentPc

/-- The code of a stretch, instruction by instruction. -/
def generateStretch (g : CodeGenerator) : List Instruction → StretchEnd → Gen Unit
  | [], e => g.generateEnd e
  | i :: rest, e => do
    let _ ← g.generateInstruction i
    finishInstruction
    let g' := { g with currentPc := g.currentPc + 4 }
    g'.generateStretch rest e

/-- The generator compiles the stretch at its pc and nothing else. -/
theorem run_generateBlock_stretch (g : CodeGenerator) {pc : Word} {is : List Instruction}
    {e : StretchEnd}
    (stretch : Stretch g.memory (Terminates CompilesToUnsupported) g.singleStep pc is e)
    {fuel : Nat} (enough : is.length < fuel) (c : GenState) :
    (({ g with currentPc := pc } : CodeGenerator).generateBlock fuel).run c
      = (({ g with currentPc := pc } : CodeGenerator).generateStretch is e).run c := by
  obtain ⟨fuel, rfl⟩ : ∃ k, fuel = k + 1 := ⟨fuel - 1, by omega⟩
  induction stretch generalizing fuel c with
  | unfetchable absent => simp only [generateBlock, absent, generateStretch, generateEnd]
  | terminator fetched ends =>
    simp only [generateBlock, fetched, generateStretch]
    refine (returns_of_terminates _ ends).run_bind (fun _ => ?_) c
    rfl
  | single fetched passes stepping =>
    simp only [generateBlock, fetched, generateStretch]
    refine (returns_of_not_terminates _ passes).run_bind (fun _ => ?_) c
    simp only [if_true, stepping, generateEnd]
  | @next pc i rest e fetched passes running _ ih =>
    simp only [generateBlock, fetched, generateStretch]
    refine (returns_of_not_terminates _ passes).run_bind (fun c₁ => ?_) c
    obtain ⟨fuel, rfl⟩ : ∃ k, fuel = k + 1 := ⟨fuel - 1, by simp at enough; omega⟩
    -- both sides close the instruction alike, with the same error if it fails
    cases finished : finishInstruction.run c₁ with
    | error e => rw [Emitter.run_bind_of_error finished, Emitter.run_bind_of_error finished]
    | ok o =>
      rw [Emitter.run_bind_of_ok finished, Emitter.run_bind_of_ok finished]
      simp only [if_true]
      rw [if_neg (by simp [running])]
      exact congrArg _ (ih o.state fuel (by simpa using enough))

end CodeGenerator

end Riscv64Emulator.Jit.Aarch64
