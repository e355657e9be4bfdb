import Riscv64Emulator.Jit.X64.Refinement
import Riscv64Emulator.Jit.Stretch
import Riscv64Emulator.Lib.EmittedFlow

/-!
# The control flow of x64 code

Every function of the generator says which labels are open behind it, and whether control
comes there, so the code of a block is closed. The instructions it is compiled from are a
stretch of the guest's code.
-/
namespace Riscv64Emulator.Jit.X64

open LinearCode

/-- Where control can go behind a host instruction. -/
def control : Instr → Control
  | .jcc _ l => .branch l
  | .jmp l => .jump l
  | .jmpReg _ | .ret => .leave
  | _ => .next

theorem classifies_step (env : Env) : Classifies control (step env) := by
  intro i s
  cases i <;> simp only [step, State.divided] <;> (repeat' split) <;> first | rfl | trivial

abbrev Flows {α : Type} (p : Point) (x : Gen α) (q : α → Point) : Prop :=
  Emitter.Flows control PendingExit.label id p x q

variable {p : Point}

theorem flows_ins {i : Instr} (plain : control i = .next) : Flows p (ins i) fun _ => p :=
  .ite (fun _ => .instr (fun _ live => live) (fun l target => by rw [plain] at target; cases target) rfl)
    fun _ => .fail

theorem flows_ins_branch {c : Condition} {l : Nat} (pending : l ∈ p.pending) :
    Flows p (ins (.jcc c l)) fun _ => p :=
  .ite (fun _ => .instr (fun _ live => live) (fun _ target => Option.some.inj target ▸ pending) rfl)
    fun _ => .fail

theorem flows_ins_leave {i : Instr} (leave : control i = .leave) :
    Flows p (ins i) fun _ => ⟨False, p.pending⟩ :=
  .ite (fun _ => .instr (fun falls => by rw [leave] at falls; cases falls)
    (fun l target => by rw [leave] at target; cases target) rfl) fun _ => .fail

theorem flows_ins_jump {l : Nat} (pending : l ∈ p.pending) :
    Flows p (ins (.jmp l)) fun _ => ⟨False, p.pending⟩ :=
  .ite (fun _ => .instr (fun falls => by cases falls) (fun _ target => Option.some.inj target ▸ pending)
    rfl) fun _ => .fail

theorem flows_allocateLabel {β : Type} {f : Nat → Gen β} {r : β → Point}
    (rest : ∀ l ∉ p.pending, Flows ⟨p.live, insert l p.pending⟩ (f l) r) :
    Flows p (allocateLabel >>= f) r :=
  .allocate (fun _ _ ran => by cases ran; exact ⟨rfl, rfl, rfl, rfl⟩) rest

theorem flows_verify (condition : Bool) (message : String) : Flows p (verify condition message) fun _ => p :=
  .ite (fun _ => .pure _ rfl) fun _ => .fail

theorem flows_liftExcept {α : Type} (x : Except Abort α) : Flows p (liftExcept x) fun _ => p := by
  cases x with
  | ok a => exact .pure a rfl
  | error e => exact .fail

namespace CodeGenerator

/-! ### Operands -/

theorem flows_registerOperand (r : Register) : Flows p (registerOperand r) fun _ => p :=
  .bind (flows_verify _ _) fun _ => .bind (flows_verify _ _) fun _ => .pure _ rfl

theorem flows_registerOperandOrZero (r : Register) : Flows p (registerOperandOrZero r) fun _ => p :=
  .ite (fun _ => .pure _ rfl) fun _ => flows_registerOperand r

theorem flows_loadRegister (t : X64R) (r : Register) (offset : Word) :
    Flows p (loadRegister t r offset) fun _ => p :=
  .ite (fun _ => flows_ins rfl) fun _ => .bind (flows_registerOperand r) fun _ =>
    .bind (flows_ins rfl) fun _ => .ite (fun _ => flows_ins rfl) fun _ => .pure _ rfl

theorem flows_storeRegister (r : Register) (t : X64R) (signExtend : Bool) :
    Flows p (storeRegister r t signExtend) fun _ => p := by
  -- both branches end in the same store
  have store : Flows p (do ins (.mov .bits64 (← registerOperand r) (.reg t))) fun _ => p :=
    .bind (flows_registerOperand r) fun _ => flows_ins rfl
  exact .ite (fun _ => .bind (flows_ins rfl) fun _ => store) fun _ => store

theorem flows_storeImmToRegister (r : Register) (scratch : X64R) (imm : Word) :
    Flows p (storeImmToRegister r scratch imm) fun _ => p := by
  refine .ite (fun _ => .pure _ rfl) fun _ => .ite (fun _ => ?_) fun _ => ?_
  · exact .bind (flows_registerOperand r) fun _ => flows_ins rfl
  · exact .bind (flows_ins rfl) fun _ => .bind (flows_registerOperand r) fun _ => flows_ins rfl

/-! ### Exits and branches -/

theorem flows_generateExit (reason : ArchExitReason) (pc : ExitPc) :
    Flows p (generateExit reason pc) fun _ => ⟨False, p.pending⟩ := by
  cases pc <;> exact .bind (flows_ins rfl) fun _ =>
    .bind (flows_ins rfl) fun _ => flows_ins_leave rfl

/-- The label for a missing block is new, and open behind the branch. -/
theorem flows_generateValidatedBranch (t : X64R) :
    Flows p (generateValidatedBranch t) fun l => ⟨False, insert l p.pending⟩ :=
  flows_allocateLabel fun _ _ => .bind (flows_ins rfl) fun _ => .bind (flows_ins rfl) fun _ =>
    .bind (flows_ins_branch (Set.mem_insert _ _)) fun _ => .bind (flows_ins rfl) fun _ =>
      .bind (flows_ins_leave rfl) fun _ => .pure _ rfl

theorem flows_blockBranch {β : Type} {f : Nat → Gen β} {r : β → Point} (t : X64R)
    (rest : ∀ l ∉ p.pending, Flows ⟨False, insert l p.pending⟩ (f l) r) :
    Flows p (generateValidatedBranch t >>= f) r :=
  .bind_of (F := fun l => l ∉ p.pending) (flows_generateValidatedBranch t)
    (fun n o below ran => by
      rw [run_generateValidatedBranch] at ran
      cases ran
      exact fun pending => Nat.lt_irrefl n (below n pending)) rest

theorem flows_addPendingExit {live : Prop} {pending : Set Nat} {l : Nat} (fresh : l ∉ pending)
    (reason : ArchExitReason) (pc : ExitPc) :
    Flows ⟨live, insert l pending⟩ (addPendingExit l reason pc) fun _ => ⟨live, pending⟩ :=
  .conseq (.defers (Set.mem_insert _ _)) (fun _ live => live)
    fun _ => Set.insert_sdiff_self_of_notMem fresh

variable (g : CodeGenerator)

theorem flows_generateStaticBranch (target : Word) (scratch : X64R) :
    Flows p (g.generateStaticBranch target scratch) fun _ => ⟨False, p.pending⟩ :=
  .ite (fun _ => flows_generateExit _ _) fun _ =>
    .ite (fun _ => flows_generateExit _ _) fun _ =>
      .ite (fun _ => flows_generateExit _ _) fun _ =>
        .bind (flows_ins rfl) fun _ =>
          flows_blockBranch _ fun _ fresh => flows_addPendingExit fresh _ _

theorem flows_generateDynamicBranch (target scratch : X64R) :
    Flows p (g.generateDynamicBranch target scratch) fun _ => ⟨False, p.pending⟩ := by
  -- two labels are open until the exits behind the jump take them
  refine flows_allocateLabel fun u freshU => flows_allocateLabel fun o freshO => ?_
  have openU : u ∈ insert o (insert u p.pending) := by simp
  have exits : Flows ⟨False, insert o (insert u p.pending)⟩ (do
      addPendingExit u .unalignedPc (.register target)
      addPendingExit o .outOfBoundsPc (.register target)) fun _ => ⟨False, p.pending⟩ := by
    obtain ⟨apart, new⟩ := fresh_pair freshU freshO
    rw [Set.insert_comm]
    exact .bind (flows_addPendingExit apart _ _) fun _ => flows_addPendingExit new _ _
  refine .bind (flows_ins rfl) fun _ => .bind (flows_ins_branch openU) fun _ =>
    .bind (flows_ins rfl) fun _ => .bind (flows_ins rfl) fun _ => .bind (flows_ins rfl) fun _ =>
      .bind (flows_ins_branch (by simp)) fun _ => .ite (fun _ => ?_) fun _ => ?_
  · exact .bind (flows_generateExit _ _) fun _ => exits
  · exact flows_blockBranch _ fun _ fresh => .bind (flows_addPendingExit fresh _ _) fun _ => exits

theorem flows_generateValidateMemoryAccess (address scratch1 scratch2 : X64R)
    (accessSizeLog2 : Nat) (write : Bool) :
    Flows p (g.generateValidateMemoryAccess address scratch1 scratch2 accessSizeLog2 write)
      fun _ => p := by
  refine flows_allocateLabel fun l fresh => ?_
  have here : l ∈ insert l p.pending := Set.mem_insert _ _
  have exit : Flows ⟨p.live, insert l p.pending⟩
      (addPendingExit l (if write then .memoryWriteFault else .memoryReadFault) (.value g.currentPc))
      fun _ => p :=
    flows_addPendingExit fresh _ _
  -- behind the bound check, with or without the alignment check in front
  have permissions : Flows ⟨p.live, insert l p.pending⟩ (do
      if !g.flags.skipPermissionChecks then
        let operandSize := operandSizeOf accessSizeLog2
        ins (.mov operandSize (.reg scratch1) (.mem (.baseIndex RA.permissionsBase address 1)))
        let flag := if write then MemoryFlags.write else MemoryFlags.read
        ins (.mov .bits64 (.reg scratch2) (.imm (permissionMask flag (2 ^ accessSizeLog2))))
        ins (.alu .and .bits64 (.reg scratch1) (.reg scratch2))
        ins (.cmp (.reg scratch1) (.reg scratch2))
        ins (.jcc .ne l)
      addPendingExit l (if write then .memoryWriteFault else .memoryReadFault)
        (.value g.currentPc)) fun _ => p :=
    .ite (fun _ => .bind (flows_ins rfl) fun _ => .bind (flows_ins rfl) fun _ =>
      .bind (flows_ins rfl) fun _ => .bind (flows_ins rfl) fun _ =>
        .bind (flows_ins_branch here) fun _ => exit) fun _ => exit
  have bound : Flows ⟨p.live, insert l p.pending⟩ _ fun _ => p :=
    .bind (flows_ins (i := .cmp (.reg address) (.imm g.memory.size)) rfl) fun _ =>
      .bind (flows_ins_branch (c := .ae) here) fun _ => permissions
  exact .ite (fun _ => .bind (flows_ins rfl) fun _ => .bind (flows_ins_branch here) fun _ => bound)
    fun _ => bound

/-! ### Instructions -/

variable {i : Instruction}

theorem flows_generateLoad : Flows p (g.generateLoad i) fun _ => p := by
  refine .bind (flows_loadRegister _ _ _) fun _ => .bind (flows_liftExcept _) fun _ =>
    .bind (g.flows_generateValidateMemoryAccess _ _ _ _ _) fun _ => .bind_of (F := fun j => control j = .next)
      (flows_liftExcept _) (fun _ _ _ ran => ?_) fun _ plain =>
        .bind (flows_ins plain) fun _ => flows_storeRegister _ _ _
  unfold loadInstr at ran
  split at ran <;> cases ran <;> rfl

theorem flows_generateStore : Flows p (g.generateStore i) fun _ => p :=
  .bind (flows_liftExcept _) fun _ => .bind (flows_loadRegister _ _ _) fun _ =>
    .bind (g.flows_generateValidateMemoryAccess _ _ _ _ _) fun _ =>
      .bind (flows_loadRegister _ _ _) fun _ => flows_ins rfl

theorem flows_generateBinaryOperation (type : InstructionType) (op1 op2 : Operand) :
    Flows p (generateBinaryOperation type op1 op2) fun _ => p := by
  unfold generateBinaryOperation
  split
  all_goals first
    | exact flows_ins rfl
    | exact .fail

theorem flows_generateImmediate : Flows p (generateImmediate i) fun _ => p := by
  refine .ite (fun _ => flows_storeImmToRegister _ _ _) fun _ => .ite (fun _ => ?_) fun _ =>
    .ite (fun _ => ?_) fun _ => .ite (fun _ => ?_) fun _ => ?_
  · exact .bind (flows_loadRegister _ _ _) fun _ => flows_storeRegister _ _ _
  · exact .bind (flows_registerOperandOrZero _) fun _ => .bind (flows_ins rfl) fun _ =>
      flows_storeRegister _ _ _
  · exact .bind (flows_registerOperand _) fun _ => flows_generateBinaryOperation _ _ _
  · exact .bind (flows_loadRegister _ _ _) fun _ => .bind (flows_generateBinaryOperation _ _ _) fun _ =>
      flows_storeRegister _ _ _

theorem flows_generateRegister : Flows p (generateRegister i) fun _ => p := by
  have operate : ∀ op2, Flows p (do
      generateBinaryOperation i.type (.reg RA.a) op2
      storeRegister i.rd RA.a (instructionAnyOf i.type [.addw, .subw, .sllw, .srlw, .sraw]))
      fun _ => p := fun _ =>
    .bind (flows_generateBinaryOperation _ _ _) fun _ => flows_storeRegister _ _ _
  refine .ite (fun _ => ?_) fun _ => ?_
  · exact .bind (flows_registerOperand _) fun _ => flows_generateBinaryOperation _ _ _
  · exact .bind (flows_loadRegister _ _ _) fun _ => .ite
      (fun _ => .bind (flows_loadRegister _ _ _) fun _ => .ite (fun _ => .bind (.pure _ rfl) operate)
        fun _ => .bind (flows_registerOperandOrZero _) operate)
      fun _ => .ite (fun _ => .bind (.pure _ rfl) operate)
        fun _ => .bind (flows_registerOperandOrZero _) operate

theorem flows_generateCompare : Flows p (generateCompare i) fun _ => p := by
  have store : Flows p (do
      ins (.setcc (if instructionAnyOf i.type [.sltu, .sltiu] then .b else .l) RA.a)
      storeRegister i.rd RA.a false) fun _ => p :=
    .bind (flows_ins rfl) fun _ => flows_storeRegister _ _ _
  refine .bind (flows_ins rfl) fun _ => .ite (fun _ => ?_) fun _ => ?_
  · exact .bind (flows_registerOperand _) fun _ => .bind (flows_ins rfl) fun _ => store
  · exact .bind (flows_loadRegister _ _ _) fun _ => .bind (flows_registerOperandOrZero _) fun _ =>
      .bind (flows_ins rfl) fun _ => store

theorem flows_generateMultiply : Flows p (generateMultiply i) fun _ => p :=
  .bind (flows_loadRegister _ _ _) fun _ => .bind (flows_loadRegister _ _ _) fun _ =>
    .bind (flows_ins rfl) fun _ => flows_storeRegister _ _ _

/-- The two labels of a division are bound in the order they are allocated in. -/
theorem flows_generateDivide (live : p.live) : Flows p (generateDivide i) fun _ => p := by
  unfold generateDivide
  generalize instructionAnyOf i.type [.divw, .divuw, .remw, .remuw] = word
  generalize instructionAnyOf i.type [.divu, .divuw, .remu, .remuw] = unsigned
  generalize instructionAnyOf i.type [.rem, .remu, .remw, .remuw] = remainder
  dsimp only
  refine .bind (flows_loadRegister _ _ _) fun _ => .bind (flows_loadRegister _ _ _) fun _ =>
    flows_allocateLabel fun go freshGo => flows_allocateLabel fun skip freshSkip => ?_
  have openGo : go ∈ insert skip (insert go p.pending) := by simp
  have openSkip : skip ∈ insert skip (insert go p.pending) := by simp
  have apart : skip ≠ go := fun same => freshSkip (by simp [same])
  have settled : (insert skip (insert go p.pending) \ {go}) \ {skip} = p.pending := by
    obtain ⟨newGo, newSkip⟩ := fresh_pair freshGo freshSkip
    rw [Set.insert_comm, Set.insert_sdiff_self_of_notMem newGo, Set.insert_sdiff_self_of_notMem newSkip]
  -- the division, whether control comes there or jumps to it
  have divide : ∀ comes : Prop, Flows ⟨comes, insert skip (insert go p.pending)⟩ (do
      insertLabel go
      if unsigned then
        ins (.alu .xor (if word then .bits32 else .bits64) (.reg .rdx) (.reg .rdx))
        ins (.div (if word then .bits32 else .bits64) .rbx)
      else
        ins (.cqo (if word then .bits32 else .bits64))
        ins (.idiv (if word then .bits32 else .bits64) .rbx)
      storeRegister i.rd (if remainder then .rdx else .rax) word
      insertLabel skip) fun _ => p := by
    intro comes
    have finish : Flows ⟨True, insert skip (insert go p.pending) \ {go}⟩ (do
        storeRegister i.rd (if remainder then .rdx else .rax) word
        insertLabel skip) fun _ => p :=
      .bind (flows_storeRegister _ _ _) fun _ =>
        .conseq (.bound ⟨openSkip, apart⟩) (fun _ _ => live) fun _ => settled
    exact .bind (.bound openGo) fun _ => .ite
      (fun _ => .bind (flows_ins rfl) fun _ => .bind (flows_ins rfl) fun _ => finish)
      fun _ => .bind (flows_ins rfl) fun _ => .bind (flows_ins rfl) fun _ => finish
  refine .ite (fun _ => ?_) fun _ => divide p.live
  refine .bind (flows_ins rfl) fun _ => .bind (flows_ins_branch openGo) fun _ => .ite
    (fun _ => .bind (flows_ins rfl) fun _ => ?_)
    fun _ => .bind (flows_ins rfl) fun _ => .bind (flows_ins rfl) fun _ => ?_
  all_goals
    exact .bind (flows_ins_branch openGo) fun _ => .bind (flows_storeImmToRegister _ _ _) fun _ =>
      .bind (flows_ins_jump openSkip) fun _ => divide False

theorem flows_computation : Flows p (g.computation i) fun _ => p := by
  unfold computation
  split
  all_goals first
    | exact flows_generateImmediate
    | exact flows_generateRegister
    | exact flows_generateCompare
    | exact flows_generateMultiply
    | exact flows_storeImmToRegister _ _ _

/-- Control comes out of an instruction exactly if the block goes on behind it. -/
theorem flows_generateInstruction (i : Instruction) :
    Flows ⟨True, ∅⟩ (g.generateInstruction i) fun goesOn => ⟨goesOn = true, ∅⟩ := by
  have goesOn : ∀ {x : Gen Unit}, Flows ⟨True, ∅⟩ x (fun _ => ⟨True, ∅⟩) →
      Flows ⟨True, ∅⟩ (do x; pure true) fun goesOn => ⟨goesOn = true, ∅⟩ := fun flows =>
    .bind flows fun _ => .pure _ (by simp)
  have ends : ∀ {x : Gen Unit}, Flows ⟨True, ∅⟩ x (fun _ => ⟨False, ∅⟩) →
      Flows ⟨True, ∅⟩ (do x; pure false) fun goesOn => ⟨goesOn = true, ∅⟩ := fun flows =>
    .bind flows fun _ => .pure _ (by simp)
  have unlessZero : ∀ {x : Gen Unit}, Flows ⟨True, ∅⟩ x (fun _ => ⟨True, ∅⟩) →
      Flows ⟨True, ∅⟩ (do
        if i.rd ≠ Register.zero then x
        pure true) fun goesOn => ⟨goesOn = true, ∅⟩ := fun flows =>
    .ite (fun _ => goesOn flows) fun _ => .pure _ (by simp)
  -- control falls through exactly where the generator says that the block goes on
  rcases instruction_family i.type with kind | kind | kind | ⟨reason, kind⟩ | kind | kind | kind | kind
  · rw [generateInstruction_load g kind]
    exact unlessZero (g.flows_generateLoad)
  · rw [generateInstruction_store g kind]
    exact goesOn g.flows_generateStore
  · rw [generateInstruction_branch g kind]
    refine .bind (flows_loadRegister _ _ _) fun _ => .bind (flows_registerOperandOrZero _) fun _ =>
      .bind (flows_ins rfl) fun _ => flows_allocateLabel fun l fresh => .bind (flows_liftExcept _) fun _ =>
        .bind (flows_ins_branch (Set.mem_insert _ _)) fun _ =>
          .bind (g.flows_generateStaticBranch _ _) fun _ => .bind (.bound (Set.mem_insert _ _)) fun _ =>
            .pure _ ?_
    simp
  · rw [generateInstruction_exit g kind]
    exact ends (flows_generateExit _ _)
  · rw [generateInstruction_jal g kind]
    exact .ite (fun _ => .bind (flows_storeImmToRegister _ _ _) fun _ =>
        ends (g.flows_generateStaticBranch _ _)) fun _ => ends (g.flows_generateStaticBranch _ _)
  · rw [generateInstruction_jalr g kind]
    exact .bind (flows_loadRegister _ _ _) fun _ => .ite
      (fun _ => .bind (flows_storeImmToRegister _ _ _) fun _ => ends (g.flows_generateDynamicBranch _ _))
      fun _ => ends (g.flows_generateDynamicBranch _ _)
  · rw [generateInstruction_fence g kind]
    exact .pure _ (by simp)
  · cases division : isDivision i.type with
    | true =>
      rw [generateInstruction_division g division]
      exact unlessZero (flows_generateDivide trivial)
    | false =>
      have direct : computesDirectly i.type = true := by
        simpa [isComputation, division] using kind
      rw [generateInstruction_computation g direct]
      exact unlessZero g.flows_computation

theorem flows_generateBlock (g : CodeGenerator) (fuel : Nat) :
    Flows ⟨True, ∅⟩ (g.generateBlock fuel) fun _ => ⟨False, ∅⟩ := by
  induction fuel generalizing g with
  | zero => exact .fail
  | succ fuel ih =>
    unfold generateBlock
    cases codeAt g.memory g.currentPc with
    -- a block always ends in an exit or a jump
    | none => exact flows_generateExit _ _
    | some i =>
      refine .bind (g.flows_generateInstruction i) fun goesOn => ?_
      cases goesOn with
      | true =>
        simp only [if_true]
        exact .ite (fun _ => flows_generateExit _ _) fun _ => ih _
      | false => exact .pure _ (by simp)

/-- The code of a block is closed together with the code of its exits. -/
theorem closed_generateCode (g : CodeGenerator) {fuel : Nat} {code : List (Item Instr)}
    (compiled : g.generateCode fuel = .ok code) : Closed control code := by
  unfold generateCode at compiled
  cases block : (g.generateBlock fuel).run 0 with
  | error e => rw [block] at compiled; cases compiled
  | ok o =>
    simp only [block, run_generatePendingExits] at compiled
    cases compiled
    have flows := flows_generateBlock g fuel 0 o (fun l member => absurd member (Set.notMem_empty l)) block
    refine flows.closed bindsOwn_exitCode fun exit => ⟨[_, _], .ret, rfl, ?_, rfl⟩
    exact .cons rfl (.cons rfl .nil)

end CodeGenerator

open CodeGenerator

/-! ### The instructions of a block -/

section Results

variable (g : CodeGenerator) {i : Instruction}

/-- The host has no code for the instruction. -/
def CompilesToUnsupported (i : Instruction) : Prop :=
  ∀ g : CodeGenerator, g.generateInstruction i = (do
    generateExit .unsupportedInstruction (.value g.currentPc)
    pure false)

theorem returns_of_terminates (ends : Terminates CompilesToUnsupported i) :
    (g.generateInstruction i).Returns false := by
  -- the types the source lists, and those the back end answers by an exit
  rcases ends with listed | unsupported
  · simp only [List.mem_cons, List.not_mem_nil, or_false] at listed
    rcases listed with kind | kind | kind | kind | kind
    · rw [generateInstruction_jal g kind]
      exact .ite (fun _ => .bind fun _ => .bind fun _ => .pure false) fun _ => .bind fun _ => .pure false
    · rw [generateInstruction_jalr g kind]
      exact .bind fun _ => .ite (fun _ => .bind fun _ => .bind fun _ => .pure false)
        fun _ => .bind fun _ => .pure false
    all_goals
      rw [generateInstruction_exit g (by rw [kind]; rfl)]
      exact .bind fun _ => .pure false
  · rw [unsupported g]
    exact .bind fun _ => .pure false

theorem returns_of_not_terminates (passes : ¬Terminates CompilesToUnsupported i) :
    (g.generateInstruction i).Returns true := by
  have unlessZero : ∀ x : Gen Unit, (do
      if i.rd ≠ Register.zero then x
      pure true).Returns true := fun _ =>
    .ite (fun _ => .bind fun _ => .pure true) fun _ => .pure true
  rcases instruction_family i.type with kind | kind | kind | ⟨reason, kind⟩ | kind | kind | kind | kind
  · rw [generateInstruction_load g kind]
    exact unlessZero _
  · rw [generateInstruction_store g kind]
    exact .bind fun _ => .pure true
  · rw [generateInstruction_branch g kind]
    exact .bind fun _ => .bind fun _ => .bind fun _ => .bind fun _ => .bind fun _ => .bind fun _ =>
      .bind fun _ => .bind fun _ => .pure true
  -- exits and jumps terminate, so they are not among these
  · refine absurd ?_ passes
    cases reason with
    | unsupportedInstruction => exact Or.inr fun g => generateInstruction_exit g kind
    | _ =>
      refine Or.inl ?_
      cases type : i.type <;> rw [type] at kind <;> first | decide | cases kind
  · exact absurd (Or.inl (by simp [kind])) passes
  · exact absurd (Or.inl (by simp [kind])) passes
  · rw [generateInstruction_fence g kind]
    exact .pure true
  · cases division : isDivision i.type with
    | true =>
      rw [generateInstruction_division g division]
      exact unlessZero _
    | false =>
      have direct : computesDirectly i.type = true := by
        simpa [isComputation, division] using kind
      rw [generateInstruction_computation g direct]
      exact unlessZero _

end Results

namespace CodeGenerator

variable (g : CodeGenerator)

/-- The code behind the instructions of a stretch. -/
def generateEnd : StretchEnd → Gen Unit
  | .terminator => pure ()
  | .unfetchable => generateExit .instructionFetchFault (.value g.currentPc)
  | .singleStep => generateExit .singleStep (.value g.currentPc)

/-- The code of a stretch, instruction by instruction. -/
def generateStretch (g : CodeGenerator) : List Instruction → StretchEnd → Gen Unit
  | [], e => g.generateEnd e
  | i :: rest, e => do
    let _ ← g.generateInstruction i
    let g' := { g with currentPc := g.currentPc + 4 }
    g'.generateStretch rest e

/-- The generator compiles the stretch at its pc and nothing else. -/
theorem run_generateBlock_stretch {pc : Word} {is : List Instruction} {e : StretchEnd}
    (stretch : Stretch g.memory (Terminates CompilesToUnsupported) g.singleStep pc is e)
    {fuel : Nat} (enough : is.length < fuel) (n : Nat) :
    (({ g with currentPc := pc } : CodeGenerator).generateBlock fuel).run n
      = (({ g with currentPc := pc } : CodeGenerator).generateStretch is e).run n := by
  obtain ⟨fuel, rfl⟩ : ∃ k, fuel = k + 1 := ⟨fuel - 1, by omega⟩
  -- on the stretch, whose last constructor says how the block ends
  induction stretch generalizing fuel n with
  | unfetchable absent => simp only [generateBlock, absent, generateStretch, generateEnd]
  | terminator fetched ends =>
    simp only [generateBlock, fetched, generateStretch]
    refine (returns_of_terminates _ ends).run_bind (fun _ => ?_) n
    rfl
  | single fetched passes stepping =>
    simp only [generateBlock, fetched, generateStretch]
    refine (returns_of_not_terminates _ passes).run_bind (fun _ => ?_) n
    simp only [if_true, stepping, generateEnd]
  | @next pc i rest e fetched passes running _ ih =>
    simp only [generateBlock, fetched, generateStretch]
    refine (returns_of_not_terminates _ passes).run_bind (fun c => ?_) n
    obtain ⟨fuel, rfl⟩ : ∃ k, fuel = k + 1 := ⟨fuel - 1, by simp at enough; omega⟩
    simp only [if_true]
    rw [if_neg (by simp [running])]
    exact ih c fuel (by simpa using enough)

/-- A stretch of instructions the generator finds code for is compiled. -/
theorem run_generateStretch {pc : Word} {is : List Instruction} {e : StretchEnd}
    (stretch : Stretch g.memory (Terminates CompilesToUnsupported) g.singleStep pc is e)
    (compilable : ∀ i ∈ is, Compilable g i) (n : Nat) :
    ∃ o, (({ g with currentPc := pc } : CodeGenerator).generateStretch is e).run n = .ok o := by
  -- the instruction at the front has code
  have head {pc : Word} {i : Instruction} (fetched : codeAt g.memory pc = some i)
      (compilable : Compilable g i) (n : Nat) :
      ∃ o, (({ g with currentPc := pc } : CodeGenerator).generateInstruction i).run n = .ok o := by
    obtain ⟨w, -, rfl⟩ := Option.map_eq_some_iff.mp fetched
    exact run_generateInstruction (g := { g with currentPc := pc }) (Instruction.immediateOf_ofWord _)
      ⟨compilable.hasCode, compilable.memory, compilable.blocks⟩ n
  induction stretch generalizing n with
  | @unfetchable pc absent => exact ⟨_, run_generateExit .instructionFetchFault (.value pc) n⟩
  | terminator fetched ends =>
    exact Emitter.exists_run_bind (head fetched (compilable _ List.mem_cons_self) n) fun _ n' =>
      ⟨_, Emitter.run_pure () n'⟩
  | @single pc i fetched passes stepping =>
    exact Emitter.exists_run_bind (head fetched (compilable _ List.mem_cons_self) n) fun _ n' =>
      ⟨_, run_generateExit .singleStep (.value (pc + 4)) n'⟩
  | next fetched passes running _ ih =>
    exact Emitter.exists_run_bind (head fetched (compilable _ List.mem_cons_self) n) fun _ n' =>
      ih (fun i member => compilable i (List.mem_cons_of_mem _ member)) n'

/-- The generator gives up only where a block has an instruction it finds no code for. -/
theorem generateCode_fails {error : Abort} (failed : g.generateCode (blockFuel g.memory) = .error error) :
    ∃ is e, Stretch g.memory (Terminates CompilesToUnsupported) g.singleStep g.currentPc is e ∧
      ∃ i ∈ is, ¬Compilable g i := by
  obtain ⟨is, e, stretch, short⟩ := exists_stretch g.memory (Terminates CompilesToUnsupported)
    g.singleStep g.currentPc
  refine ⟨is, e, stretch, ?_⟩
  by_contra none
  have compilable : ∀ i ∈ is, Compilable g i := fun i member => by
    by_contra lacking
    exact none ⟨i, member, lacking⟩
  obtain ⟨o, ran⟩ := g.run_generateStretch stretch compilable 0
  have block : (g.generateBlock (blockFuel g.memory)).run 0 = .ok o :=
    (g.run_generateBlock_stretch stretch short 0).trans ran
  unfold generateCode at failed
  simp only [block, run_generatePendingExits, bind, Except.bind, pure, Except.pure] at failed
  cases failed

end CodeGenerator

end Riscv64Emulator.Jit.X64
