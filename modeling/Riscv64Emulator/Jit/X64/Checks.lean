import Riscv64Emulator.Jit.X64.Refinement

/-!
# The generator's own checks

`register_operand` rejects `x0` and the pc, and the switches of the generator end in
`unreachable()`. A run that none of these checks stops fails in the assembler at most,
which has no instruction with the operands. Which instructions reach a check is a case
analysis over the functions of the generator: each has one lemma.
-/
namespace Riscv64Emulator.Jit.X64

open LinearCode Emitter

/-- No check of the generator itself stops `x`. -/
abbrev Unchecked {α : Type} (x : Gen α) : Prop := x.FailsOnly (· = .notEncodable)

theorem unchecked_ins (i : Instr) : Unchecked (ins i) :=
  .ite (fun _ => .emit _) fun _ => .fail rfl

theorem unchecked_allocateLabel : Unchecked allocateLabel := .modifyGet _

theorem unchecked_insertLabel (l : Nat) : Unchecked (insertLabel l) := .emit _

theorem unchecked_verify {condition : Bool} (holds : condition = true) (message : String) :
    Unchecked (verify condition message) :=
  .ite (fun _ => .pure _) fun fails => absurd holds fails

theorem unchecked_liftExcept {α : Type} {a : α} {x : Except Abort α} (ok : x = .ok a) :
    Unchecked (liftExcept x) := by
  rw [ok]
  exact .pure a

namespace CodeGenerator

/-! ### Operands -/

theorem unchecked_registerOperand {r : Register} (nonzero : r ≠ Register.zero)
    (below : r ≠ Register.pc) : Unchecked (registerOperand r) :=
  .bind (unchecked_verify (decide_eq_true nonzero) _) fun _ =>
    .bind (unchecked_verify (decide_eq_true below) _) fun _ => .pure _

theorem unchecked_registerOperandOrZero {r : Register} (below : r ≠ Register.pc) :
    Unchecked (registerOperandOrZero r) :=
  .ite (fun _ => .pure _) fun nonzero => unchecked_registerOperand nonzero below

theorem unchecked_loadRegister (t : X64R) {r : Register} (below : r ≠ Register.pc) (offset : Word) :
    Unchecked (loadRegister t r offset) :=
  .ite (fun _ => unchecked_ins _) fun nonzero =>
    .bind (unchecked_registerOperand nonzero below) fun _ =>
      .bind (unchecked_ins _) fun _ => .ite (fun _ => unchecked_ins _) fun _ => .pure _

theorem unchecked_storeRegister {r : Register} (nonzero : r ≠ Register.zero)
    (below : r ≠ Register.pc) (t : X64R) (signExtend : Bool) :
    Unchecked (storeRegister r t signExtend) := by
  have store : Unchecked (do ins (.mov .bits64 (← registerOperand r) (.reg t))) :=
    .bind (unchecked_registerOperand nonzero below) fun _ => unchecked_ins _
  exact .ite (fun _ => .bind (unchecked_ins _) fun _ => store) fun _ => store

theorem unchecked_storeImmToRegister {r : Register} (below : r ≠ Register.pc) (scratch : X64R)
    (imm : Word) : Unchecked (storeImmToRegister r scratch imm) := by
  refine .ite (fun _ => .pure _) fun nonzero => .ite (fun _ => ?_) fun _ => ?_
  · exact .bind (unchecked_registerOperand nonzero below) fun _ => unchecked_ins _
  · exact .bind (unchecked_ins _) fun _ =>
      .bind (unchecked_registerOperand nonzero below) fun _ => unchecked_ins _

/-! ### Exits and branches -/

theorem unchecked_generateExit (reason : ArchExitReason) (pc : ExitPc) :
    Unchecked (generateExit reason pc) := by
  cases pc <;> exact .bind (unchecked_ins _) fun _ =>
    .bind (unchecked_ins _) fun _ => unchecked_ins _

theorem unchecked_generateValidatedBranch (blockIndex : X64R) :
    Unchecked (generateValidatedBranch blockIndex) :=
  .bind unchecked_allocateLabel fun _ => .bind (unchecked_ins _) fun _ =>
    .bind (unchecked_ins _) fun _ => .bind (unchecked_ins _) fun _ =>
      .bind (unchecked_ins _) fun _ => .bind (unchecked_ins _) fun _ => .pure _

variable (g : CodeGenerator)

theorem unchecked_generateStaticBranch (targetPc : Word) (scratch : X64R) :
    Unchecked (g.generateStaticBranch targetPc scratch) :=
  .ite (fun _ => unchecked_generateExit _ _) fun _ =>
    .ite (fun _ => unchecked_generateExit _ _) fun _ =>
      .ite (fun _ => unchecked_generateExit _ _) fun _ =>
        .bind (unchecked_ins _) fun _ =>
          .bind (unchecked_generateValidatedBranch _) fun _ => .defer _

theorem unchecked_generateDynamicBranch (targetPc scratch : X64R) :
    Unchecked (g.generateDynamicBranch targetPc scratch) := by
  have exits : ∀ unaligned outOfBounds, Unchecked (do
      addPendingExit unaligned .unalignedPc (.register targetPc)
      addPendingExit outOfBounds .outOfBoundsPc (.register targetPc)) :=
    fun _ _ => .bind (.defer _) fun _ => .defer _
  refine .bind unchecked_allocateLabel fun _ => .bind unchecked_allocateLabel fun _ =>
    .bind (unchecked_ins _) fun _ => .bind (unchecked_ins _) fun _ =>
      .bind (unchecked_ins _) fun _ => .bind (unchecked_ins _) fun _ =>
        .bind (unchecked_ins _) fun _ => .bind (unchecked_ins _) fun _ => .ite (fun _ => ?_) fun _ => ?_
  · exact .bind (unchecked_generateExit _ _) fun _ => exits _ _
  · exact .bind (unchecked_generateValidatedBranch _) fun _ => .bind (.defer _) fun _ => exits _ _

theorem unchecked_generateValidateMemoryAccess (address scratch1 scratch2 : X64R)
    (accessSizeLog2 : Nat) (write : Bool) :
    Unchecked (g.generateValidateMemoryAccess address scratch1 scratch2 accessSizeLog2 write) := by
  -- from the last test to the first: permissions, bound, alignment
  have permissions : ∀ l, Unchecked (do
      if !g.flags.skipPermissionChecks then
        let operandSize := operandSizeOf accessSizeLog2
        ins (.mov operandSize (.reg scratch1) (.mem (.baseIndex RA.permissionsBase address 1)))
        let flag := if write then MemoryFlags.write else MemoryFlags.read
        ins (.mov .bits64 (.reg scratch2) (.imm (permissionMask flag (2 ^ accessSizeLog2))))
        ins (.alu .and .bits64 (.reg scratch1) (.reg scratch2))
        ins (.cmp (.reg scratch1) (.reg scratch2))
        ins (.jcc .ne l)
      addPendingExit l (if write then .memoryWriteFault else .memoryReadFault) (.value g.currentPc)) :=
    fun _ => .ite (fun _ => .bind (unchecked_ins _) fun _ => .bind (unchecked_ins _) fun _ =>
      .bind (unchecked_ins _) fun _ => .bind (unchecked_ins _) fun _ =>
        .bind (unchecked_ins _) fun _ => .defer _) fun _ => .defer _
  have bound : ∀ l, Unchecked _ := fun l =>
    .bind (unchecked_ins (.cmp (.reg address) (.imm g.memory.size))) fun _ =>
      .bind (unchecked_ins (.jcc .ae l)) fun _ => permissions l
  exact .bind unchecked_allocateLabel fun l => .ite
    (fun _ => .bind (unchecked_ins _) fun _ => .bind (unchecked_ins _) fun _ => bound l)
    fun _ => bound l

/-! ### Instructions -/

variable {i : Instruction}

theorem unchecked_generateLoad (kind : isLoad i.type = true) (nonzero : i.rd ≠ Register.zero) :
    Unchecked (g.generateLoad i) := by
  have chosen : ∃ j, loadInstr RA.b (.mem (.baseIndex RA.memoryBase RA.a 1)) i.type = .ok j := by
    cases type : i.type <;> first | exact ⟨_, rfl⟩ | exact absurd (type ▸ kind) (by decide)
  obtain ⟨j, chosen⟩ := chosen
  exact .bind (unchecked_loadRegister _ i.rs1_ne_pc _) fun _ =>
    .bind (unchecked_liftExcept (memoryAccessSizeLog2_eq (Or.inl kind)).1) fun _ =>
      .bind (g.unchecked_generateValidateMemoryAccess _ _ _ _ _) fun _ =>
        .bind (unchecked_liftExcept chosen) fun _ => .bind (unchecked_ins _) fun _ =>
          unchecked_storeRegister nonzero i.rd_ne_pc _ _

theorem unchecked_generateStore (kind : isStore i.type = true) : Unchecked (g.generateStore i) :=
  .bind (unchecked_liftExcept (memoryAccessSizeLog2_eq (Or.inr kind)).1) fun _ =>
    .bind (unchecked_loadRegister _ i.rs1_ne_pc _) fun _ =>
      .bind (g.unchecked_generateValidateMemoryAccess _ _ _ _ _) fun _ =>
        .bind (unchecked_loadRegister _ i.rs2_ne_pc _) fun _ => unchecked_ins _

theorem unchecked_generateBinaryOperation {op : HostOp} (known : hostOp i.type = some op)
    (op1 op2 : Operand) : Unchecked (generateBinaryOperation i.type op1 op2) := by
  rw [generateBinaryOperation_eq known]
  exact unchecked_ins _

theorem unchecked_generateImmediate {op : HostOp} (known : hostOp i.type = some op)
    (nonzero : i.rd ≠ Register.zero) : Unchecked (generateImmediate i) := by
  refine .ite (fun _ => unchecked_storeImmToRegister i.rd_ne_pc _ _) fun _ =>
    .ite (fun _ => ?_) fun _ => .ite (fun _ => ?_) fun _ => .ite (fun _ => ?_) fun _ => ?_
  · exact .bind (unchecked_loadRegister _ i.rs1_ne_pc _) fun _ =>
      unchecked_storeRegister nonzero i.rd_ne_pc _ _
  · exact .bind (unchecked_registerOperandOrZero i.rs1_ne_pc) fun _ => .bind (unchecked_ins _) fun _ =>
      unchecked_storeRegister nonzero i.rd_ne_pc _ _
  · exact .bind (unchecked_registerOperand nonzero i.rd_ne_pc) fun _ =>
      unchecked_generateBinaryOperation known _ _
  · exact .bind (unchecked_loadRegister _ i.rs1_ne_pc _) fun _ =>
      .bind (unchecked_generateBinaryOperation known _ _) fun _ =>
        unchecked_storeRegister nonzero i.rd_ne_pc _ _

theorem unchecked_generateRegister {op : HostOp} (known : hostOp i.type = some op)
    (nonzero : i.rd ≠ Register.zero) : Unchecked (generateRegister i) := by
  have operate : ∀ op2, Unchecked (do
      generateBinaryOperation i.type (.reg RA.a) op2
      storeRegister i.rd RA.a (instructionAnyOf i.type [.addw, .subw, .sllw, .srlw, .sraw])) :=
    fun _ => .bind (unchecked_generateBinaryOperation known _ _) fun _ =>
      unchecked_storeRegister nonzero i.rd_ne_pc _ _
  -- in place on the destination's slot, or through a scratch register
  refine .ite (fun _ => ?_) fun _ => ?_
  · exact .bind (unchecked_registerOperand nonzero i.rd_ne_pc) fun _ =>
      unchecked_generateBinaryOperation known _ _
  · exact .bind (unchecked_loadRegister _ i.rs1_ne_pc _) fun _ => .ite
      (fun _ => .bind (unchecked_loadRegister _ i.rs2_ne_pc _) fun _ =>
        .ite (fun _ => .bind (.pure _) operate) fun _ =>
          .bind (unchecked_registerOperandOrZero i.rs2_ne_pc) operate)
      fun _ => .ite (fun _ => .bind (.pure _) operate) fun _ =>
        .bind (unchecked_registerOperandOrZero i.rs2_ne_pc) operate

/-- The comparisons with an immediate take the operand of `rs1` unasked. -/
def ComparesZero (i : Instruction) : Prop :=
  i.rd ≠ Register.zero ∧ i.rs1 = Register.zero ∧ (i.type = .slti ∨ i.type = .sltiu)

theorem unchecked_generateCompare (nonzero : i.rd ≠ Register.zero) (hasOperand : ¬ComparesZero i) :
    Unchecked (generateCompare i) := by
  have store : ∀ t, Unchecked (do
      ins (.setcc (if instructionAnyOf i.type [.sltu, .sltiu] then .b else .l) RA.a)
      storeRegister i.rd t false) :=
    fun _ => .bind (unchecked_ins _) fun _ => unchecked_storeRegister nonzero i.rd_ne_pc _ _
  refine .bind (unchecked_ins _) fun _ => .ite (fun hasImm => ?_) fun _ => ?_
  · have type : i.type = .slti ∨ i.type = .sltiu := by simpa [instructionAnyOf] using hasImm
    exact .bind (unchecked_registerOperand (fun zero => hasOperand ⟨nonzero, zero, type⟩) i.rs1_ne_pc)
      fun _ => .bind (unchecked_ins _) fun _ => store _
  · exact .bind (unchecked_loadRegister _ i.rs1_ne_pc _) fun _ =>
      .bind (unchecked_registerOperandOrZero i.rs2_ne_pc) fun _ => .bind (unchecked_ins _) fun _ => store _

theorem unchecked_generateMultiply (nonzero : i.rd ≠ Register.zero) : Unchecked (generateMultiply i) :=
  .bind (unchecked_loadRegister _ i.rs1_ne_pc _) fun _ =>
    .bind (unchecked_loadRegister _ i.rs2_ne_pc _) fun _ => .bind (unchecked_ins _) fun _ =>
      unchecked_storeRegister nonzero i.rd_ne_pc _ _

theorem unchecked_generateDivide (nonzero : i.rd ≠ Register.zero) : Unchecked (generateDivide i) := by
  -- from the end of the sequence backwards
  have finish : ∀ t signExtend l, Unchecked (do
      storeRegister i.rd t signExtend
      insertLabel l) :=
    fun _ _ _ => .bind (unchecked_storeRegister nonzero i.rd_ne_pc _ _) fun _ => unchecked_insertLabel _
  have divide : ∀ (isUnsigned : Bool) operandSize continueDivision skipDivision, Unchecked (do
      insertLabel continueDivision
      if isUnsigned then
        ins (.alu .xor operandSize (.reg .rdx) (.reg .rdx))
        ins (.div operandSize .rbx)
      else
        ins (.cqo operandSize)
        ins (.idiv operandSize .rbx)
      storeRegister i.rd (if instructionAnyOf i.type [.rem, .remu, .remw, .remuw] then .rdx else .rax)
        (instructionAnyOf i.type [.divw, .divuw, .remw, .remuw])
      insertLabel skipDivision) :=
    fun _ _ _ _ => .bind (unchecked_insertLabel _) fun _ => .ite
      (fun _ => .bind (unchecked_ins _) fun _ => .bind (unchecked_ins _) fun _ => finish _ _ _)
      fun _ => .bind (unchecked_ins _) fun _ => .bind (unchecked_ins _) fun _ => finish _ _ _
  have overflow : ∀ (isUnsigned : Bool) operandSize continueDivision skipDivision, Unchecked (do
      ins (.jcc .ne continueDivision)
      storeUimmToRegister i.rd RA.a 0
      ins (.jmp skipDivision)
      insertLabel continueDivision
      if isUnsigned then
        ins (.alu .xor operandSize (.reg .rdx) (.reg .rdx))
        ins (.div operandSize .rbx)
      else
        ins (.cqo operandSize)
        ins (.idiv operandSize .rbx)
      storeRegister i.rd (if instructionAnyOf i.type [.rem, .remu, .remw, .remuw] then .rdx else .rax)
        (instructionAnyOf i.type [.divw, .divuw, .remw, .remuw])
      insertLabel skipDivision) :=
    fun _ _ _ _ => .bind (unchecked_ins _) fun _ =>
      .bind (unchecked_storeImmToRegister i.rd_ne_pc _ _) fun _ => .bind (unchecked_ins _) fun _ =>
        divide _ _ _ _
  refine .bind (unchecked_loadRegister _ i.rs1_ne_pc _) fun _ =>
    .bind (unchecked_loadRegister _ i.rs2_ne_pc _) fun _ => .bind unchecked_allocateLabel fun _ =>
      .bind unchecked_allocateLabel fun _ => .ite (fun _ => ?_) fun _ => divide _ _ _ _
  refine .bind (unchecked_ins _) fun _ => .bind (unchecked_ins _) fun _ => .ite (fun _ => ?_) fun _ => ?_
  · exact .bind (unchecked_ins _) fun _ => overflow _ _ _ _
  · exact .bind (unchecked_ins _) fun _ => .bind (unchecked_ins _) fun _ => overflow _ _ _ _

theorem unchecked_computation (kind : computesDirectly i.type = true) (nonzero : i.rd ≠ Register.zero)
    (hasOperand : ¬ComparesZero i) : Unchecked (g.computation i) := by
  have compare := unchecked_generateCompare nonzero hasOperand
  have multiply := unchecked_generateMultiply nonzero
  have constant : ∀ imm, Unchecked (storeImmToRegister i.rd RA.a imm) :=
    unchecked_storeImmToRegister i.rd_ne_pc _
  have immediate : ∀ op, hostOp i.type = some op → Unchecked (generateImmediate i) := fun op known =>
    unchecked_generateImmediate known nonzero
  have register : ∀ op, hostOp i.type = some op → Unchecked (generateRegister i) := fun op known =>
    unchecked_generateRegister known nonzero
  unfold computation
  -- each type runs one of five generators
  cases type : i.type <;> rw [type] at kind immediate register
  all_goals first
    | exact absurd kind (by decide)
    | exact compare
    | exact multiply
    | exact constant _
    | exact immediate _ rfl
    | exact register _ rfl

/-- Comparing `x0` with an immediate is the only instruction a check stops. -/
theorem unchecked_generateInstruction (hasOperand : ¬ComparesZero i) :
    Unchecked (g.generateInstruction i) := by
  have unlessZero : ∀ {x : Gen Unit}, (i.rd ≠ Register.zero → Unchecked x) →
      Unchecked (do
        if i.rd ≠ Register.zero then x
        pure true) := fun unchecked =>
    .ite (fun nonzero => .bind (unchecked nonzero) fun _ => .pure _) fun _ => .pure _
  rcases instruction_family i.type with kind | kind | kind | ⟨reason, kind⟩ | kind | kind | kind | kind
  · -- a load
    rw [generateInstruction_load g kind]
    exact unlessZero (g.unchecked_generateLoad kind)
  · -- a store
    rw [generateInstruction_store g kind]
    exact .bind (g.unchecked_generateStore kind) fun _ => .pure _
  · -- a conditional branch has a condition
    obtain ⟨c, chosen, -⟩ := holds_fallthroughCondition kind
    rw [generateInstruction_branch g kind]
    exact .bind (unchecked_loadRegister _ i.rs1_ne_pc _) fun _ =>
      .bind (unchecked_registerOperandOrZero i.rs2_ne_pc) fun _ => .bind (unchecked_ins _) fun _ =>
        .bind unchecked_allocateLabel fun _ => .bind (unchecked_liftExcept chosen) fun _ =>
          .bind (unchecked_ins _) fun _ => .bind (g.unchecked_generateStaticBranch _ _) fun _ =>
            .bind (unchecked_insertLabel _) fun _ => .pure _
  · -- an exit
    rw [generateInstruction_exit g kind]
    exact .bind (unchecked_generateExit _ _) fun _ => .pure _
  · -- `jal`, with a link or without
    have branch : Unchecked (do g.generateStaticBranch (g.currentPc + i.imm) RA.a; pure false) :=
      .bind (g.unchecked_generateStaticBranch _ _) fun _ => .pure _
    rw [generateInstruction_jal g kind]
    exact .ite (fun _ => .bind (unchecked_storeImmToRegister i.rd_ne_pc _ _) fun _ => branch)
      fun _ => branch
  · -- `jalr`, likewise
    have branch : Unchecked (do g.generateDynamicBranch RA.a RA.b; pure false) :=
      .bind (g.unchecked_generateDynamicBranch _ _) fun _ => .pure _
    rw [generateInstruction_jalr g kind]
    exact .bind (unchecked_loadRegister _ i.rs1_ne_pc _) fun _ =>
      .ite (fun _ => .bind (unchecked_storeImmToRegister i.rd_ne_pc _ _) fun _ => branch)
        fun _ => branch
  · rw [generateInstruction_fence g kind]
    exact .pure _
  · -- a division, or another computation: here `hasOperand` is needed
    cases division : isDivision i.type with
    | true =>
      rw [generateInstruction_division g division]
      exact unlessZero fun nonzero => unchecked_generateDivide nonzero
    | false =>
      have direct : computesDirectly i.type = true := by
        simpa [isComputation, division] using kind
      rw [generateInstruction_computation g direct]
      exact unlessZero fun nonzero => g.unchecked_computation direct nonzero hasOperand

theorem run_comparesZero (zero : ComparesZero i) (n : Nat) :
    (g.generateInstruction i).run n
      = .error (.verify "cannot get operand for zero register") := by
  obtain ⟨nonzero, source, type⟩ := zero
  -- the operand of a comparison with an immediate is the slot of rs1, and register zero has none
  have stopped : (generateCompare i).run n
      = .error (.verify "cannot get operand for zero register") := by
    rcases type with type | type <;>
      simp [type, source, generateCompare, instructionAnyOf, Emitter.run_bind,
        run_ins (rfl : (Instr.alu .xor .bits64 (.reg RA.a) (.reg RA.a)).encodable = true),
        run_registerOperand_zero]
  have compares : g.computation i = generateCompare i := by
    unfold computation
    rcases type with type | type <;> simp only [type]
  rw [generateInstruction_computation g (by rcases type with type | type <;> rw [type] <;> rfl)]
  simp only [ne_eq, nonzero, not_false_eq_true, if_true, compares]
  exact run_bind_of_error stopped _

end CodeGenerator

open CodeGenerator

/-- The generator stops in a check of its own on exactly the words that compare `x0` with
an immediate. It returns code for exactly those words for which the host instructions it
asks for exist as well. -/
theorem generateInstruction_unchecked_iff (g : CodeGenerator) (w : BitVec 32) :
    (Unchecked (g.generateInstruction (Instruction.ofWord w)) ↔ ¬ComparesZero (Instruction.ofWord w)) ∧
    ((∀ n, ∃ o, (g.generateInstruction (Instruction.ofWord w)).run n = .ok o)
      ↔ Compilable g (Instruction.ofWord w)) := by
  constructor
  · refine ⟨fun unchecked zero => ?_, g.unchecked_generateInstruction⟩
    cases unchecked 0 _ (g.run_comparesZero zero 0)
  · constructor
    · intro succeeds
      obtain ⟨o, ran⟩ := succeeds 0
      exact compilable_of_run ran
    · intro compilable n
      exact run_generateInstruction (Instruction.immediateOf_ofWord w) compilable n

/-- `slti x1, x0, 1`. -/
theorem generateInstruction_slti_zero : ¬∀ (g : CodeGenerator) (w : BitVec 32),
    Unchecked (g.generateInstruction (Instruction.ofWord w)) := fun claim => by
  have unchecked := claim ⟨Memory.create 0x1000 (by decide), ⟨false, false⟩, 0x400, false, 0⟩ 0x00102093
  cases unchecked 0 _ (run_comparesZero _ ⟨by decide, by decide, Or.inl (by decide)⟩ 0)

end Riscv64Emulator.Jit.X64
