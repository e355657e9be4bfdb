import Riscv64Emulator.Jit.X64.Machine
import Riscv64Emulator.Lib.Emitter

/-!
# The x64 code generator

`src/vm/jit/x64/CodeGenerator.cpp`. Each function of the source is one generator under
its name; an assembler call emits the host instruction it names and fails when no host
instruction takes its operands.
-/
namespace Riscv64Emulator.Jit.X64

open LinearCode

/-! ### `RegisterAllocation` -/

namespace RA
abbrev registerState : X64R := .rsi
abbrev memoryBase : X64R := .rdi
abbrev permissionsBase : X64R := .r8
abbrev codeBase : X64R := .r9
abbrev blockBase : X64R := .r10
abbrev a : X64R := .rax
abbrev b : X64R := .rbx
abbrev c : X64R := .rcx
abbrev exitReason : X64R := .rax
abbrev exitPc : X64R := .rbx
end RA

/-! ### The generator -/

/-- The pc of a pending exit: known when it is added, or in a register. The source marks
the first case with `Rsp` in `pc_register`. -/
inductive ExitPc where
  | value (pc : Word)
  | register (r : X64R)
deriving DecidableEq, Repr

/-- `CodegenContext::Exit`. -/
structure PendingExit where
  label : Nat
  reason : ArchExitReason
  pc : ExitPc
deriving DecidableEq, Repr

/-- Generators thread the number of the next label. -/
abbrev Gen := Emitter Instr PendingExit Nat Abort

/-- What the generator reads: the memory, the flags and the block limit of the code
buffer, the stepping mode and the pc of the instruction being compiled. -/
structure CodeGenerator where
  memory : Memory
  flags : CodeBufferFlags
  maxBlockCount : Word
  singleStep : Bool
  currentPc : Word

/-- One assembler call. -/
def ins (i : Instr) : Gen Unit :=
  if i.encodable then Emitter.emit [.instr i] else Emitter.fail .notEncodable

def allocateLabel : Gen Nat := Emitter.modifyGet fun l => (l, l + 1)

def insertLabel (l : Nat) : Gen Unit := Emitter.emit [.label l]

def verify (condition : Bool) (message : String) : Gen Unit :=
  if condition then pure () else Emitter.fail (.verify message)

def unreachableCode {α : Type} : Gen α := Emitter.fail (.fatalError "entered unreachable code")

/-- `instruction_any_of`. -/
def instructionAnyOf (t : InstructionType) (ts : List InstructionType) : Bool := ts.contains t

/-- `access_size_log2_to_operand_size`. -/
def operandSizeOf : Nat → OperandSize
  | 0 => .bits8
  | 1 => .bits16
  | 2 => .bits32
  | _ => .bits64

def liftExcept {α : Type} : Except Abort α → Gen α
  | .ok a => pure a
  | .error e => Emitter.fail e

namespace CodeGenerator

/-- The memory operand of a register's slot. -/
def slot (r : Register) : Operand :=
  .mem (.baseDisp RA.registerState (BitVec.ofNat 32 (r.val * 8)))

def registerOperand (reg : Register) : Gen Operand := do
  verify (reg ≠ Register.zero) "cannot get operand for zero register"
  verify (reg ≠ Register.pc) "cannot get operand for PC register"
  pure (slot reg)

def registerOperandOrZero (reg : Register) : Gen Operand :=
  if reg = Register.zero then pure (.imm 0) else registerOperand reg

/-- The three overloads of `generate_exit`; without a pc the current one is passed. -/
def generateExit (reason : ArchExitReason) (pc : ExitPc) : Gen Unit := do
  match pc with
  | .value pc => ins (.mov .bits64 (.reg RA.exitPc) (.imm pc))
  | .register r => ins (.mov .bits64 (.reg RA.exitPc) (.reg r))
  ins (.mov .bits64 (.reg RA.exitReason) (.imm reason.code))
  ins .ret

def addPendingExit (label : Nat) (reason : ArchExitReason) (pc : ExitPc) : Gen Unit :=
  Emitter.defer ⟨label, reason, pc⟩

def generatePendingExits : List PendingExit → Gen Unit
  | [] => pure ()
  | pendingExit :: rest => do
    insertLabel pendingExit.label
    generateExit pendingExit.reason pendingExit.pc
    generatePendingExits rest

def loadRegister (target : X64R) (reg : Register) (offset : Word) : Gen Unit :=
  if reg = Register.zero then ins (.mov .bits64 (.reg target) (.imm offset))
  else do
    ins (.mov .bits64 (.reg target) (← registerOperand reg))
    if offset ≠ 0 then ins (.alu .add .bits64 (.reg target) (.imm offset))

def storeRegister (target : Register) (reg : X64R) (signExtend : Bool) : Gen Unit := do
  if signExtend then ins (.extend .sxd reg (.reg reg))
  ins (.mov .bits64 (← registerOperand target) (.reg reg))

/-- `imm` is in the range of `int32_t`. -/
def inInt32 (imm : Word) : Bool := -2 ^ 31 ≤ imm.toInt && imm.toInt ≤ 2 ^ 31 - 1

def storeImmToRegister (reg : Register) (scratch : X64R) (imm : Word) : Gen Unit :=
  if reg = Register.zero then pure ()
  else if inInt32 imm then do
    ins (.mov .bits64 (← registerOperand reg) (.imm imm))
  else do
    ins (.mov .bits64 (.reg scratch) (.imm imm))
    ins (.mov .bits64 (← registerOperand reg) (.reg scratch))

def storeUimmToRegister (reg : Register) (scratch : X64R) (imm : Word) : Gen Unit :=
  storeImmToRegister reg scratch imm

variable (g : CodeGenerator)

def generateValidateMemoryAccess (address scratch1 scratch2 : X64R) (accessSizeLog2 : Nat)
    (write : Bool) : Gen Unit := do
  let faultLabel ← allocateLabel
  if accessSizeLog2 > 0 then
    ins (.test (.reg address) (.imm (BitVec.ofNat 64 (2 ^ accessSizeLog2 - 1))))
    ins (.jcc .ne faultLabel)
  ins (.cmp (.reg address) (.imm g.memory.size))
  ins (.jcc .ae faultLabel)
  if !g.flags.skipPermissionChecks then
    let operandSize := operandSizeOf accessSizeLog2
    ins (.mov operandSize (.reg scratch1) (.mem (.baseIndex RA.permissionsBase address 1)))
    let flag := if write then MemoryFlags.write else MemoryFlags.read
    ins (.mov .bits64 (.reg scratch2) (.imm (permissionMask flag (2 ^ accessSizeLog2))))
    ins (.alu .and .bits64 (.reg scratch1) (.reg scratch2))
    ins (.cmp (.reg scratch1) (.reg scratch2))
    ins (.jcc .ne faultLabel)
  addPendingExit faultLabel (if write then .memoryWriteFault else .memoryReadFault)
    (.value g.currentPc)

def generateValidatedBranch (blockIndex : X64R) : Gen Nat := do
  let noBlockLabel ← allocateLabel
  ins (.mov .bits32 (.reg blockIndex) (.mem (.baseIndex RA.blockBase blockIndex 4)))
  ins (.test (.reg blockIndex) (.reg blockIndex))
  ins (.jcc .e noBlockLabel)
  ins (.alu .add .bits64 (.reg blockIndex) (.reg RA.codeBase))
  ins (.jmpReg blockIndex)
  pure noBlockLabel

def generateStaticBranch (targetPc : Word) (scratch : X64R) : Gen Unit :=
  let block := targetPc / 4
  if targetPc &&& 3 ≠ 0 then generateExit .unalignedPc (.value g.currentPc)
  else if g.maxBlockCount ≤ block then generateExit .outOfBoundsPc (.value g.currentPc)
  else if g.singleStep then generateExit .singleStep (.value targetPc)
  else do
    ins (.mov .bits64 (.reg scratch) (.imm block))
    let exitLabel ← generateValidatedBranch scratch
    addPendingExit exitLabel .blockNotGenerated (.value targetPc)

def generateDynamicBranch (targetPc scratch : X64R) : Gen Unit := do
  let unalignedLabel ← allocateLabel
  let oobLabel ← allocateLabel
  ins (.test (.reg targetPc) (.imm 0b10))
  ins (.jcc .ne unalignedLabel)
  ins (.mov .bits64 (.reg scratch) (.reg targetPc))
  ins (.shift .shr (.reg scratch) (.imm 2))
  ins (.cmp (.reg scratch) (.imm g.maxBlockCount))
  ins (.jcc .ae oobLabel)
  if g.singleStep then generateExit .singleStep (.register targetPc)
  else do
    let exitLabel ← generateValidatedBranch scratch
    addPendingExit exitLabel .blockNotGenerated (.register targetPc)
  addPendingExit unalignedLabel .unalignedPc (.register targetPc)
  addPendingExit oobLabel .outOfBoundsPc (.register targetPc)

def generateBinaryOperation (instructionType : InstructionType) (op1 op2 : Operand) : Gen Unit :=
  match instructionType with
  | .add | .addi | .addw | .addiw => ins (.alu .add .bits64 op1 op2)
  | .sub | .subw => ins (.alu .sub .bits64 op1 op2)
  | .xor | .xori => ins (.alu .xor .bits64 op1 op2)
  | .or | .ori => ins (.alu .or .bits64 op1 op2)
  | .and | .andi => ins (.alu .and .bits64 op1 op2)
  | .sll | .slli | .sllw | .slliw => ins (.shift .shl op1 op2)
  | .srl | .srlw | .srli | .srliw => ins (.shift .shr op1 op2)
  | .sra | .srai | .sraiw | .sraw => ins (.shift .sar op1 op2)
  | _ => unreachableCode

/-- The inverted jump of a conditional branch. -/
def fallthroughCondition : InstructionType → Except Abort Condition
  | .beq => .ok .ne
  | .bne => .ok .e
  | .blt => .ok .ge
  | .bge => .ok .l
  | .bltu => .ok .ae
  | .bgeu => .ok .b
  | _ => unreachable

/-- The load of a guest value, by type. -/
def loadInstr (dest : X64R) (address : Operand) : InstructionType → Except Abort Instr
  | .lb => .ok (.extend .sxb dest address)
  | .lbu => .ok (.extend .zxb dest address)
  | .lh => .ok (.extend .sxw dest address)
  | .lhu => .ok (.extend .zxw dest address)
  | .lw => .ok (.extend .sxd dest address)
  | .ld => .ok (.mov .bits64 (.reg dest) address)
  | .lwu => .ok (.mov .bits32 (.reg dest) address)
  | _ => unreachable

def generateLoad (i : Instruction) : Gen Unit := do
  loadRegister RA.a i.rs1 i.imm
  g.generateValidateMemoryAccess RA.a RA.b RA.c (← liftExcept (memoryAccessSizeLog2 i.type)) false
  ins (← liftExcept (loadInstr RA.b (.mem (.baseIndex RA.memoryBase RA.a 1)) i.type))
  storeRegister i.rd RA.b false

def generateStore (i : Instruction) : Gen Unit := do
  let accessSizeLog2 ← liftExcept (memoryAccessSizeLog2 i.type)
  loadRegister RA.a i.rs1 i.imm
  g.generateValidateMemoryAccess RA.a RA.b RA.c accessSizeLog2 true
  loadRegister RA.b i.rs2 0
  ins (.mov (operandSizeOf accessSizeLog2) (.mem (.baseIndex RA.memoryBase RA.a 1)) (.reg RA.b))

/-- The case of the operations with an immediate, for `rd` not `x0`. -/
def generateImmediate (i : Instruction) : Gen Unit :=
  if i.type = .addi ∧ i.rs1 = Register.zero then storeImmToRegister i.rd RA.a i.imm
  else if i.type = .addi ∧ i.imm = 0 then do
    loadRegister RA.a i.rs1 0
    storeRegister i.rd RA.a false
  else if i.type = .addiw ∧ i.imm = 0 then do
    ins (.extend .sxd RA.a (← registerOperandOrZero i.rs1))
    storeRegister i.rd RA.a false
  else
    let is32bit := instructionAnyOf i.type [.addiw, .slliw, .srliw, .sraiw]
    if !is32bit ∧ i.rd = i.rs1 then do
      generateBinaryOperation i.type (← registerOperand i.rd) (.imm i.imm)
    else do
      loadRegister RA.a i.rs1 0
      generateBinaryOperation i.type (.reg RA.a) (.imm i.imm)
      storeRegister i.rd RA.a is32bit

def generateCompare (i : Instruction) : Gen Unit := do
  let hasImm := instructionAnyOf i.type [.slti, .sltiu]
  let isUnsigned := instructionAnyOf i.type [.sltu, .sltiu]
  ins (.alu .xor .bits64 (.reg RA.a) (.reg RA.a))
  if hasImm then ins (.cmp (← registerOperand i.rs1) (.imm i.imm))
  else do
    loadRegister RA.b i.rs1 0
    ins (.cmp (.reg RA.b) (← registerOperandOrZero i.rs2))
  ins (.setcc (if isUnsigned then .b else .l) RA.a)
  storeRegister i.rd RA.a false

/-- The case of the register-register operations, for `rd` not `x0`. In the in-place form
the second operand is the immediate, as in the source. -/
def generateRegister (i : Instruction) : Gen Unit := do
  let is32bit := instructionAnyOf i.type [.addw, .subw, .sllw, .srlw, .sraw]
  let isShift := instructionAnyOf i.type [.sll, .srl, .sra, .sllw, .srlw, .sraw]
  if !is32bit ∧ i.rd = i.rs1 then
    generateBinaryOperation i.type (← registerOperand i.rd) (.imm i.imm)
  else do
    loadRegister RA.a i.rs1 0
    if isShift then loadRegister RA.c i.rs2 0
    let op2 ← if isShift then pure (.reg RA.c) else registerOperandOrZero i.rs2
    generateBinaryOperation i.type (.reg RA.a) op2
    storeRegister i.rd RA.a is32bit

def generateMultiply (i : Instruction) : Gen Unit := do
  let is32bit := instructionAnyOf i.type [.mulw]
  loadRegister RA.a i.rs1 0
  loadRegister RA.b i.rs2 0
  ins (.imul (if is32bit then .bits32 else .bits64) RA.a RA.b)
  storeRegister i.rd RA.a is32bit

def generateDivide (i : Instruction) : Gen Unit := do
  let is32bit := instructionAnyOf i.type [.divw, .divuw, .remw, .remuw]
  let isUnsigned := instructionAnyOf i.type [.divu, .divuw, .remu, .remuw]
  let isRemainder := instructionAnyOf i.type [.rem, .remu, .remw, .remuw]
  let operandSize : OperandSize := if is32bit then .bits32 else .bits64
  loadRegister .rax i.rs1 0
  loadRegister .rbx i.rs2 0
  let continueDivision ← allocateLabel
  let skipDivision ← allocateLabel
  if !isUnsigned then
    ins (.cmp (.reg .rbx) (.imm (-1)))
    ins (.jcc .ne continueDivision)
    if is32bit then ins (.cmp (.reg .rax) (.imm ((BitVec.intMin 32).signExtend 64)))
    else
      ins (.mov .bits64 (.reg .rdx) (.imm (BitVec.intMin 64)))
      ins (.cmp (.reg .rax) (.reg .rdx))
    ins (.jcc .ne continueDivision)
    storeUimmToRegister i.rd RA.a 0
    ins (.jmp skipDivision)
  insertLabel continueDivision
  if isUnsigned then
    ins (.alu .xor operandSize (.reg .rdx) (.reg .rdx))
    ins (.div operandSize .rbx)
  else
    ins (.cqo operandSize)
    ins (.idiv operandSize .rbx)
  storeRegister i.rd (if isRemainder then .rdx else .rax) is32bit
  insertLabel skipDivision

/-- `generate_instruction`: whether the block goes on after it. -/
def generateInstruction (i : Instruction) : Gen Bool := do
  let unlessZero (x : Gen Unit) : Gen Bool := do
    if i.rd ≠ Register.zero then x
    pure true
  let exit (reason : ArchExitReason) : Gen Bool := do
    generateExit reason (.value g.currentPc)
    pure false
  match i.type with
  | .lui => unlessZero (storeImmToRegister i.rd RA.a i.imm)
  | .auipc => unlessZero (storeUimmToRegister i.rd RA.a (g.currentPc + i.imm))
  | .jal => do
    if i.rd ≠ Register.zero then storeUimmToRegister i.rd RA.a (g.currentPc + 4)
    g.generateStaticBranch (g.currentPc + i.imm) RA.a
    pure false
  | .jalr => do
    loadRegister RA.a i.rs1 i.imm
    if i.rd ≠ Register.zero then storeUimmToRegister i.rd RA.b (g.currentPc + 4)
    g.generateDynamicBranch RA.a RA.b
    pure false
  | .beq | .bne | .blt | .bge | .bltu | .bgeu => do
    loadRegister RA.a i.rs1 0
    ins (.cmp (.reg RA.a) (← registerOperandOrZero i.rs2))
    let fallthrough ← allocateLabel
    ins (.jcc (← liftExcept (fallthroughCondition i.type)) fallthrough)
    g.generateStaticBranch (g.currentPc + i.imm) RA.a
    insertLabel fallthrough
    pure true
  | .lb | .lh | .lw | .ld | .lbu | .lhu | .lwu => unlessZero (g.generateLoad i)
  | .sb | .sh | .sw | .sd => do
    g.generateStore i
    pure true
  | .addi | .xori | .ori | .andi | .addiw
  | .slli | .srli | .srai | .slliw | .srliw | .sraiw => unlessZero (generateImmediate i)
  | .slt | .sltu | .slti | .sltiu => unlessZero (generateCompare i)
  | .add | .sub | .xor | .or | .and | .sll | .srl | .sra
  | .addw | .subw | .sllw | .srlw | .sraw => unlessZero (generateRegister i)
  | .mul | .mulw => unlessZero (generateMultiply i)
  | .div | .divw | .divu | .divuw | .rem | .remu | .remw | .remuw =>
    unlessZero (generateDivide i)
  | .mulh | .mulhu | .mulhsu => exit .unsupportedInstruction
  | .fence => pure true
  | .ecall => exit .ecall
  | .ebreak => exit .ebreak
  | .undefined => exit .undefinedInstruction

/-- `generate_block`, for at most `fuel` instructions. -/
def generateBlock (g : CodeGenerator) : Nat → Gen Unit
  | 0 => Emitter.fail (.fatalError "block does not end")
  | fuel + 1 => do
    match codeAt g.memory g.currentPc with
    | none => generateExit .instructionFetchFault (.value g.currentPc)
    | some instruction =>
      if ← g.generateInstruction instruction then
        let g' := { g with currentPc := g.currentPc + 4 }
        if g.singleStep then generateExit .singleStep (.value g'.currentPc)
        else g'.generateBlock fuel

/-- `generate_code`: the block, then its pending exits. -/
def generateCode (fuel : Nat) : Except Abort (List (Item Instr)) := do
  let block ← (g.generateBlock fuel).run 0
  let exits ← (generatePendingExits block.exits).run block.state
  pure (block.code ++ exits.code)

end CodeGenerator

end Riscv64Emulator.Jit.X64
