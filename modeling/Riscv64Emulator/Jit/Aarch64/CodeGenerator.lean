import Riscv64Emulator.Jit.Aarch64.RegisterCache

/-!
# The AArch64 code generator

`src/vm/jit/aarch64/CodeGenerator.cpp`. Each function of the source is one generator under
its name.
-/
namespace Riscv64Emulator.Jit.Aarch64

open LinearCode RegisterCache

/-- What the generator reads: the platform, the memory, the flags and the block limit of the
code buffer, the stepping mode, and the pcs of the block and of the instruction. -/
structure CodeGenerator where
  platform : Platform
  memory : Memory
  flags : CodeBufferFlags
  maxBlockCount : Word
  singleStep : Bool
  basePc : Word
  currentPc : Word

/-- The instruction `load_immediate` picks. -/
def immediateInstr (platform : Platform) (basePc : Word) (target : A64R) (immediate : Word) :
    Instr :=
  let pcOffset := immediate - basePc
  let maxPcDelta : Int := 2 ^ 15 - 1
  if -maxPcDelta ≤ pcOffset.toInt ∧ pcOffset.toInt ≤ maxPcDelta ∧
      platform.tryAddI target RA.basePc pcOffset then .addImm target RA.basePc pcOffset
  else .movImm target immediate

namespace CodeGenerator

variable (g : CodeGenerator)

def loadImmediate (target : A64R) (immediate : Word) : Gen Unit :=
  ins (immediateInstr g.platform g.basePc target immediate)

def loadImmediateOrZero (target : A64R) (immediate : Word) : Gen A64R :=
  if immediate = 0 then pure A64R.xzr
  else do
    g.loadImmediate target immediate
    pure target

def addOffsetToRegister (valueReg scratchReg : A64R) (offset : Word) : Gen A64R :=
  if valueReg = A64R.xzr then do
    g.loadImmediate scratchReg offset
    pure scratchReg
  else if offset = 0 then pure valueReg
  else if g.platform.tryAddI scratchReg valueReg offset then do
    ins (.addImm scratchReg valueReg offset)
    pure scratchReg
  else do
    g.loadImmediate scratchReg offset
    ins (.alu .add .w64 scratchReg valueReg scratchReg)
    pure scratchReg

/-- `generate_exit` with a pc that is known. -/
def generateExit (reason : ArchExitReason) (pc : Word) : Gen Unit := do
  flushCurrentRegisters
  g.loadImmediate RA.exitPc pc
  g.loadImmediate RA.exitReason reason.code
  ins .ret

/-- `generate_exit` with a pc in a register. -/
def generateExitRegister (reason : ArchExitReason) (pc : A64R) : Gen Unit := do
  flushCurrentRegisters
  ins (.mov RA.exitPc pc)
  g.loadImmediate RA.exitReason reason.code
  ins .ret

/-- The snapshot of an exit that flushes, or the empty one. -/
def exitSnapshot (flush : Bool) : Gen StateSnapshot := do
  let cache ← getCache
  pure (if flush then cache.takeStateSnapshot else fun _ => Register.zero)

def addPendingExit (label : Nat) (reason : ArchExitReason) (flush : Bool) (pc : Word) :
    Gen Unit := do
  let snapshot ← exitSnapshot flush
  Emitter.defer { label := label, reason := reason, pcValue := pc, snapshot := snapshot }

def addPendingExitRegister (label : Nat) (reason : ArchExitReason) (flush : Bool) (pc : A64R) :
    Gen Unit := do
  let snapshot ← exitSnapshot flush
  Emitter.defer { label := label, reason := reason, pcRegister := pc, snapshot := snapshot }

def generatePendingExits : List PendingExit → Gen Unit
  | [] => pure ()
  | pendingExit :: rest => do
    insertLabel pendingExit.label
    flushRegisters pendingExit.snapshot
    if pendingExit.pcRegister ≠ A64R.xzr then ins (.mov RA.exitPc pendingExit.pcRegister)
    else g.loadImmediate RA.exitPc pendingExit.pcValue
    g.loadImmediate RA.exitReason pendingExit.reason.code
    ins .ret
    generatePendingExits rest

/-- `load_memory_permission_mask`: whether the operands are truncated to 32 bits. An access of
four bytes takes the mask of eight. -/
def loadMemoryPermissionMask (target : A64R) (flag : MemoryFlags) (accessSizeLog2 : Nat) :
    Gen Bool :=
  match accessSizeLog2 with
  | 0 => do
    ins (.movImm target (flag.setWidth 64))
    pure false
  | 1 => do
    ins (.movImm target ((flag.setWidth 64 <<< 8) ||| flag.setWidth 64))
    pure false
  | 2 => do
    ins (.movImm target (permissionMask flag 8))
    pure true
  | 3 => do
    ins (.movImm target (permissionMask flag 8))
    pure false
  | _ => unreachableCode

/-- The wide load of the permission bytes. -/
def permissionLoad (target address : A64R) : Nat → Except Abort Instr
  | 0 => .ok (.ldr .byte false target RA.permissionsBase (.reg address))
  | 1 => .ok (.ldr .half false target RA.permissionsBase (.reg address))
  | 2 => .ok (.ldr .word false target RA.permissionsBase (.reg address))
  | 3 => .ok (.ldr .double false target RA.permissionsBase (.reg address))
  | _ => unreachable

def generateValidateMemoryAccess (address scratch1 scratch2 : A64R) (accessSizeLog2 : Nat)
    (write : Bool) : Gen Unit := do
  let faultLabel ← allocateLabel
  if accessSizeLog2 > 0 then
    ins (.tst address (BitVec.ofNat 64 (2 ^ accessSizeLog2 - 1)))
    ins (.b .notEqual faultLabel)
  ins (.cmp .w64 address RA.memorySize)
  ins (.b .unsignedGreaterEqual faultLabel)
  if !g.flags.skipPermissionChecks then
    ins (← liftExcept (permissionLoad scratch1 address accessSizeLog2))
    let flag := if write then MemoryFlags.write else MemoryFlags.read
    let truncate ← loadMemoryPermissionMask scratch2 flag accessSizeLog2
    let width : Width := if truncate then .w32 else .w64
    ins (.alu .and width scratch1 scratch1 scratch2)
    ins (.cmp width scratch1 scratch2)
    ins (.b .notEqual faultLabel)
  addPendingExit faultLabel (if write then .memoryWriteFault else .memoryReadFault) true
    g.currentPc

def generateValidatedBranch (blockOffset : A64R) : Gen Nat := do
  if !g.flags.multithreaded then
    ins (.ldr .word false blockOffset RA.blockBase (.reg blockOffset))
  else
    ins (.alu .add .w64 blockOffset RA.blockBase blockOffset)
    ins (.ldar blockOffset blockOffset)
  let noBlockLabel ← allocateLabel
  ins (.cbz blockOffset noBlockLabel)
  ins (.alu .add .w64 blockOffset RA.codeBase blockOffset)
  ins (.br blockOffset)
  pure noBlockLabel

def generateStaticBranch (targetPc : Word) (scratch : A64R) : Gen Unit :=
  let block := targetPc / 4
  if targetPc &&& 3 ≠ 0 then g.generateExit .unalignedPc g.currentPc
  else if g.maxBlockCount ≤ block then g.generateExit .outOfBoundsPc g.currentPc
  else if g.singleStep then g.generateExit .singleStep targetPc
  else do
    g.loadImmediate scratch (block * 4)
    flushCurrentRegisters
    let exitLabel ← g.generateValidatedBranch scratch
    addPendingExit exitLabel .blockNotGenerated false targetPc

def generateDynamicBranch (targetPc scratch : A64R) : Gen Unit := do
  verify (targetPc ≠ scratch) "target_pc cannot be equal to scratch_reg"
  let oobLabel ← allocateLabel
  let unalignedLabel ← allocateLabel
  ins (.logicImm .and scratch targetPc (~~~1))
  flushCurrentRegisters
  ins (.tst scratch 0b11)
  ins (.b .notEqual unalignedLabel)
  ins (.cmp .w64 scratch RA.maxExecutablePc)
  ins (.b .unsignedGreaterEqual oobLabel)
  if g.singleStep then g.generateExitRegister .singleStep targetPc
  else do
    let exitLabel ← g.generateValidatedBranch scratch
    addPendingExitRegister exitLabel .blockNotGenerated false targetPc
  addPendingExitRegister oobLabel .outOfBoundsPc false targetPc
  addPendingExitRegister unalignedLabel .unalignedPc false targetPc

/-- The inverted jump of a conditional branch. -/
def skipCondition : InstructionType → Except Abort Condition
  | .beq => .ok .notEqual
  | .bne => .ok .equal
  | .blt => .ok .greaterEqual
  | .bge => .ok .less
  | .bltu => .ok .unsignedGreaterEqual
  | .bgeu => .ok .unsignedLess
  | _ => unreachable

/-- The load of a guest value, by type. -/
def loadInstr (dest address : A64R) : InstructionType → Except Abort Instr
  | .lb => .ok (.ldr .byte true dest RA.memoryBase (.reg address))
  | .lh => .ok (.ldr .half true dest RA.memoryBase (.reg address))
  | .lw => .ok (.ldr .word true dest RA.memoryBase (.reg address))
  | .ld => .ok (.ldr .double false dest RA.memoryBase (.reg address))
  | .lbu => .ok (.ldr .byte false dest RA.memoryBase (.reg address))
  | .lhu => .ok (.ldr .half false dest RA.memoryBase (.reg address))
  | .lwu => .ok (.ldr .word false dest RA.memoryBase (.reg address))
  | _ => unreachable

/-- The store of a guest value, by type. -/
def storeInstr (value address : A64R) : InstructionType → Except Abort Instr
  | .sb => .ok (.str .byte value RA.memoryBase (.reg address))
  | .sh => .ok (.str .half value RA.memoryBase (.reg address))
  | .sw => .ok (.str .word value RA.memoryBase (.reg address))
  | .sd => .ok (.str .double value RA.memoryBase (.reg address))
  | _ => unreachable

/-- Lock the registers an instruction reads and the one it writes, emit the code that writes
it, and unlock them. -/
def withRegisters (reads : List Register) (rd : Register) (write : List A64R → A64R → Gen Unit) :
    Gen Unit := do
  let locked ← lockRegisters g.platform (reads.map (fun r => ⟨r, false⟩) ++ [writeOnly rd])
  let operands := locked.dropLast
  let dest := locked.getLastD A64R.xzr
  write operands dest
  unlockRegisters operands
  unlockRegister dest true

def withDestination (rd : Register) (write : A64R → Gen Unit) : Gen Unit :=
  g.withRegisters [] rd fun _ dest => write dest

def withOperand (rs1 rd : Register) (write : A64R → A64R → Gen Unit) : Gen Unit :=
  g.withRegisters [rs1] rd fun operands dest =>
    match operands with
    | [a] => write a dest
    | _ => unreachableCode

def withOperands (rs1 rs2 rd : Register) (write : A64R → A64R → A64R → Gen Unit) : Gen Unit :=
  g.withRegisters [rs1, rs2] rd fun operands dest =>
    match operands with
    | [a, b] => write a b dest
    | _ => unreachableCode

def generateLoad (i : Instruction) : Gen Unit :=
  g.withOperand i.rs1 i.rd fun unoffsetedAddress dest => do
    let address ← g.addOffsetToRegister unoffsetedAddress RA.a i.imm
    g.generateValidateMemoryAccess address RA.b RA.c (← liftExcept (memoryAccessSizeLog2 i.type))
      false
    ins (← liftExcept (loadInstr dest address i.type))

def generateStore (i : Instruction) : Gen Unit := do
  let [unoffsetedAddress, value] ←
    lockRegisters g.platform [⟨i.rs1, false⟩, ⟨i.rs2, false⟩] | unreachableCode
  let address ← g.addOffsetToRegister unoffsetedAddress RA.a i.imm
  g.generateValidateMemoryAccess address RA.b RA.c (← liftExcept (memoryAccessSizeLog2 i.type))
    true
  ins (← liftExcept (storeInstr value address i.type))
  unlockRegisters [unoffsetedAddress, value]

/-- The host operation of an instruction with an immediate. -/
def immediateOp : InstructionType → Except Abort AluOp
  | .addi | .addiw => .ok .add
  | .xori => .ok .eor
  | .ori => .ok .orr
  | .andi => .ok .and
  | _ => unreachable

/-- The first attempt at an operation with an immediate: whether it emitted code. -/
def tryImmediate (i : Instruction) (a dest : A64R) : Gen Bool := do
  let op ← liftExcept (immediateOp i.type)
  if i.type = .addi ∨ i.type = .addiw then do
    let succeeded ←
      if i.imm = 0 then do
        ins (.mov dest a)
        pure true
      else if a = A64R.xzr then do
        g.loadImmediate dest i.imm
        pure true
      else if g.platform.tryAddI dest a i.imm then do
        ins (.addImm dest a i.imm)
        pure true
      else pure false
    if succeeded ∧ i.type = .addiw then ins (.sxtw dest dest)
    pure succeeded
  else if g.platform.tryLogic op dest a i.imm then do
    ins (.logicImm op dest a i.imm)
    pure true
  else pure false

def generateImmediate (i : Instruction) : Gen Unit :=
  g.withOperand i.rs1 i.rd fun a dest => do
    let succeeded ← g.tryImmediate i a dest
    if !succeeded then do
      let b ← g.loadImmediateOrZero RA.a i.imm
      ins (.alu (← liftExcept (immediateOp i.type)) .w64 dest a b)
      if i.type = .addiw then ins (.sxtw dest dest)

/-- The operation and the width of a shift. -/
def shiftOp : InstructionType → Except Abort (ShiftOp × Width)
  | .slli | .sll => .ok (.lsl, .w64)
  | .srli | .srl => .ok (.lsr, .w64)
  | .srai | .sra => .ok (.asr, .w64)
  | .slliw | .sllw => .ok (.lsl, .w32)
  | .srliw | .srlw => .ok (.lsr, .w32)
  | .sraiw | .sraw => .ok (.asr, .w32)
  | _ => unreachable

/-- The sign extension of a result of a 32-bit operation. -/
def extendResult (width : Width) (dest : A64R) : Gen Unit :=
  match width with
  | .w32 => ins (.sxtw dest dest)
  | .w64 => pure ()

def generateShiftImmediate (i : Instruction) : Gen Unit :=
  g.withOperand i.rs1 i.rd fun a dest => do
    let (op, width) ← liftExcept (shiftOp i.type)
    ins (.shiftImm op width dest a i.shamt.toNat)
    extendResult width dest

def generateCompare (i : Instruction) : Gen Unit :=
  g.withOperands i.rs1 i.rs2 i.rd fun a b dest => do
    ins (.cmp .w64 a b)
    ins (.cset dest (if i.type = .sltu then .unsignedLess else .less))

def generateCompareImmediate (i : Instruction) : Gen Unit :=
  if i.rs1 = Register.zero then
    g.withDestination i.rd fun dest =>
      let result := if i.type = .slti then (0 : Word).slt i.imm else (0 : Word).ult i.imm
      g.loadImmediate dest (if result then 1 else 0)
  else
    g.withOperand i.rs1 i.rd fun a dest => do
      if g.platform.tryCmp a i.imm then ins (.cmpImm a i.imm)
      else do
        let b ← g.loadImmediateOrZero RA.a i.imm
        ins (.cmp .w64 a b)
      ins (.cset dest (if i.type = .sltiu then .unsignedLess else .less))

/-- The instruction of a register-register operation, and its width. -/
def registerInstr (dest a b : A64R) (type : InstructionType) : Except Abort (Instr × Width) :=
  match type with
  | .add => .ok (.alu .add .w64 dest a b, .w64)
  | .sub => .ok (.alu .sub .w64 dest a b, .w64)
  | .xor => .ok (.alu .eor .w64 dest a b, .w64)
  | .or => .ok (.alu .orr .w64 dest a b, .w64)
  | .and => .ok (.alu .and .w64 dest a b, .w64)
  | .addw => .ok (.alu .add .w32 dest a b, .w32)
  | .subw => .ok (.alu .sub .w32 dest a b, .w32)
  | .sll | .srl | .sra | .sllw | .srlw | .sraw =>
    (shiftOp type).map fun (op, width) => (.shift op width dest a b, width)
  | _ => unreachable

def generateRegister (i : Instruction) : Gen Unit :=
  g.withOperands i.rs1 i.rs2 i.rd fun a b dest => do
    let (instr, width) ← liftExcept (registerInstr dest a b i.type)
    ins instr
    extendResult width dest

/-- The multiplications, divisions and remainders. -/
def mulDivCode (dest a b : A64R) (type : InstructionType) : Gen Unit :=
  let tmp := RA.a
  let quotient (signed : Bool) (width : Width) : Gen Unit := do
    ins (.div signed width dest a b)
    extendResult width dest
  let remainder (signed : Bool) (width : Width) : Gen Unit := do
    ins (.div signed width tmp a b)
    ins (.msub width dest tmp b a)
    extendResult width dest
  match type with
  | .mul => ins (.mul .w64 dest a b)
  | .mulw => do
    ins (.mul .w32 dest a b)
    extendResult .w32 dest
  | .div => quotient true .w64
  | .divw => quotient true .w32
  | .divu => quotient false .w64
  | .divuw => quotient false .w32
  | .rem => remainder true .w64
  | .remu => remainder false .w64
  | .remw => remainder true .w32
  | .remuw => remainder false .w32
  | _ => unreachableCode

/-- `generate_instruction`: whether the block goes on after it. A multiplication or division
into `x0` falls through to the exit of the multiplications the host has no code for. -/
def generateInstruction (i : Instruction) : Gen Bool := do
  let unlessZero (x : Gen Unit) : Gen Bool := do
    if i.rd ≠ Register.zero then x
    pure true
  let exit (reason : ArchExitReason) : Gen Bool := do
    g.generateExit reason g.currentPc
    pure false
  match i.type with
  | .lui => unlessZero (g.withDestination i.rd fun dest => g.loadImmediate dest i.imm)
  | .auipc =>
    unlessZero (g.withDestination i.rd fun dest => g.loadImmediate dest (g.currentPc + i.imm))
  | .jal => do
    if i.rd ≠ Register.zero then
      g.withDestination i.rd fun dest => g.loadImmediate dest (g.currentPc + 4)
    g.generateStaticBranch (g.currentPc + i.imm) RA.a
    pure false
  | .jalr => do
    let [target] ← lockRegisters g.platform [⟨i.rs1, false⟩] | unreachableCode
    let offseted ← g.addOffsetToRegister target RA.a i.imm
    let offseted ←
      if i.rd ≠ Register.zero then do
        let [dest] ← lockRegisters g.platform [writeOnly i.rd] | unreachableCode
        let offseted ←
          if dest = offseted then do
            ins (.mov RA.a offseted)
            pure RA.a
          else pure offseted
        g.loadImmediate dest (g.currentPc + 4)
        unlockRegister dest true
        pure offseted
      else pure offseted
    g.generateDynamicBranch offseted RA.b
    unlockRegister target false
    pure false
  | .beq | .bne | .blt | .bge | .bltu | .bgeu => do
    let condition ← liftExcept (skipCondition i.type)
    let [a, b] ← lockRegisters g.platform [⟨i.rs1, false⟩, ⟨i.rs2, false⟩] | unreachableCode
    let skipLabel ← allocateLabel
    ins (.cmp .w64 a b)
    ins (.b condition skipLabel)
    g.generateStaticBranch (g.currentPc + i.imm) RA.a
    insertLabel skipLabel
    unlockRegisters [a, b]
    pure true
  | .lb | .lh | .lw | .ld | .lbu | .lhu | .lwu => unlessZero (g.generateLoad i)
  | .sb | .sh | .sw | .sd => do
    g.generateStore i
    pure true
  | .addi | .xori | .ori | .andi | .addiw => unlessZero (g.generateImmediate i)
  | .slli | .srli | .srai | .slliw | .srliw | .sraiw => unlessZero (g.generateShiftImmediate i)
  | .slt | .sltu => unlessZero (g.generateCompare i)
  | .slti | .sltiu => unlessZero (g.generateCompareImmediate i)
  | .add | .sub | .xor | .or | .and | .sll | .srl | .sra
  | .addw | .subw | .sllw | .srlw | .sraw => unlessZero (g.generateRegister i)
  | .mul | .mulw | .div | .divw | .divu | .divuw | .rem | .remu | .remw | .remuw =>
    if i.rd ≠ Register.zero then do
      g.withOperands i.rs1 i.rs2 i.rd fun a b dest => mulDivCode dest a b i.type
      pure true
    else exit .unsupportedInstruction
  | .mulh | .mulhu | .mulhsu => exit .unsupportedInstruction
  | .fence => pure true
  | .ecall => exit .ecall
  | .ebreak => exit .ebreak
  | .undefined => exit .undefinedInstruction

/-- `generate_block`, for at most `fuel` instructions. -/
def generateBlock (g : CodeGenerator) : Nat → Gen Unit
  | 0 => Emitter.fail (.fatalError "block does not end")
  | fuel + 1 => do
    match codeAt g.memory g.currentPc with
    | none => g.generateExit .instructionFetchFault g.currentPc
    | some instruction =>
      let continueExecution ← g.generateInstruction instruction
      finishInstruction
      if continueExecution then
        let g' := { g with currentPc := g.currentPc + 4 }
        if g.singleStep then g'.generateExit .singleStep g'.currentPc
        else g'.generateBlock fuel

/-- `generate_code`: the base pc, the block, then its pending exits. -/
def generateCode (fuel : Nat) : Except Abort (List (Item Instr)) := do
  let start ← (ins (.movImm RA.basePc g.basePc)).run ⟨0, {}⟩
  let block ← (g.generateBlock fuel).run start.state
  let exits ← (g.generatePendingExits block.exits).run block.state
  pure (start.code ++ block.code ++ exits.code)

end CodeGenerator

end Riscv64Emulator.Jit.Aarch64
