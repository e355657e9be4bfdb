import Riscv64Emulator.Vm.Memory
import Riscv64Emulator.Vm.Instruction

/-!
# The interpreter

`RegisterState.hpp`, `Cpu.hpp`, `Exit.hpp` and `Interpreter.cpp` of `src/vm`. `step`
threads the three objects the source takes by reference. C++ operations without a
defined result are `Abort.undefinedBehaviour`.
-/
namespace Riscv64Emulator

/-- How the program stops without a result. `notEncodable` stands for an assembler call
whose operands no host instruction takes. -/
inductive Abort where
  | verify (message : String)
  | fatalError (message : String)
  | undefinedBehaviour
  | notEncodable
deriving DecidableEq, Repr

/-- The macro `unreachable()`. -/
def unreachable {α : Type} : Except Abort α := .error (.fatalError "entered unreachable code")

/-- The table of 33 registers. -/
@[ext] structure RegisterState where
  registers : Register → Word

namespace RegisterState

def get (r : RegisterState) (reg : Register) : Word := r.registers reg

def set (r : RegisterState) (reg : Register) (value : Word) : RegisterState :=
  if reg ≠ Register.zero then ⟨fun q => if q = reg then value else r.registers q⟩ else r

def pc (r : RegisterState) : Word := r.get Register.pc

@[simp] theorem set_zero (r : RegisterState) (value : Word) : r.set Register.zero value = r := rfl

theorem get_set (r : RegisterState) (reg q : Register) (value : Word) :
    (r.set reg value).get q = if q = reg ∧ reg ≠ Register.zero then value else r.get q := by
  by_cases zero : reg = Register.zero <;> simp [set, get, zero]

@[simp] theorem get_set_same (r : RegisterState) (reg : Register) (value : Word)
    (nonzero : reg ≠ Register.zero) : (r.set reg value).get reg = value := by
  simp [get_set, nonzero]

theorem get_set_other (r : RegisterState) {reg q : Register} (value : Word) (other : q ≠ reg) :
    (r.set reg value).get q = r.get q := by
  simp [get_set, other]

@[simp] theorem get_zero_set (r : RegisterState) (reg : Register) (value : Word) :
    (r.set reg value).get Register.zero = r.get Register.zero := by
  by_cases zero : reg = Register.zero
  · rw [zero, set_zero]
  · exact get_set_other r value (Ne.symm zero)

@[simp] theorem set_set (r : RegisterState) (reg : Register) (v w : Word) :
    (r.set reg v).set reg w = r.set reg w := by
  by_cases zero : reg = Register.zero
  · simp [zero]
  · simp only [set, ne_eq, zero, not_false_eq_true, if_true, RegisterState.mk.injEq]
    funext q
    split <;> rfl

end RegisterState

/-- `Cpu` wraps a register table and holds nothing else. -/
abbrev Cpu := RegisterState

inductive ExitReason where
  | none
  | unalignedPc
  | outOfBoundsPc
  | instructionFetchFault
  | undefinedInstruction
  | memoryReadFault
  | memoryWriteFault
  | ecall
  | ebreak
deriving DecidableEq, Repr

/-- The struct `Exit`, with its member initialisers as defaults. -/
structure Exit where
  reason : ExitReason := .none
  faultyAddress : Word := 0
  targetRegister : Register := Register.zero
deriving DecidableEq

/-- The objects `Interpreter::step` takes by reference. -/
structure VmState where
  memory : Memory
  cpu : Cpu
  exit : Exit

def signextend32 (value : Word) : Word := (value.setWidth 32).signExtend 64

namespace Interpreter

/-- The inner switch of the conditional branches. -/
def branchTaken (type : InstructionType) (a b : Word) : Except Abort Bool :=
  match type with
  | .beq => .ok (a == b)
  | .bne => .ok (a != b)
  | .blt => .ok (a.slt b)
  | .bge => .ok (b.sle a)
  | .bltu => .ok (a.ult b)
  | .bgeu => .ok (b.ule a)
  | _ => unreachable

/-- The inner switch of the loads: `none` when the read fails. -/
def loadResult (type : InstructionType) (memory : Memory) (address : Word) :
    Except Abort (Option Word) :=
  let signed (n : Nat) : Option Word :=
    (memory.readT n address MemoryFlags.read).map fun v => (v.setWidth (8 * n)).signExtend 64
  match type with
  | .lb => .ok (signed 1)
  | .lh => .ok (signed 2)
  | .lw => .ok (signed 4)
  | .ld => .ok (signed 8)
  | .lbu => .ok (memory.readT 1 address MemoryFlags.read)
  | .lhu => .ok (memory.readT 2 address MemoryFlags.read)
  | .lwu => .ok (memory.readT 4 address MemoryFlags.read)
  | _ => unreachable

/-- The inner switch of the stores: `none` when the write fails. -/
def storeResult (type : InstructionType) (memory : Memory) (address value : Word) :
    Except Abort (Option Memory) :=
  match type with
  | .sb => .ok (memory.writeT 1 address MemoryFlags.write value)
  | .sh => .ok (memory.writeT 2 address MemoryFlags.write value)
  | .sw => .ok (memory.writeT 4 address MemoryFlags.write value)
  | .sd => .ok (memory.writeT 8 address MemoryFlags.write value)
  | _ => unreachable

def immediateResult (type : InstructionType) (a b : Word) : Except Abort Word :=
  match type with
  | .addi => .ok (a + b)
  | .xori => .ok (a ^^^ b)
  | .ori => .ok (a ||| b)
  | .andi => .ok (a &&& b)
  | .addiw => .ok (signextend32 (a + b))
  | _ => unreachable

/-- Shifts by an immediate. `srai` shifts `int64_t(a)` to the left, as the source does. -/
def shiftImmediateResult (type : InstructionType) (a : Word) (shamt : BitVec 32) :
    Except Abort Word :=
  match type with
  | .slli => .ok (a <<< shamt)
  | .srli => .ok (a >>> shamt)
  | .srai => .ok (a <<< shamt)
  | .slliw => .ok (signextend32 ((a.setWidth 32 <<< shamt).setWidth 64))
  | .srliw => .ok (signextend32 ((a.setWidth 32 >>> shamt).setWidth 64))
  | .sraiw => .ok (signextend32 (((a.setWidth 32).sshiftRight' shamt).signExtend 64))
  | _ => unreachable

def compareResult (type : InstructionType) (a b : Word) : Bool :=
  if type = .slt ∨ type = .slti then a.slt b else a.ult b

/-- The register-register operations. `sra` shifts to the left, as the source does. -/
def registerResult (type : InstructionType) (a b : Word) : Except Abort Word :=
  let shamt64 := (b &&& 63).setWidth 32
  let shamt32 := (b &&& 31).setWidth 32
  let a32 := a.setWidth 32
  let b32 := b.setWidth 32
  match type with
  | .add => .ok (a + b)
  | .sub => .ok (a - b)
  | .xor => .ok (a ^^^ b)
  | .or => .ok (a ||| b)
  | .and => .ok (a &&& b)
  | .sll => .ok (a <<< shamt64)
  | .srl => .ok (a >>> shamt64)
  | .sra => .ok (a <<< shamt64)
  | .addw => .ok (signextend32 ((a32 + b32).setWidth 64))
  | .subw => .ok (signextend32 ((a32 - b32).setWidth 64))
  | .sllw => .ok (signextend32 ((a32 <<< shamt32).setWidth 64))
  | .srlw => .ok (signextend32 ((a32 >>> shamt32).setWidth 64))
  | .sraw => .ok (signextend32 ((a32.sshiftRight' shamt32).signExtend 64))
  | _ => unreachable

/-- C++ division of two's complement numbers: undefined for a zero divisor and for the
pair whose quotient does not fit. -/
def signedDivision {w : Nat} (op : BitVec w → BitVec w → BitVec w) (a b : BitVec w) :
    Except Abort (BitVec w) :=
  if b = 0 ∨ (a = BitVec.intMin w ∧ b = -1) then .error .undefinedBehaviour else .ok (op a b)

def unsignedDivision {w : Nat} (op : BitVec w → BitVec w → BitVec w) (a b : BitVec w) :
    Except Abort (BitVec w) :=
  if b = 0 then .error .undefinedBehaviour else .ok (op a b)

/-- The multiplications and divisions. `mulw` divides, as the source does. -/
def mulDivResult (type : InstructionType) (a b : Word) : Except Abort Word :=
  let a32 := a.setWidth 32
  let b32 := b.setWidth 32
  match type with
  | .mul => .ok (a * b)
  | .mulw => (unsignedDivision BitVec.udiv a32 b32).map fun q => signextend32 (q.setWidth 64)
  | .div => signedDivision BitVec.sdiv a b
  | .divw => (signedDivision BitVec.sdiv a32 b32).map fun q => signextend32 (q.signExtend 64)
  | .divu => unsignedDivision BitVec.udiv a b
  | .divuw => (unsignedDivision BitVec.udiv a32 b32).map fun q => signextend32 (q.setWidth 64)
  | .rem => signedDivision BitVec.srem a b
  | .remu => unsignedDivision BitVec.umod a b
  | .remw => (signedDivision BitVec.srem a32 b32).map fun q => signextend32 (q.signExtend 64)
  | .remuw => (unsignedDivision BitVec.umod a32 b32).map fun q => signextend32 (q.setWidth 64)
  | _ => unreachable

/-- The switch of `step`, from the decoded instruction to the commit of the pc. -/
def execute (s : VmState) (currentPc : Word) (instruction : Instruction) :
    Except Abort (Bool × VmState) :=
  let nextPc := currentPc + 4
  let rs1 := s.cpu.get instruction.rs1
  let rs2 := s.cpu.get instruction.rs2
  let commit (memory : Memory) (cpu : Cpu) (nextPc : Word) : Except Abort (Bool × VmState) :=
    .ok (true, { s with memory := memory, cpu := cpu.set Register.pc nextPc })
  let writeback (result : Word) : Except Abort (Bool × VmState) :=
    commit s.memory (s.cpu.set instruction.rd result) nextPc
  let leave (reason : ExitReason) : Except Abort (Bool × VmState) :=
    .ok (false, { s with exit := { s.exit with reason := reason } })
  match instruction.type with
  | .lui => writeback instruction.imm
  | .auipc => writeback (currentPc + instruction.imm)
  | .jal =>
    commit s.memory (s.cpu.set instruction.rd nextPc) (currentPc + instruction.imm)
  | .jalr =>
    let target := (rs1 + instruction.imm) &&& ~~~1
    commit s.memory (s.cpu.set instruction.rd nextPc) target
  | .beq | .bne | .blt | .bge | .bltu | .bgeu => do
    let result ← branchTaken instruction.type rs1 rs2
    commit s.memory s.cpu (if result then currentPc + instruction.imm else nextPc)
  | .lb | .lh | .lw | .ld | .lbu | .lhu | .lwu => do
    let address := rs1 + instruction.imm
    match ← loadResult instruction.type s.memory address with
    | some result => writeback result
    | none => .ok (false, { s with exit := ⟨.memoryReadFault, address, instruction.rd⟩ })
  | .sb | .sh | .sw | .sd => do
    let address := rs1 + instruction.imm
    match ← storeResult instruction.type s.memory address rs2 with
    | some memory => commit memory s.cpu nextPc
    | none => .ok (false, { s with exit := ⟨.memoryWriteFault, address, instruction.rs2⟩ })
  | .addi | .xori | .ori | .andi | .addiw => do
    writeback (← immediateResult instruction.type rs1 instruction.imm)
  | .slli | .srli | .srai | .slliw | .srliw | .sraiw => do
    writeback (← shiftImmediateResult instruction.type rs1 instruction.shamt)
  | .slt | .sltu | .slti | .sltiu =>
    let b := if instruction.type = .slt ∨ instruction.type = .sltu then rs2 else instruction.imm
    writeback (if compareResult instruction.type rs1 b then 1 else 0)
  | .add | .sub | .xor | .or | .and | .sll | .srl | .sra
  | .addw | .subw | .sllw | .srlw | .sraw => do
    writeback (← registerResult instruction.type rs1 rs2)
  | .mul | .mulw | .div | .divw | .divu | .divuw | .rem | .remu | .remw | .remuw => do
    writeback (← mulDivResult instruction.type rs1 rs2)
  | .mulh | .mulhu | .mulhsu =>
    .error (.fatalError "multiply high instructions are not supported")
  | .ecall => leave .ecall
  | .ebreak => leave .ebreak
  | .undefined => leave .undefinedInstruction
  | .fence => commit s.memory s.cpu nextPc

/-- `Interpreter::step`. -/
def step (s : VmState) : Except Abort (Bool × VmState) :=
  let currentPc := s.cpu.pc
  if currentPc &&& 3 ≠ 0 then
    .ok (false, { s with exit := { s.exit with reason := .unalignedPc } })
  else
    match s.memory.readT 4 currentPc MemoryFlags.execute with
    | none => .ok (false, { s with exit := { s.exit with reason := .instructionFetchFault } })
    | some encodedInstruction =>
      execute s currentPc (.ofWord (encodedInstruction.setWidth 32))

end Interpreter

end Riscv64Emulator
