import Riscv64Emulator.Lib.LittleEndian

/-!
# Registers, instructions and the decoder

`Register.hpp`, `Instruction.hpp` and `Instruction.cpp` of `src/vm`. A decoded
instruction is packed into two 32-bit words: the type and the register fields in `a`, the
immediate or shift amount in `b`.
-/
namespace Riscv64Emulator

/-- `Register` numbers the 32 integer registers and the program counter. -/
abbrev Register := Fin 33

/-- For the literals. -/
instance Register.neZero : NeZero 33 := ⟨by decide⟩

namespace Register
def zero : Register := 0
def sp : Register := 2
def pc : Register := 32
end Register

inductive InstructionType where
  | undefined
  | lui | auipc
  | jal | jalr
  | beq | bne | blt | bge | bltu | bgeu
  | lb | lh | lw | ld | lbu | lhu | lwu
  | sb | sh | sw | sd
  | addi | xori | ori | andi | addiw | slli | srli | srai | slliw | srliw | sraiw
  | slti | sltiu
  | slt | sltu
  | add | sub | xor | or | and | sll | srl | sra | addw | subw | sllw | srlw | sraw
  | ebreak | ecall
  | fence
  | mul | mulw
  | mulh | mulhu | mulhsu
  | div | divu | divw | divuw
  | rem | remu | remw | remuw
deriving DecidableEq, Repr

/-- The packed `Instruction`. -/
structure Instruction where
  a : BitVec 32
  b : BitVec 32
deriving DecidableEq, Repr

namespace Instruction

/-- `Register(field & 0b11111)`. -/
def register (field : BitVec 32) : Register := Fin.ofNat 33 (field &&& 0b11111).toNat

def type (i : Instruction) : InstructionType := .ofNat (i.a &&& 0xffff).toNat

def rd (i : Instruction) : Register := register (i.a >>> 16)
def rs1 (i : Instruction) : Register := register (i.a >>> 21)
def rs2 (i : Instruction) : Register := register (i.a >>> 26)

def imm (i : Instruction) : Word := i.b.signExtend 64
def shamt (i : Instruction) : BitVec 32 := i.b

end Instruction

/-! ### `InstructionDecoder` -/

namespace InstructionDecoder

/-- `sign32`: all ones when bit 31 is set. -/
def sign32 (value : BitVec 32) : BitVec 32 := (value &&& 0x80000000).sshiftRight 31

def setDecoded (type : InstructionType) (rd rs1 rs2 imm : BitVec 32) : Instruction :=
  ⟨BitVec.ofNat 32 type.ctorIdx ||| (rd <<< 16) ||| (rs1 <<< 21) ||| (rs2 <<< 26), imm⟩

/-- What `decode` stores before it looks at the word. -/
def undefined : Instruction := setDecoded .undefined 0 0 0 0

/-- The bodies of the opcode switch are named: the first two have no `break` and fall
through into the next body when their inner switch does not return. -/
def decodeItype (instruction opcode : BitVec 32) : Instruction :=
  let imm0_10 := (instruction >>> 20) &&& 0b11111111111
  let imm11_31 := sign32 instruction
  let imm := imm0_10 ||| (imm11_31 <<< 11)
  let rd := (instruction >>> 7) &&& 0b11111
  let rs1 := (instruction >>> 15) &&& 0b11111
  let funct3 := (instruction >>> 12) &&& 0b111
  let shamt := (instruction >>> 20) &&& 0b111111
  let shtype := (instruction >>> 26) &&& 0b111111
  let shamt32 := (instruction >>> 20) &&& 0b11111
  let shtype32 := (instruction >>> 25) &&& 0b1111111
  let opImm32 : Instruction :=
    match funct3 with
    | 0b000#32 => setDecoded .addiw rd rs1 0 imm
    | 0b001#32 => if shtype32 = 0 then setDecoded .slliw rd rs1 0 shamt32 else undefined
    | 0b101#32 =>
      if shtype32 = 0 ∨ shtype = 0b0100000 then
        setDecoded (if shtype32 = 0 then .srliw else .sraiw) rd rs1 0 shamt32
      else undefined
    | _ => undefined
  let load : Instruction :=
    match funct3 with
    | 0b000#32 => setDecoded .lb rd rs1 0 imm
    | 0b001#32 => setDecoded .lh rd rs1 0 imm
    | 0b010#32 => setDecoded .lw rd rs1 0 imm
    | 0b100#32 => setDecoded .lbu rd rs1 0 imm
    | 0b101#32 => setDecoded .lhu rd rs1 0 imm
    | 0b110#32 => setDecoded .lwu rd rs1 0 imm
    | 0b011#32 => setDecoded .ld rd rs1 0 imm
    | _ => opImm32
  let opImm : Instruction :=
    match funct3 with
    | 0b000#32 => setDecoded .addi rd rs1 0 imm
    | 0b010#32 => setDecoded .slti rd rs1 0 imm
    | 0b011#32 => setDecoded .sltiu rd rs1 0 imm
    | 0b100#32 => setDecoded .xori rd rs1 0 imm
    | 0b110#32 => setDecoded .ori rd rs1 0 imm
    | 0b111#32 => setDecoded .andi rd rs1 0 imm
    | 0b001#32 => if shtype = 0 then setDecoded .slli rd rs1 0 shamt else load
    | 0b101#32 =>
      if shtype = 0 ∨ shtype = 0b010000 then
        setDecoded (if shtype = 0 then .srli else .srai) rd rs1 0 shamt
      else load
    | _ => load
  match opcode with
  | 0b0010011#32 => opImm
  | 0b0000011#32 => load
  | 0b0011011#32 => opImm32
  | 0b1110011#32 =>
    if funct3 = 0 ∧ rs1 = 0 ∧ rd = 0 then
      if imm = 0 ∨ imm = 1 then setDecoded (if imm = 0 then .ecall else .ebreak) 0 0 0 0
      else undefined
    else undefined
  | 0b0001111#32 => if funct3 = 0 then setDecoded .fence rd rs1 0 imm else undefined
  | 0b1100111#32 => if funct3 = 0 then setDecoded .jalr rd rs1 0 imm else undefined
  | _ => undefined

def decodeUtype (instruction opcode : BitVec 32) : Instruction :=
  let imm := instruction &&& 0xfffff000
  let rd := (instruction >>> 7) &&& 0b11111
  match opcode with
  | 0b0110111#32 => setDecoded .lui rd 0 0 imm
  | 0b0010111#32 => setDecoded .auipc rd 0 0 imm
  | _ => undefined

/-- The `funct7 = 0` body of opcode `0b0110011` falls through into the body of
`funct7 = 0b0100000`; its inner switch returns for every `funct3`. -/
def decodeRtype (instruction opcode : BitVec 32) : Instruction :=
  let rd := (instruction >>> 7) &&& 0b11111
  let rs1 := (instruction >>> 15) &&& 0b11111
  let rs2 := (instruction >>> 20) &&& 0b11111
  let funct3 := (instruction >>> 12) &&& 0b111
  let funct7 := (instruction >>> 25) &&& 0b1111111
  let decoded (type : InstructionType) : Instruction := setDecoded type rd rs1 rs2 0
  let alternate : Instruction :=
    match funct3 with
    | 0b000#32 => decoded .sub
    | 0b101#32 => decoded .sra
    | _ => undefined
  match opcode with
  | 0b0110011#32 =>
    match funct7 with
    | 0b0000000#32 =>
      match funct3 with
      | 0b000#32 => decoded .add
      | 0b001#32 => decoded .sll
      | 0b010#32 => decoded .slt
      | 0b011#32 => decoded .sltu
      | 0b100#32 => decoded .xor
      | 0b101#32 => decoded .srl
      | 0b110#32 => decoded .or
      | 0b111#32 => decoded .and
      | _ => alternate
    | 0b0100000#32 => alternate
    | 0b0000001#32 =>
      match funct3 with
      | 0b000#32 => decoded .mul
      | 0b001#32 => decoded .mulh
      | 0b010#32 => decoded .mulhsu
      | 0b011#32 => decoded .mulhu
      | 0b100#32 => decoded .div
      | 0b101#32 => decoded .divu
      | 0b110#32 => decoded .rem
      | 0b111#32 => decoded .remu
      | _ => undefined
    | _ => undefined
  | 0b0111011#32 =>
    match funct7 with
    | 0b0000000#32 =>
      match funct3 with
      | 0b000#32 => decoded .addw
      | 0b001#32 => decoded .sllw
      | 0b101#32 => decoded .srlw
      | _ => undefined
    | 0b0100000#32 =>
      match funct3 with
      | 0b000#32 => decoded .subw
      | 0b101#32 => decoded .sraw
      | _ => undefined
    | 0b0000001#32 =>
      match funct3 with
      | 0b000#32 => decoded .mulw
      | 0b100#32 => decoded .divw
      | 0b101#32 => decoded .divuw
      | 0b110#32 => decoded .remw
      | 0b111#32 => decoded .remuw
      | _ => undefined
    | _ => undefined
  | _ => undefined

def decodeStype (instruction opcode : BitVec 32) : Instruction :=
  let imm0_4 := (instruction >>> 7) &&& 0b11111
  let imm5_10 := (instruction >>> 25) &&& 0b111111
  let imm11_31 := sign32 instruction
  let imm := imm0_4 ||| (imm5_10 <<< 5) ||| (imm11_31 <<< 11)
  let rs1 := (instruction >>> 15) &&& 0b11111
  let rs2 := (instruction >>> 20) &&& 0b11111
  let funct3 := (instruction >>> 12) &&& 0b111
  if opcode = 0b0100011 then
    match funct3 with
    | 0b000#32 => setDecoded .sb 0 rs1 rs2 imm
    | 0b001#32 => setDecoded .sh 0 rs1 rs2 imm
    | 0b010#32 => setDecoded .sw 0 rs1 rs2 imm
    | 0b011#32 => setDecoded .sd 0 rs1 rs2 imm
    | _ => undefined
  else undefined

def decodeBtype (instruction opcode : BitVec 32) : Instruction :=
  let imm1_4 := (instruction >>> 8) &&& 0b1111
  let imm5_10 := (instruction >>> 25) &&& 0b111111
  let imm11 := (instruction >>> 7) &&& 0b1
  let imm12_31 := sign32 instruction
  let imm := (imm1_4 <<< 1) ||| (imm5_10 <<< 5) ||| (imm11 <<< 11) ||| (imm12_31 <<< 12)
  let rs1 := (instruction >>> 15) &&& 0b11111
  let rs2 := (instruction >>> 20) &&& 0b11111
  let funct3 := (instruction >>> 12) &&& 0b111
  if opcode = 0b1100011 then
    match funct3 with
    | 0b000#32 => setDecoded .beq 0 rs1 rs2 imm
    | 0b001#32 => setDecoded .bne 0 rs1 rs2 imm
    | 0b100#32 => setDecoded .blt 0 rs1 rs2 imm
    | 0b101#32 => setDecoded .bge 0 rs1 rs2 imm
    | 0b110#32 => setDecoded .bltu 0 rs1 rs2 imm
    | 0b111#32 => setDecoded .bgeu 0 rs1 rs2 imm
    | _ => undefined
  else undefined

def decodeJtype (instruction opcode : BitVec 32) : Instruction :=
  let imm1_10 := (instruction >>> 21) &&& 0b1111111111
  let imm11 := (instruction >>> 20) &&& 0b1
  let imm12_19 := (instruction >>> 12) &&& 0b11111111
  let imm20_31 := sign32 instruction
  let imm := (imm1_10 <<< 1) ||| (imm11 <<< 11) ||| (imm12_19 <<< 12) ||| (imm20_31 <<< 20)
  let rd := (instruction >>> 7) &&& 0b11111
  if opcode = 0b1101111 then setDecoded .jal rd 0 0 imm else undefined

def decode (instruction : BitVec 32) : Instruction :=
  let opcode := instruction &&& 0b1111111
  match opcode with
  | 0b0000011#32 | 0b0001111#32 | 0b0010011#32 | 0b0011011#32 | 0b1110011#32 | 0b1100111#32 =>
    decodeItype instruction opcode
  | 0b0010111#32 | 0b0110111#32 => decodeUtype instruction opcode
  | 0b0110011#32 | 0b0111011#32 => decodeRtype instruction opcode
  | 0b0100011#32 => decodeStype instruction opcode
  | 0b1100011#32 => decodeBtype instruction opcode
  | 0b1101111#32 => decodeJtype instruction opcode
  | _ => undefined

end InstructionDecoder

/-- The constructor `Instruction(encoded_instruction)`. -/
def Instruction.ofWord (encodedInstruction : BitVec 32) : Instruction :=
  InstructionDecoder.decode encodedInstruction

/-! ### Operands of decoded instructions -/

namespace Instruction

theorem register_lt (field : BitVec 32) : (register field).val < 32 := by
  have masked : (field &&& 0b11111).toNat ≤ 31 := by
    rw [BitVec.toNat_and]
    exact Nat.and_le_right
  change (field &&& 0b11111).toNat % 33 < 32
  omega

theorem rd_ne_pc (i : Instruction) : i.rd ≠ Register.pc :=
  fun h => absurd (congrArg Fin.val h) (Nat.ne_of_lt (register_lt _))

theorem rs1_ne_pc (i : Instruction) : i.rs1 ≠ Register.pc :=
  fun h => absurd (congrArg Fin.val h) (Nat.ne_of_lt (register_lt _))

theorem rs2_ne_pc (i : Instruction) : i.rs2 ≠ Register.pc :=
  fun h => absurd (congrArg Fin.val h) (Nat.ne_of_lt (register_lt _))

end Instruction

theorem InstructionType.ctorIdx_lt (t : InstructionType) : t.ctorIdx < 2 ^ 16 := by
  cases t <;> decide

namespace InstructionDecoder

/-- The register fields lie above the type. -/
theorem typeField_setDecoded (t : InstructionType) (rd rs1 rs2 imm : BitVec 32) :
    (setDecoded t rd rs1 rs2 imm).a &&& 0xffff = BitVec.ofNat 32 t.ctorIdx := by
  have small := t.ctorIdx_lt
  apply BitVec.eq_of_getLsbD_eq
  intro k bound
  have mask : (0xffff : BitVec 32).getLsbD k = decide (k < 16) := by
    revert k; decide
  simp only [setDecoded, BitVec.getLsbD_and, BitVec.getLsbD_or, BitVec.getLsbD_shiftLeft, mask]
  -- the registers start at bit 16, and a type needs fewer bits
  by_cases low : k < 16
  · simp [low, show k < 21 by omega, show k < 26 by omega]
  · have high : (BitVec.ofNat 32 t.ctorIdx).getLsbD k = false := by
      rw [BitVec.getLsbD_ofNat]
      have power : 2 ^ 16 ≤ 2 ^ k := Nat.pow_le_pow_right (by decide) (by omega)
      rw [Nat.testBit_lt_two_pow (by omega)]
      simp
    simp [low, high]

/-- Packing keeps the type. -/
theorem type_setDecoded (t : InstructionType) (rd rs1 rs2 imm : BitVec 32) :
    (setDecoded t rd rs1 rs2 imm).type = t := by
  have small := t.ctorIdx_lt
  unfold Instruction.type
  rw [typeField_setDecoded, BitVec.toNat_ofNat, Nat.mod_eq_of_lt (by omega), InstructionType.ofNat_ctorIdx]

/-- What the immediate word of each format can be: shift amounts below the width, and
nothing for the register-register format. -/
def ImmediateOf : InstructionType → BitVec 32 → Prop
  | .slli, b | .srli, b | .srai, b => b.toNat < 64
  | .slliw, b | .srliw, b | .sraiw, b => b.toNat < 32
  | .slt, b | .sltu, b => b = 0
  | .add, b | .sub, b | .xor, b | .or, b | .and, b | .sll, b | .srl, b | .sra, b => b = 0
  | .addw, b | .subw, b | .sllw, b | .srlw, b | .sraw, b => b = 0
  | _, _ => True

private theorem immediateOf_setDecoded {t : InstructionType} {rd rs1 rs2 imm : BitVec 32}
    (shape : ImmediateOf t imm) :
    ImmediateOf (setDecoded t rd rs1 rs2 imm).type (setDecoded t rd rs1 rs2 imm).b := by
  rw [type_setDecoded]
  exact shape

private theorem immediateOf_undefined : ImmediateOf undefined.type undefined.b :=
  immediateOf_setDecoded trivial

private theorem field_lt (w : BitVec 32) (mask bound : Nat) (small : mask < bound)
    (fits : mask < 2 ^ 32) : (w &&& BitVec.ofNat 32 mask).toNat < bound := by
  rw [BitVec.toNat_and, BitVec.toNat_ofNat, Nat.mod_eq_of_lt fits]
  exact Nat.lt_of_le_of_lt Nat.and_le_right small

private theorem immediateOf_decodeItype (w opcode : BitVec 32) :
    ImmediateOf (decodeItype w opcode).type (decodeItype w opcode).b := by
  have six : ((w >>> 20) &&& 0b111111).toNat < 64 := field_lt _ 63 64 (by decide) (by decide)
  have five : ((w >>> 20) &&& 0b11111).toNat < 32 := field_lt _ 31 32 (by decide) (by decide)
  unfold decodeItype
  dsimp only
  repeat' split
  all_goals first
    | exact immediateOf_undefined
    | exact immediateOf_setDecoded trivial
    | exact immediateOf_setDecoded six
    | exact immediateOf_setDecoded five

private theorem immediateOf_decodeRtype (w opcode : BitVec 32) :
    ImmediateOf (decodeRtype w opcode).type (decodeRtype w opcode).b := by
  unfold decodeRtype
  dsimp only
  repeat' split
  all_goals first
    | exact immediateOf_undefined
    | exact immediateOf_setDecoded trivial
    | exact immediateOf_setDecoded rfl

private theorem immediateOf_decodeStype (w opcode : BitVec 32) :
    ImmediateOf (decodeStype w opcode).type (decodeStype w opcode).b := by
  unfold decodeStype
  dsimp only
  repeat' split
  all_goals first | exact immediateOf_undefined | exact immediateOf_setDecoded trivial

private theorem immediateOf_decodeBtype (w opcode : BitVec 32) :
    ImmediateOf (decodeBtype w opcode).type (decodeBtype w opcode).b := by
  unfold decodeBtype
  dsimp only
  repeat' split
  all_goals first | exact immediateOf_undefined | exact immediateOf_setDecoded trivial

private theorem immediateOf_decodeUtype (w opcode : BitVec 32) :
    ImmediateOf (decodeUtype w opcode).type (decodeUtype w opcode).b := by
  unfold decodeUtype
  dsimp only
  split
  all_goals first | exact immediateOf_undefined | exact immediateOf_setDecoded trivial

private theorem immediateOf_decodeJtype (w opcode : BitVec 32) :
    ImmediateOf (decodeJtype w opcode).type (decodeJtype w opcode).b := by
  unfold decodeJtype
  dsimp only
  split
  · exact immediateOf_setDecoded trivial
  · exact immediateOf_undefined

/-- Every decoded word has an immediate of its format. -/
theorem immediateOf_decode (w : BitVec 32) : ImmediateOf (decode w).type (decode w).b := by
  unfold decode
  dsimp only
  split
  case h_1 | h_2 | h_3 | h_4 | h_5 | h_6 => exact immediateOf_decodeItype _ _
  case h_7 | h_8 => exact immediateOf_decodeUtype _ _
  case h_9 | h_10 => exact immediateOf_decodeRtype _ _
  case h_11 => exact immediateOf_decodeStype _ _
  case h_12 => exact immediateOf_decodeBtype _ _
  case h_13 => exact immediateOf_decodeJtype _ _
  case h_14 => exact immediateOf_undefined

end InstructionDecoder

theorem Instruction.immediateOf_ofWord (w : BitVec 32) :
    InstructionDecoder.ImmediateOf (ofWord w).type (ofWord w).b :=
  InstructionDecoder.immediateOf_decode w

end Riscv64Emulator
