import Riscv64Emulator.Vm.Encoding

/-!
# What the engines rely on

The operands of whatever the decoder returns, misread words included: the ranges of the
immediates and the fields that are empty. The engines shift, add and dispatch on them and
check nothing.
-/
namespace Riscv64Emulator

open Isa InstructionDecoder BitFields

/-- The operands an instruction has, with the width of what it shifts. -/
inductive OperandKind where
  | registers
  | immediate
  | shift (width : Nat)
  | store
  | branch
  | upper
  | jump
  | none
deriving DecidableEq, Repr

def operandKind : InstructionType → OperandKind
  | .undefined | .ecall | .ebreak => .none
  | .lui | .auipc => .upper
  | .jal => .jump
  | .beq | .bne | .blt | .bge | .bltu | .bgeu => .branch
  | .sb | .sh | .sw | .sd => .store
  | .lb | .lh | .lw | .ld | .lbu | .lhu | .lwu | .jalr | .fence => .immediate
  | .addi | .xori | .ori | .andi | .addiw | .slti | .sltiu => .immediate
  | .slli | .srli | .srai => .shift 64
  | .slliw | .srliw | .sraiw => .shift 32
  | _ => .registers

/-- The immediate is in the range of its format, and the fields that the format does not have are
zero. -/
def OperandKind.Admits (i : Instruction) : OperandKind → Prop
  | .registers => i.imm = 0
  | .immediate => i.rs2 = Register.zero ∧ -2048 ≤ i.imm.toInt ∧ i.imm.toInt ≤ 2047
  | .shift width => i.rs2 = Register.zero ∧ i.shamt.toNat < width
  | .store => i.rd = Register.zero ∧ -2048 ≤ i.imm.toInt ∧ i.imm.toInt ≤ 2047
  | .branch =>
    i.rd = Register.zero ∧ i.imm.toInt % 2 = 0 ∧ -4096 ≤ i.imm.toInt ∧ i.imm.toInt ≤ 4094
  | .upper => i.rs1 = Register.zero ∧ i.rs2 = Register.zero ∧ i.imm &&& 0xfff = 0 ∧
    i.imm = (i.imm.setWidth 32).signExtend 64
  | .jump => i.rs1 = Register.zero ∧ i.rs2 = Register.zero ∧ i.imm.toInt % 2 = 0 ∧
    -2 ^ 20 ≤ i.imm.toInt ∧ i.imm.toInt ≤ 2 ^ 20 - 2
  | .none => i.rd = Register.zero ∧ i.rs1 = Register.zero ∧ i.rs2 = Register.zero ∧ i.imm = 0

/-- The kind of some operands. -/
def Isa.Operands.kind : Operands → OperandKind
  | .r _ _ _ => .registers
  | .i _ _ _ => .immediate
  | .shift _ _ _ => .shift 64
  | .shiftWord _ _ _ => .shift 32
  | .s _ _ _ => .store
  | .b _ _ _ => .branch
  | .u _ _ => .upper
  | .j _ _ => .jump
  | .system => .none

namespace InstructionDecoder

/-! ### Everything the decoder returns is packed -/

/-- An instruction with operands of its type. -/
def Packed (i : Instruction) : Prop := ∃ t ops, ops.kind = operandKind t ∧ i = pack t ops

theorem packed_undefined : Packed undefined := ⟨.undefined, .system, rfl, rfl⟩

section Rows

variable {t : InstructionType} {rd rs1 rs2 : BitVec 5}

theorem packed_r (kind : operandKind t = .registers) :
    Packed (setDecoded t (rd.setWidth 32) (rs1.setWidth 32) (rs2.setWidth 32) 0) :=
  ⟨t, .r rd rs1 rs2, kind.symm, rfl⟩

theorem packed_i {imm : BitVec 12} (kind : operandKind t = .immediate) :
    Packed (setDecoded t (rd.setWidth 32) (rs1.setWidth 32) 0 (imm.signExtend 32)) :=
  ⟨t, .i rd rs1 imm, kind.symm, rfl⟩

theorem packed_shift {shamt : BitVec 6} (kind : operandKind t = .shift 64) :
    Packed (setDecoded t (rd.setWidth 32) (rs1.setWidth 32) 0 (shamt.setWidth 32)) :=
  ⟨t, .shift rd rs1 shamt, kind.symm, rfl⟩

theorem packed_shiftWord {shamt : BitVec 5} (kind : operandKind t = .shift 32) :
    Packed (setDecoded t (rd.setWidth 32) (rs1.setWidth 32) 0 (shamt.setWidth 32)) :=
  ⟨t, .shiftWord rd rs1 shamt, kind.symm, rfl⟩

theorem packed_system (kind : operandKind t = .none) : Packed (setDecoded t 0 0 0 0) :=
  ⟨t, .system, kind.symm, rfl⟩

end Rows

theorem packed_decodeItype (w opcode : BitVec 32) : Packed (decodeItype w opcode) := by
  unfold decodeItype
  simp only [rd_field, rs1_field, rs2_field, shamt_field, imm_itype]
  repeat' split
  all_goals first
    | with_reducible exact packed_undefined
    | with_reducible refine packed_i ?_
      rfl
    | with_reducible refine packed_shift ?_
      rfl
    | with_reducible refine packed_shiftWord ?_
      rfl
    | with_reducible refine packed_system ?_
      rfl

theorem packed_decodeUtype (w opcode : BitVec 32) : Packed (decodeUtype w opcode) := by
  unfold decodeUtype
  simp only [rd_field, imm_utype]
  split
  · exact ⟨.lui, .u _ _, rfl, rfl⟩
  · exact ⟨.auipc, .u _ _, rfl, rfl⟩
  · exact packed_undefined

theorem packed_decodeRtype (w opcode : BitVec 32) : Packed (decodeRtype w opcode) := by
  unfold decodeRtype
  simp only [rd_field, rs1_field, rs2_field]
  repeat' split
  all_goals first
    | with_reducible exact packed_undefined
    | with_reducible refine packed_r ?_
      rfl

theorem packed_decodeStype (w opcode : BitVec 32) : Packed (decodeStype w opcode) := by
  unfold decodeStype
  simp only [rs1_field, rs2_field, imm_stype]
  repeat' split
  all_goals first
    | with_reducible exact packed_undefined
    | exact ⟨_, .s _ _ _, rfl, rfl⟩

theorem packed_decodeBtype (w opcode : BitVec 32) : Packed (decodeBtype w opcode) := by
  unfold decodeBtype
  simp only [rs1_field, rs2_field, imm_btype]
  repeat' split
  all_goals first
    | with_reducible exact packed_undefined
    | exact ⟨_, .b _ _ ⟨branchOffset w, branchOffset_even w⟩, rfl, rfl⟩

theorem packed_decodeJtype (w opcode : BitVec 32) : Packed (decodeJtype w opcode) := by
  unfold decodeJtype
  simp only [rd_field, imm_jtype]
  split
  · exact ⟨.jal, .j _ ⟨jumpOffset w, jumpOffset_even w⟩, rfl, rfl⟩
  · exact packed_undefined

/-- Whatever a word is taken for, it has operands of that type. -/
theorem packed_decode (w : BitVec 32) : Packed (decode w) := by
  unfold decode
  dsimp only
  split
  case h_1 | h_2 | h_3 | h_4 | h_5 | h_6 => exact packed_decodeItype _ _
  case h_7 | h_8 => exact packed_decodeUtype _ _
  case h_9 | h_10 => exact packed_decodeRtype _ _
  case h_11 => exact packed_decodeStype _ _
  case h_12 => exact packed_decodeBtype _ _
  case h_13 => exact packed_decodeJtype _ _
  case h_14 => exact packed_undefined

/-! ### What packed operands are -/

/-- A number of `n + 1` bits stays in its range when it is extended. -/
theorem toInt_signExtend_bounds {n : Nat} (v : BitVec (n + 1)) (small : n < 64) :
    -2 ^ n ≤ (v.signExtend 64).toInt ∧ (v.signExtend 64).toInt < 2 ^ n := by
  rw [BitVec.toInt_signExtend_of_le small]
  exact ⟨BitVec.le_toInt v, BitVec.toInt_lt⟩

/-- An even offset stays even. -/
theorem toInt_signExtend_even {n : Nat} (v : BitVec (n + 1)) (small : n < 64)
    (even : v.getLsbD 0 = false) : (v.signExtend 64).toInt % 2 = 0 := by
  have low : v.toNat % 2 = 0 := by
    rw [BitVec.getLsbD, Nat.testBit_zero, decide_eq_false_iff_not] at even
    omega
  have power : (2 : Int) ^ (n + 1) % 2 = 0 := by
    rw [pow_succ]
    exact Int.mul_emod_left _ _
  rw [BitVec.toInt_signExtend_of_le small, BitVec.toInt_eq_toNat_cond]
  split
  · omega
  · push_cast
    omega

theorem setWidth_signExtend (b : BitVec 32) : (b.signExtend 64).setWidth 32 = b := by
  apply BitVec.eq_of_getLsbD_eq
  intro k low
  rw [BitVec.getLsbD_setWidth, BitVec.getLsbD_signExtend, if_pos low]
  simp [low, show k < 64 by omega]

theorem upper_and_mask (imm : BitVec 20) : ((field 32 imm 12).signExtend 64) &&& 0xfff = 0 := by
  have mask : ∀ k < 64, (0xfff : Word).getLsbD k = decide (k < 12) := by decide
  apply BitVec.eq_of_getLsbD_eq
  intro k low
  rw [BitVec.getLsbD_and, mask k low, BitVec.getLsbD_signExtend]
  by_cases below : k < 12
  · rw [if_pos (show k < 32 by omega), getLsbD_field]
    simp [below]
  · simp [below]

/-- Packed operands are those of their kind. -/
theorem admits_pack (t : InstructionType) (ops : Operands) : ops.kind.Admits (pack t ops) := by
  have reads := reads_pack t ops
  -- the fields a format does not have are 0, and an extended immediate has the range of its field
  cases ops with
  | r rd rs1 rs2 => rfl
  | i rd rs1 imm =>
    obtain ⟨-, -, none⟩ := registers_setDecoded t rd rs1 0 (imm.signExtend 32)
    obtain ⟨low, high⟩ := toInt_signExtend_bounds imm (by decide)
    rw [← reads.2.2] at low high
    exact ⟨none, low, Int.le_of_lt_add_one high⟩
  | shift rd rs1 shamt =>
    obtain ⟨-, -, none⟩ := registers_setDecoded t rd rs1 0 (shamt.setWidth 32)
    refine ⟨none, ?_⟩
    rw [reads.2.2, BitVec.toNat_setWidth]
    omega
  | shiftWord rd rs1 shamt =>
    obtain ⟨-, -, none⟩ := registers_setDecoded t rd rs1 0 (shamt.setWidth 32)
    refine ⟨none, ?_⟩
    rw [reads.2.2, BitVec.toNat_setWidth]
    omega
  | s rs1 rs2 imm =>
    obtain ⟨none, -, -⟩ := registers_setDecoded t 0 rs1 rs2 (imm.signExtend 32)
    obtain ⟨low, high⟩ := toInt_signExtend_bounds imm (by decide)
    rw [← reads.2.2] at low high
    exact ⟨none, low, Int.le_of_lt_add_one high⟩
  | b rs1 rs2 offset =>
    obtain ⟨none, -, -⟩ := registers_setDecoded t 0 rs1 rs2 (offset.value.signExtend 32)
    obtain ⟨low, high⟩ := toInt_signExtend_bounds offset.value (by decide)
    have even := toInt_signExtend_even offset.value (by decide) offset.even
    rw [← reads.2.2] at low high even
    exact ⟨none, even, low, by omega⟩
  | u rd imm =>
    obtain ⟨-, none, none'⟩ := registers_setDecoded t rd 0 0 (field 32 imm 12)
    have value : (pack t (.u rd imm)).imm = (field 32 imm 12).signExtend 64 := rfl
    refine ⟨none, none', ?_, ?_⟩
    · rw [value]
      exact upper_and_mask imm
    · rw [value, setWidth_signExtend]
  | j rd offset =>
    obtain ⟨-, none, none'⟩ := registers_setDecoded t rd 0 0 (offset.value.signExtend 32)
    obtain ⟨low, high⟩ := toInt_signExtend_bounds offset.value (by decide)
    have even := toInt_signExtend_even offset.value (by decide) offset.even
    rw [← reads.2] at low high even
    exact ⟨none, none', even, low, by omega⟩
  | system =>
    obtain ⟨none, none', none''⟩ := registers_setDecoded t 0 0 0 0
    exact ⟨none, none', none'', rfl⟩

end InstructionDecoder

namespace Instruction

/-- The register fields name registers, the immediate and the empty fields are those of the type, and
the type field is the number of a type. -/
structure Guaranteed (i : Instruction) : Prop where
  rd : i.rd.val < 32
  rs1 : i.rs1.val < 32
  rs2 : i.rs2.val < 32
  operands : (operandKind i.type).Admits i
  known : (i.a &&& 0xffff).toNat = i.type.ctorIdx

theorem guaranteed_ofWord (w : BitVec 32) : (ofWord w).Guaranteed := by
  obtain ⟨t, ops, kind, packed⟩ := packed_decode w
  have decoded : ofWord w = pack t ops := packed
  rw [decoded]
  refine ⟨register_lt _, register_lt _, register_lt _, ?_, ?_⟩
  · rw [type_pack, ← kind]
    exact admits_pack t ops
  · have small := t.ctorIdx_lt
    have field : (pack t ops).a &&& 0xffff = BitVec.ofNat 32 t.ctorIdx := by
      cases ops <;> exact typeField_setDecoded ..
    rw [type_pack, field, BitVec.toNat_ofNat, Nat.mod_eq_of_lt (by omega)]

end Instruction

end Riscv64Emulator
