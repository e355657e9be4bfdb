import Riscv64Emulator.Vm.Instruction
import Riscv64Emulator.Lib.BitFields

/-!
# The encoding of RV64IM

The instruction formats of the unprivileged ISA and the word each instruction is encoded
in, stated on their own, and what the decoder makes of the words.
-/
namespace Riscv64Emulator

open BitFields

namespace Isa

/-- The formats, with the fields that select an instruction. -/
inductive Format where
  | r (opcode : BitVec 7) (funct3 : BitVec 3) (funct7 : BitVec 7)
  | i (opcode : BitVec 7) (funct3 : BitVec 3)
  | shift (opcode : BitVec 7) (funct3 : BitVec 3) (funct6 : BitVec 6)
  | shiftWord (opcode : BitVec 7) (funct3 : BitVec 3) (funct7 : BitVec 7)
  | s (opcode : BitVec 7) (funct3 : BitVec 3)
  | b (opcode : BitVec 7) (funct3 : BitVec 3)
  | u (opcode : BitVec 7)
  | j (opcode : BitVec 7)
  | system (opcode : BitVec 7) (funct12 : BitVec 12)
deriving DecidableEq, Repr

/-- The opcode table. -/
def format : InstructionType → Option Format
  | .undefined => none
  | .lui => some (.u 0b0110111)
  | .auipc => some (.u 0b0010111)
  | .jal => some (.j 0b1101111)
  | .jalr => some (.i 0b1100111 0b000)
  | .beq => some (.b 0b1100011 0b000)
  | .bne => some (.b 0b1100011 0b001)
  | .blt => some (.b 0b1100011 0b100)
  | .bge => some (.b 0b1100011 0b101)
  | .bltu => some (.b 0b1100011 0b110)
  | .bgeu => some (.b 0b1100011 0b111)
  | .lb => some (.i 0b0000011 0b000)
  | .lh => some (.i 0b0000011 0b001)
  | .lw => some (.i 0b0000011 0b010)
  | .ld => some (.i 0b0000011 0b011)
  | .lbu => some (.i 0b0000011 0b100)
  | .lhu => some (.i 0b0000011 0b101)
  | .lwu => some (.i 0b0000011 0b110)
  | .sb => some (.s 0b0100011 0b000)
  | .sh => some (.s 0b0100011 0b001)
  | .sw => some (.s 0b0100011 0b010)
  | .sd => some (.s 0b0100011 0b011)
  | .addi => some (.i 0b0010011 0b000)
  | .slti => some (.i 0b0010011 0b010)
  | .sltiu => some (.i 0b0010011 0b011)
  | .xori => some (.i 0b0010011 0b100)
  | .ori => some (.i 0b0010011 0b110)
  | .andi => some (.i 0b0010011 0b111)
  | .slli => some (.shift 0b0010011 0b001 0b000000)
  | .srli => some (.shift 0b0010011 0b101 0b000000)
  | .srai => some (.shift 0b0010011 0b101 0b010000)
  | .addiw => some (.i 0b0011011 0b000)
  | .slliw => some (.shiftWord 0b0011011 0b001 0b0000000)
  | .srliw => some (.shiftWord 0b0011011 0b101 0b0000000)
  | .sraiw => some (.shiftWord 0b0011011 0b101 0b0100000)
  | .add => some (.r 0b0110011 0b000 0b0000000)
  | .sub => some (.r 0b0110011 0b000 0b0100000)
  | .sll => some (.r 0b0110011 0b001 0b0000000)
  | .slt => some (.r 0b0110011 0b010 0b0000000)
  | .sltu => some (.r 0b0110011 0b011 0b0000000)
  | .xor => some (.r 0b0110011 0b100 0b0000000)
  | .srl => some (.r 0b0110011 0b101 0b0000000)
  | .sra => some (.r 0b0110011 0b101 0b0100000)
  | .or => some (.r 0b0110011 0b110 0b0000000)
  | .and => some (.r 0b0110011 0b111 0b0000000)
  | .addw => some (.r 0b0111011 0b000 0b0000000)
  | .subw => some (.r 0b0111011 0b000 0b0100000)
  | .sllw => some (.r 0b0111011 0b001 0b0000000)
  | .srlw => some (.r 0b0111011 0b101 0b0000000)
  | .sraw => some (.r 0b0111011 0b101 0b0100000)
  | .mul => some (.r 0b0110011 0b000 0b0000001)
  | .mulh => some (.r 0b0110011 0b001 0b0000001)
  | .mulhsu => some (.r 0b0110011 0b010 0b0000001)
  | .mulhu => some (.r 0b0110011 0b011 0b0000001)
  | .div => some (.r 0b0110011 0b100 0b0000001)
  | .divu => some (.r 0b0110011 0b101 0b0000001)
  | .rem => some (.r 0b0110011 0b110 0b0000001)
  | .remu => some (.r 0b0110011 0b111 0b0000001)
  | .mulw => some (.r 0b0111011 0b000 0b0000001)
  | .divw => some (.r 0b0111011 0b100 0b0000001)
  | .divuw => some (.r 0b0111011 0b101 0b0000001)
  | .remw => some (.r 0b0111011 0b110 0b0000001)
  | .remuw => some (.r 0b0111011 0b111 0b0000001)
  | .fence => some (.i 0b0001111 0b000)
  | .ecall => some (.system 0b1110011 0)
  | .ebreak => some (.system 0b1110011 1)

/-- A signed offset in multiples of two bytes. -/
structure EvenOffset (n : Nat) where
  value : BitVec n
  even : value.getLsbD 0 = false

/-- The operands each format has room for. -/
inductive Operands where
  | r (rd rs1 rs2 : BitVec 5)
  | i (rd rs1 : BitVec 5) (imm : BitVec 12)
  | shift (rd rs1 : BitVec 5) (shamt : BitVec 6)
  | shiftWord (rd rs1 : BitVec 5) (shamt : BitVec 5)
  | s (rs1 rs2 : BitVec 5) (imm : BitVec 12)
  | b (rs1 rs2 : BitVec 5) (offset : EvenOffset 13)
  | u (rd : BitVec 5) (imm : BitVec 20)
  | j (rd : BitVec 5) (offset : EvenOffset 21)
  | system

/-- The word of an instruction. -/
def encode : Format → Operands → Option (BitVec 32)
  | .r opcode funct3 funct7, .r rd rs1 rs2 =>
    some (field 32 funct7 25 ||| field 32 rs2 20 ||| field 32 rs1 15 ||| field 32 funct3 12 |||
      field 32 rd 7 ||| field 32 opcode 0)
  | .i opcode funct3, .i rd rs1 imm =>
    some (field 32 imm 20 ||| field 32 rs1 15 ||| field 32 funct3 12 ||| field 32 rd 7 |||
      field 32 opcode 0)
  | .shift opcode funct3 funct6, .shift rd rs1 shamt =>
    some (field 32 funct6 26 ||| field 32 shamt 20 ||| field 32 rs1 15 ||| field 32 funct3 12 |||
      field 32 rd 7 ||| field 32 opcode 0)
  | .shiftWord opcode funct3 funct7, .shiftWord rd rs1 shamt =>
    some (field 32 funct7 25 ||| field 32 shamt 20 ||| field 32 rs1 15 ||| field 32 funct3 12 |||
      field 32 rd 7 ||| field 32 opcode 0)
  | .s opcode funct3, .s rs1 rs2 imm =>
    some (field 32 (imm.extractLsb' 5 7) 25 ||| field 32 rs2 20 ||| field 32 rs1 15 |||
      field 32 funct3 12 ||| field 32 (imm.extractLsb' 0 5) 7 ||| field 32 opcode 0)
  | .b opcode funct3, .b rs1 rs2 offset =>
    some (field 32 (offset.value.extractLsb' 12 1) 31 |||
      field 32 (offset.value.extractLsb' 5 6) 25 |||
      field 32 rs2 20 ||| field 32 rs1 15 ||| field 32 funct3 12 |||
      field 32 (offset.value.extractLsb' 1 4) 8 ||| field 32 (offset.value.extractLsb' 11 1) 7 |||
      field 32 opcode 0)
  | .u opcode, .u rd imm => some (field 32 imm 12 ||| field 32 rd 7 ||| field 32 opcode 0)
  | .j opcode, .j rd offset =>
    some (field 32 (offset.value.extractLsb' 20 1) 31 |||
      field 32 (offset.value.extractLsb' 1 10) 21 |||
      field 32 (offset.value.extractLsb' 11 1) 20 |||
      field 32 (offset.value.extractLsb' 12 8) 12 |||
      field 32 rd 7 ||| field 32 opcode 0)
  | .system opcode funct12, .system => some (field 32 funct12 20 ||| field 32 opcode 0)
  | _, _ => none

/-! ### Reading a word by its format -/

/-- The fields of `w` that select an instruction are those of the format. -/
def Matches (w : BitVec 32) : Format → Prop
  | .r opcode funct3 funct7 =>
    w.extractLsb' 0 7 = opcode ∧ w.extractLsb' 12 3 = funct3 ∧ w.extractLsb' 25 7 = funct7
  | .i opcode funct3 | .s opcode funct3 | .b opcode funct3 =>
    w.extractLsb' 0 7 = opcode ∧ w.extractLsb' 12 3 = funct3
  | .shift opcode funct3 funct6 =>
    w.extractLsb' 0 7 = opcode ∧ w.extractLsb' 12 3 = funct3 ∧ w.extractLsb' 26 6 = funct6
  | .shiftWord opcode funct3 funct7 =>
    w.extractLsb' 0 7 = opcode ∧ w.extractLsb' 12 3 = funct3 ∧ w.extractLsb' 25 7 = funct7
  | .u opcode | .j opcode => w.extractLsb' 0 7 = opcode
  | .system opcode funct12 =>
    w.extractLsb' 0 7 = opcode ∧ w.extractLsb' 7 13 = 0 ∧ w.extractLsb' 20 12 = funct12

/-- The branch offset in a word. -/
def branchOffset (w : BitVec 32) : BitVec 13 :=
  field 13 (w.extractLsb' 31 1) 12 ||| field 13 (w.extractLsb' 7 1) 11 |||
    field 13 (w.extractLsb' 25 6) 5 ||| field 13 (w.extractLsb' 8 4) 1

theorem branchOffset_even (w : BitVec 32) : (branchOffset w).getLsbD 0 = false := by
  simp only [branchOffset, BitVec.getLsbD_or, getLsbD_field, Nat.le_zero_eq,
    OfNat.ofNat_ne_zero, one_ne_zero, decide_false, Bool.false_and, Bool.and_false, Bool.or_self]

/-- The jump offset in a word. -/
def jumpOffset (w : BitVec 32) : BitVec 21 :=
  field 21 (w.extractLsb' 31 1) 20 ||| field 21 (w.extractLsb' 12 8) 12 |||
    field 21 (w.extractLsb' 20 1) 11 ||| field 21 (w.extractLsb' 21 10) 1

theorem jumpOffset_even (w : BitVec 32) : (jumpOffset w).getLsbD 0 = false := by
  simp only [jumpOffset, BitVec.getLsbD_or, getLsbD_field, Nat.le_zero_eq,
    OfNat.ofNat_ne_zero, one_ne_zero, decide_false, Bool.false_and, Bool.and_false, Bool.or_self]

/-- The store offset in a word. -/
def storeOffset (w : BitVec 32) : BitVec 12 :=
  field 12 (w.extractLsb' 25 7) 5 ||| field 12 (w.extractLsb' 7 5) 0

/-- The operands in a word of a format. -/
def operandsOf (w : BitVec 32) : Format → Operands
  | .r _ _ _ => .r (w.extractLsb' 7 5) (w.extractLsb' 15 5) (w.extractLsb' 20 5)
  | .i _ _ => .i (w.extractLsb' 7 5) (w.extractLsb' 15 5) (w.extractLsb' 20 12)
  | .shift _ _ _ => .shift (w.extractLsb' 7 5) (w.extractLsb' 15 5) (w.extractLsb' 20 6)
  | .shiftWord _ _ _ => .shiftWord (w.extractLsb' 7 5) (w.extractLsb' 15 5) (w.extractLsb' 20 5)
  | .s _ _ => .s (w.extractLsb' 15 5) (w.extractLsb' 20 5) (storeOffset w)
  | .b _ _ => .b (w.extractLsb' 15 5) (w.extractLsb' 20 5)
    ⟨branchOffset w, branchOffset_even w⟩
  | .u _ => .u (w.extractLsb' 7 5) (w.extractLsb' 12 20)
  | .j _ => .j (w.extractLsb' 7 5) ⟨jumpOffset w, jumpOffset_even w⟩
  | .system _ _ => .system

/-- A word of a format is one of its encodings. -/
theorem encode_operandsOf {w : BitVec 32} {f : Format} (matched : Matches w f) :
    encode f (operandsOf w f) = some w := by
  -- putting the slices of a matching word side by side gives the word back
  cases f with
  | r opcode funct3 funct7 | shift opcode funct3 funct6 | shiftWord opcode funct3 funct7 =>
    obtain ⟨rfl, rfl, rfl⟩ := matched
    simp [encode, operandsOf, join_slices, field_whole]
  | i opcode funct3 =>
    obtain ⟨rfl, rfl⟩ := matched
    simp [encode, operandsOf, join_slices, field_whole]
  | s opcode funct3 =>
    obtain ⟨rfl, rfl⟩ := matched
    simp [encode, operandsOf, storeOffset, slice_or, slice_field_same, slice_field_other,
      join_slices, field_whole]
  | b opcode funct3 =>
    obtain ⟨rfl, rfl⟩ := matched
    simp [encode, operandsOf, branchOffset, slice_or, slice_field_same, slice_field_other,
      join_slices, field_whole]
  | u opcode =>
    obtain rfl := matched
    simp [encode, operandsOf, join_slices, field_whole]
  | j opcode =>
    obtain rfl := matched
    simp [encode, operandsOf, jumpOffset, slice_or, slice_field_same, slice_field_other,
      join_slices, field_whole]
  | system opcode funct12 =>
    obtain ⟨rfl, empty, rfl⟩ := matched
    -- the middle thirteen bits of an `ecall` or `ebreak` are empty, so they add nothing
    have padded : field 32 (w.extractLsb' 7 13) 7 = 0 := by rw [empty]; rfl
    have whole : field 32 (w.extractLsb' 20 12) 20 ||| field 32 (w.extractLsb' 7 13) 7
        ||| field 32 (w.extractLsb' 0 7) 0 = w := by simp [join_slices, field_whole]
    rw [padded] at whole
    simpa [encode, operandsOf] using whole

theorem EvenOffset.eq_of_value {n : Nat} {x y : EvenOffset n} (same : x.value = y.value) :
    x = y := by
  cases x
  cases y
  cases same
  rfl

/-- A word that encodes operands has the fields of the format and holds the operands. -/
theorem encode_some {w : BitVec 32} {f : Format} {ops : Operands}
    (encodes : encode f ops = some w) : Matches w f ∧ operandsOf w f = ops := by
  cases f <;> cases ops <;> simp only [encode, reduceCtorEq, Option.some.injEq] at encodes <;>
    subst encodes
  -- the two scattered offsets lose their lowest bit, which an even offset does not have
  case b.b opcode funct3 rs1 rs2 offset =>
    refine ⟨by simp [Matches, slice_or, slice_field_same, slice_field_other], ?_⟩
    simp only [operandsOf, Operands.b.injEq]
    refine ⟨by simp [slice_or, slice_field_same, slice_field_other],
      by simp [slice_or, slice_field_same, slice_field_other], ?_⟩
    apply EvenOffset.eq_of_value
    have whole := field_even offset.value offset.even
    simpa [branchOffset, slice_or, slice_field_same, slice_field_other, join_slices] using whole
  case j.j opcode rd offset =>
    refine ⟨by simp [Matches, slice_or, slice_field_same, slice_field_other], ?_⟩
    simp only [operandsOf, Operands.j.injEq]
    refine ⟨by simp [slice_or, slice_field_same, slice_field_other], ?_⟩
    apply EvenOffset.eq_of_value
    have whole := field_even offset.value offset.even
    simpa [jumpOffset, slice_or, slice_field_same, slice_field_other, join_slices] using whole
  all_goals
    simp [Matches, operandsOf, slice_or, slice_field_same, slice_field_other, storeOffset,
      join_slices, field_whole]

end Isa

/-! ### The fields as the decoder reads them -/

namespace InstructionDecoder

open Isa

private theorem opcode_field (w : BitVec 32) :
    w &&& 0b1111111 = (w.extractLsb' 0 7).setWidth 32 := by
  have low : (w >>> 0) &&& 0b1111111 = (w.extractLsb' 0 7).setWidth 32 :=
    shift_and_mask w 0 (by decide)
  simpa using low

theorem rd_field (w : BitVec 32) :
    (w >>> 7) &&& 0b11111 = (w.extractLsb' 7 5).setWidth 32 :=
  shift_and_mask w 7 (by decide)

theorem rs1_field (w : BitVec 32) :
    (w >>> 15) &&& 0b11111 = (w.extractLsb' 15 5).setWidth 32 :=
  shift_and_mask w 15 (by decide)

theorem rs2_field (w : BitVec 32) :
    (w >>> 20) &&& 0b11111 = (w.extractLsb' 20 5).setWidth 32 :=
  shift_and_mask w 20 (by decide)

private theorem funct3_field (w : BitVec 32) :
    (w >>> 12) &&& 0b111 = (w.extractLsb' 12 3).setWidth 32 :=
  shift_and_mask w 12 (by decide)

private theorem funct7_field (w : BitVec 32) :
    (w >>> 25) &&& 0b1111111 = (w.extractLsb' 25 7).setWidth 32 :=
  shift_and_mask w 25 (by decide)

theorem shamt_field (w : BitVec 32) :
    (w >>> 20) &&& 0b111111 = (w.extractLsb' 20 6).setWidth 32 :=
  shift_and_mask w 20 (by decide)

private theorem shtype_field (w : BitVec 32) :
    (w >>> 26) &&& 0b111111 = (w.extractLsb' 26 6).setWidth 32 :=
  shift_and_mask w 26 (by decide)

/-- `sign32` copies bit 31 to every place. -/
theorem getLsbD_sign32 (w : BitVec 32) (k : Nat) :
    (sign32 w).getLsbD k = (decide (k < 32) && w.getLsbD 31) := by
  simp only [sign32, BitVec.getLsbD_sshiftRight, BitVec.getLsbD_and, BitVec.msb_and]
  by_cases low : k < 32
  · by_cases first : 31 + k < 32
    · have : k = 0 := by omega
      subst this
      simp
    · simp [low, first, BitVec.msb_eq_getLsbD_last]
  · simp [low]

/-- The sign of the word above a field fills the field up to 32 bits. -/
theorem signExtend_of_sign32 {n : Nat} {w low : BitVec 32} (v : BitVec (n + 1)) (small : n < 32)
    (sign : v.getLsbD n = w.getLsbD 31) (same : ∀ k < n, low.getLsbD k = v.getLsbD k)
    (empty : ∀ k, n ≤ k → low.getLsbD k = false) :
    low ||| (sign32 w <<< n) = v.signExtend 32 := by
  have sign' : w[31] = v[n] := by simpa using sign.symm
  apply BitVec.eq_of_getLsbD_eq
  intro k inside
  simp only [BitVec.getLsbD_or, BitVec.getLsbD_shiftLeft, getLsbD_sign32, BitVec.getLsbD_signExtend,
    BitVec.msb_eq_getLsbD_last, Nat.add_sub_cancel, inside, decide_true, Bool.true_and]
  -- below the sign bit, at the sign bit, above it
  by_cases below : k < n
  · simp [below, same k below, show k < n + 1 by omega]
  · by_cases top : k < n + 1
    · have : k = n := by omega
      subst this
      simp [sign', empty]
    · simp [top, below, sign', empty k (by omega), show k - n < 32 by omega]

theorem imm_itype (w : BitVec 32) :
    ((w >>> 20) &&& (0b11111111111 : BitVec 32)) ||| (sign32 w <<< 11)
      = (w.extractLsb' 20 12).signExtend 32 := by
  rw [shift_and_mask w 20 (n := 11) (by decide)]
  apply signExtend_of_sign32 (n := 11)
  · decide
  · simp
  · intro k below
    simp [below, show k < 32 by omega, show k < 12 by omega]
  · intro k above
    simp [show ¬ k < 11 by omega]

theorem imm_stype (w : BitVec 32) :
    ((w >>> 7) &&& (0b11111 : BitVec 32)) ||| (((w >>> 25) &&& 0b111111) <<< 5)
        ||| (sign32 w <<< 11)
      = (storeOffset w).signExtend 32 := by
  rw [shift_and_mask w 7 (n := 5) (by decide), shift_and_mask w 25 (n := 6) (by decide)]
  -- the source reads six of the seven upper bits here, the seventh comes with the sign
  apply signExtend_of_sign32 (n := 11)
  · decide
  · simp [storeOffset, getElem_field]
  · intro k below
    simp [storeOffset, getLsbD_field]
    grind
  · intro k above
    simp [show ¬ k < 5 by omega]
    omega

theorem imm_btype (w : BitVec 32) :
    (((w >>> 8) &&& 0b1111) <<< 1) ||| (((w >>> 25) &&& 0b111111) <<< 5)
        ||| (((w >>> 7) &&& 0b1) <<< 11) ||| (sign32 w <<< 12)
      = (branchOffset w).signExtend 32 := by
  rw [shift_and_mask w 8 (n := 4) (by decide), shift_and_mask w 25 (n := 6) (by decide),
    shift_and_mask w 7 (n := 1) (by decide)]
  apply signExtend_of_sign32 (n := 12)
  · decide
  · simp [branchOffset, getElem_field]
  · intro k below
    simp [branchOffset, getLsbD_field]
    grind
  · intro k above
    simp [show ¬ k < 11 by omega, show ¬ k < 1 by omega]
    omega

theorem imm_jtype (w : BitVec 32) :
    (((w >>> 21) &&& 0b1111111111) <<< 1) ||| (((w >>> 20) &&& 0b1) <<< 11)
        ||| (((w >>> 12) &&& 0b11111111) <<< 12) ||| (sign32 w <<< 20)
      = (jumpOffset w).signExtend 32 := by
  rw [shift_and_mask w 21 (n := 10) (by decide), shift_and_mask w 20 (n := 1) (by decide),
    shift_and_mask w 12 (n := 8) (by decide)]
  apply signExtend_of_sign32 (n := 20)
  · decide
  · simp [jumpOffset, getElem_field]
  · intro k below
    simp [jumpOffset, getLsbD_field]
    grind
  · intro k above
    simp [show ¬ k < 11 by omega, show ¬ k < 1 by omega]
    omega

theorem imm_utype (w : BitVec 32) : w &&& 0xfffff000 = field 32 (w.extractLsb' 12 20) 12 := by
  have mask : ∀ k < 32, (0xfffff000 : BitVec 32).getLsbD k = decide (12 ≤ k) := by decide
  apply BitVec.eq_of_getLsbD_eq
  intro k low
  simp only [BitVec.getLsbD_and, mask k low, getLsbD_field, BitVec.getLsbD_extractLsb']
  by_cases place : 12 ≤ k
  · simp [place, low, show k - 12 < 20 by omega]
  · simp [place]
/-- The packed form of an instruction with its operands. -/
def pack (t : InstructionType) : Operands → Instruction
  | .r rd rs1 rs2 => setDecoded t (rd.setWidth 32) (rs1.setWidth 32) (rs2.setWidth 32) 0
  | .i rd rs1 imm => setDecoded t (rd.setWidth 32) (rs1.setWidth 32) 0 (imm.signExtend 32)
  | .shift rd rs1 shamt => setDecoded t (rd.setWidth 32) (rs1.setWidth 32) 0 (shamt.setWidth 32)
  | .shiftWord rd rs1 shamt =>
    setDecoded t (rd.setWidth 32) (rs1.setWidth 32) 0 (shamt.setWidth 32)
  | .s rs1 rs2 imm => setDecoded t 0 (rs1.setWidth 32) (rs2.setWidth 32) (imm.signExtend 32)
  | .b rs1 rs2 offset =>
    setDecoded t 0 (rs1.setWidth 32) (rs2.setWidth 32) (offset.value.signExtend 32)
  | .u rd imm => setDecoded t (rd.setWidth 32) 0 0 (field 32 imm 12)
  | .j rd offset => setDecoded t (rd.setWidth 32) 0 0 (offset.value.signExtend 32)
  | .system => setDecoded t 0 0 0 0

theorem decode_matches {w : BitVec 32} {t : InstructionType} {f : Format}
    (named : format t = some f) (matched : Matches w f) (known : t ≠ .sraiw) :
    decode w = pack t (operandsOf w f) := by
  cases t
  case undefined => cases named
  case sraiw => contradiction
  all_goals
    obtain rfl := Option.some.inj named
    simp only [Matches] at matched
    simp only [decode, opcode_field, matched, BitVec.reduceSetWidth]
  -- one case for each format, with the fields that format fixes
  case lui | auipc =>
    simp only [decodeUtype, rd_field, imm_utype, pack, operandsOf]
  case jal =>
    simp only [decodeJtype, rd_field, imm_jtype, pack, operandsOf]
    rfl
  case beq | bne | blt | bge | bltu | bgeu =>
    simp only [decodeBtype, rs1_field, rs2_field, imm_btype, funct3_field, matched, pack,
      operandsOf, BitVec.reduceSetWidth]
    rfl
  case sb | sh | sw | sd =>
    simp only [decodeStype, rs1_field, rs2_field, imm_stype, funct3_field, matched, pack,
      operandsOf, BitVec.reduceSetWidth]
    rfl
  case slli | srli | srai =>
    simp only [decodeItype, rd_field, rs1_field, shamt_field, shtype_field, funct3_field, matched,
      pack, operandsOf, BitVec.reduceSetWidth]
    rfl
  -- `sraiw` is left out: the source tests its funct7 with the wrong width
  case slliw | srliw =>
    simp only [decodeItype, rd_field, rs1_field, rs2_field, funct7_field, funct3_field, matched,
      pack, operandsOf, BitVec.reduceSetWidth]
    simp
  case jalr | lb | lh | lw | ld | lbu | lhu | lwu | addi | slti | sltiu | xori | ori | andi | addiw
      | fence =>
    simp only [decodeItype, rd_field, rs1_field, imm_itype, funct3_field, matched, pack,
      operandsOf, BitVec.reduceSetWidth]
    try rfl
  case ecall | ebreak =>
    obtain ⟨-, empty, code⟩ := matched
    have noRd : w.extractLsb' 7 5 = 0 := slice_empty empty (by decide) (by decide)
    have noFunct3 : w.extractLsb' 12 3 = 0 := slice_empty empty (by decide) (by decide)
    have noRs1 : w.extractLsb' 15 5 = 0 := slice_empty empty (by decide) (by decide)
    simp only [decodeItype, rd_field, rs1_field, imm_itype, funct3_field, noRd, noFunct3, noRs1,
      code, pack, operandsOf]
    rfl
  all_goals
    simp only [decodeRtype, rd_field, rs1_field, rs2_field, funct3_field, funct7_field, matched,
      pack, operandsOf, BitVec.reduceSetWidth]

/-! ### The accessors of a packed instruction -/

/-- The register a field names. -/
def number (r : BitVec 5) : Register := ⟨r.toNat, by omega⟩

/-- The operands the accessors return, immediates sign-extended to 64 bits. -/
def Reads (i : Instruction) : Operands → Prop
  | .r rd rs1 rs2 => i.rd = number rd ∧ i.rs1 = number rs1 ∧ i.rs2 = number rs2
  | .i rd rs1 imm => i.rd = number rd ∧ i.rs1 = number rs1 ∧ i.imm = imm.signExtend 64
  | .shift rd rs1 shamt => i.rd = number rd ∧ i.rs1 = number rs1 ∧ i.shamt = shamt.setWidth 32
  | .shiftWord rd rs1 shamt =>
    i.rd = number rd ∧ i.rs1 = number rs1 ∧ i.shamt = shamt.setWidth 32
  | .s rs1 rs2 imm => i.rs1 = number rs1 ∧ i.rs2 = number rs2 ∧ i.imm = imm.signExtend 64
  | .b rs1 rs2 offset =>
    i.rs1 = number rs1 ∧ i.rs2 = number rs2 ∧ i.imm = offset.value.signExtend 64
  | .u rd imm => i.rd = number rd ∧ i.imm = (imm ++ (0 : BitVec 12)).signExtend 64
  | .j rd offset => i.rd = number rd ∧ i.imm = offset.value.signExtend 64
  | .system => True

private theorem register_of_slice {a : BitVec 32} {lo : Nat} {r : BitVec 5}
    (slice : a.extractLsb' lo 5 = r) : Instruction.register (a >>> lo) = number r := by
  unfold Instruction.register number
  rw [shift_and_mask a lo (n := 5) (by decide), slice]
  have bound := r.isLt
  apply Fin.ext
  simp
  omega

/-- The register fields lie above the type and beside each other. -/
theorem registers_setDecoded (t : InstructionType) (rd rs1 rs2 : BitVec 5) (imm : BitVec 32) :
    let i := setDecoded t (rd.setWidth 32) (rs1.setWidth 32) (rs2.setWidth 32) imm
    i.rd = number rd ∧ i.rs1 = number rs1 ∧ i.rs2 = number rs2 := by
  intro i
  have low : BitVec.ofNat 32 t.ctorIdx = field 32 (BitVec.ofNat 16 t.ctorIdx) 0 := by
    have small := t.ctorIdx_lt
    apply BitVec.eq_of_toNat_eq
    simp [field]
    omega
  -- type and three registers lie side by side in the first word
  have packed : i.a = field 32 (BitVec.ofNat 16 t.ctorIdx) 0 ||| field 32 rd 16
      ||| field 32 rs1 21 ||| field 32 rs2 26 := by
    rw [← low]
    rfl
  refine ⟨register_of_slice ?_, register_of_slice ?_, register_of_slice ?_⟩ <;>
    simp [packed, slice_or, slice_field_same, slice_field_other]

private theorem signExtend_twice {n : Nat} (v : BitVec n) (small : n ≤ 32) :
    (v.signExtend 32).signExtend 64 = v.signExtend 64 := by
  apply BitVec.eq_of_toInt_eq
  rw [BitVec.toInt_signExtend_of_le (by decide), BitVec.toInt_signExtend_of_le small,
    BitVec.toInt_signExtend_of_le (by omega)]

private theorem field_append (imm : BitVec 20) : field 32 imm 12 = imm ++ (0 : BitVec 12) := by
  apply BitVec.eq_of_getLsbD_eq
  intro k low
  simp only [getLsbD_field, low, decide_true, Bool.true_and]
  rw [BitVec.getLsbD_append]
  by_cases below : k < 12
  · simp [below, show ¬12 ≤ k by omega]
  · simp [below, show 12 ≤ k by omega]

theorem type_pack (t : InstructionType) (ops : Operands) : (pack t ops).type = t := by
  cases ops <;> exact type_setDecoded ..

/-- The accessors give back what was packed. -/
theorem reads_pack (t : InstructionType) (ops : Operands) : Reads (pack t ops) ops := by
  -- the fields of each format are read back, and the immediate is extended twice
  cases ops with
  | r rd rs1 rs2 => exact registers_setDecoded t rd rs1 rs2 0
  | i rd rs1 imm =>
    obtain ⟨hrd, hrs1, -⟩ := registers_setDecoded t rd rs1 0 (imm.signExtend 32)
    exact ⟨hrd, hrs1, signExtend_twice imm (by decide)⟩
  | shift rd rs1 shamt =>
    obtain ⟨hrd, hrs1, -⟩ := registers_setDecoded t rd rs1 0 (shamt.setWidth 32)
    exact ⟨hrd, hrs1, rfl⟩
  | shiftWord rd rs1 shamt =>
    obtain ⟨hrd, hrs1, -⟩ := registers_setDecoded t rd rs1 0 (shamt.setWidth 32)
    exact ⟨hrd, hrs1, rfl⟩
  | s rs1 rs2 imm =>
    obtain ⟨-, hrs1, hrs2⟩ := registers_setDecoded t 0 rs1 rs2 (imm.signExtend 32)
    exact ⟨hrs1, hrs2, signExtend_twice imm (by decide)⟩
  | b rs1 rs2 offset =>
    obtain ⟨-, hrs1, hrs2⟩ := registers_setDecoded t 0 rs1 rs2 (offset.value.signExtend 32)
    exact ⟨hrs1, hrs2, signExtend_twice offset.value (by decide)⟩
  | u rd imm =>
    obtain ⟨hrd, -, -⟩ := registers_setDecoded t rd 0 0 (field 32 imm 12)
    exact ⟨hrd, congrArg (BitVec.signExtend 64) (field_append imm)⟩
  | j rd offset =>
    obtain ⟨hrd, -, -⟩ := registers_setDecoded t rd 0 0 (offset.value.signExtend 32)
    exact ⟨hrd, signExtend_twice offset.value (by decide)⟩
  | system => trivial

/-- No word of `sraiw` decodes: its `0b0100000` is compared with a six-bit field. -/
theorem decode_sraiw {w : BitVec 32} (matched : Matches w (.shiftWord 0b0011011 0b101 0b0100000)) :
    decode w = undefined := by
  simp only [Matches] at matched
  have upper : w.extractLsb' 26 6 = 0b010000 := by
    have part : (w.extractLsb' 25 7).extractLsb' 1 6 = w.extractLsb' 26 6 :=
      slice_slice w (by decide)
    rw [matched.2.2] at part
    exact part.symm
  simp only [decode, opcode_field, matched, BitVec.reduceSetWidth]
  simp only [decodeItype, funct3_field, funct7_field, shtype_field, upper, matched,
    BitVec.reduceSetWidth]
  rfl

/-! ### The words the decoder accepts -/

/-- The words the decoder takes for an instruction they do not encode. Shifts of `OP-IMM` with
reserved upper bits fall through into the loads, and `0b0100000` compared with the upper six
bits is a reserved pattern of `OP-IMM-32`. -/
def Misread (w : BitVec 32) : Prop :=
  (w.extractLsb' 0 7 = 0b0010011 ∧ w.extractLsb' 12 3 = 0b001 ∧ w.extractLsb' 26 6 ≠ 0) ∨
  (w.extractLsb' 0 7 = 0b0010011 ∧ w.extractLsb' 12 3 = 0b101 ∧ w.extractLsb' 26 6 ≠ 0 ∧
    w.extractLsb' 26 6 ≠ 0b010000) ∨
  (w.extractLsb' 0 7 = 0b0011011 ∧ w.extractLsb' 12 3 = 0b101 ∧ w.extractLsb' 26 6 = 0b100000)

/-- What the decoder has made of `w` is nothing, a slip, or an instruction of its format. -/
def Accepted (w : BitVec 32) (i : Instruction) : Prop :=
  i.type = .undefined ∨ Misread w ∨ ∃ f, format i.type = some f ∧ Matches w f

private theorem accepted_undefined {w : BitVec 32} : Accepted w undefined :=
  .inl (type_setDecoded ..)

private theorem accepted_of {w rd rs1 rs2 imm : BitVec 32} {t : InstructionType} {f : Format}
    (named : format t = some f) (matched : Matches w f) :
    Accepted w (setDecoded t rd rs1 rs2 imm) :=
  .inr (.inr ⟨f, by rw [type_setDecoded, named], matched⟩)

private theorem slice_eq {n : Nat} {v y : BitVec n} {x : BitVec 32} (read : v.setWidth 32 = x)
    (small : n ≤ 32) (value : x.setWidth n = y) : v = y := by
  subst read value
  apply BitVec.eq_of_toNat_eq
  have bound := v.isLt
  have wide := Nat.pow_le_pow_right (n := 2) (by decide) small
  simp only [BitVec.toNat_setWidth]
  rw [Nat.mod_eq_of_lt (show v.toNat < 2 ^ 32 by omega), Nat.mod_eq_of_lt bound]

private theorem accepted_utype {w opcode : BitVec 32} (read : w &&& 0b1111111 = opcode) :
    Accepted w (decodeUtype w opcode) := by
  rw [opcode_field] at read
  unfold decodeUtype
  dsimp only
  split
  · exact accepted_of rfl (slice_eq read (by decide) rfl)
  · exact accepted_of rfl (slice_eq read (by decide) rfl)
  · exact accepted_undefined

private theorem accepted_stype {w opcode : BitVec 32} (read : w &&& 0b1111111 = opcode) :
    Accepted w (decodeStype w opcode) := by
  rw [opcode_field] at read
  unfold decodeStype
  dsimp only
  rw [funct3_field]
  split
  next selected =>
    subst selected
    have opcode := slice_eq (y := 0b0100011) read (by decide) rfl
    split
    case h_5 => exact accepted_undefined
    all_goals
      next selected => exact accepted_of rfl ⟨opcode, slice_eq selected (by decide) rfl⟩
  next => exact accepted_undefined

private theorem accepted_btype {w opcode : BitVec 32} (read : w &&& 0b1111111 = opcode) :
    Accepted w (decodeBtype w opcode) := by
  rw [opcode_field] at read
  unfold decodeBtype
  dsimp only
  rw [funct3_field]
  split
  next selected =>
    subst selected
    have opcode := slice_eq (y := 0b1100011) read (by decide) rfl
    split
    case h_7 => exact accepted_undefined
    all_goals
      next selected => exact accepted_of rfl ⟨opcode, slice_eq selected (by decide) rfl⟩
  next => exact accepted_undefined

private theorem accepted_jtype {w opcode : BitVec 32} (read : w &&& 0b1111111 = opcode) :
    Accepted w (decodeJtype w opcode) := by
  rw [opcode_field] at read
  unfold decodeJtype
  dsimp only
  split
  next selected =>
    subst selected
    exact accepted_of rfl (slice_eq read (by decide) rfl)
  next => exact accepted_undefined

private theorem funct3_cases {P : BitVec 3 → Prop} (f0 : P 0b000) (f1 : P 0b001) (f2 : P 0b010)
    (f3 : P 0b011) (f4 : P 0b100) (f5 : P 0b101) (f6 : P 0b110) (f7 : P 0b111) (v : BitVec 3) :
    P v := by
  have all : v = 0b000 ∨ v = 0b001 ∨ v = 0b010 ∨ v = 0b011 ∨ v = 0b100 ∨ v = 0b101 ∨
      v = 0b110 ∨ v = 0b111 := by
    revert v
    decide
  rcases all with rfl | rfl | rfl | rfl | rfl | rfl | rfl | rfl <;> assumption

private theorem accepted_rtype {w opcode : BitVec 32} (read : w &&& 0b1111111 = opcode) :
    Accepted w (decodeRtype w opcode) := by
  rw [opcode_field] at read
  unfold decodeRtype
  dsimp only
  rw [funct3_field, funct7_field]
  obtain ⟨funct3, place⟩ : ∃ funct3, w.extractLsb' 12 3 = funct3 := ⟨_, rfl⟩
  rw [place]
  -- the opcode, then funct7, then funct3 select a row of the source's tables
  split
  case h_3 => exact accepted_undefined
  all_goals
    have opcode := slice_eq read (by decide) rfl
    split
    case h_4 => exact accepted_undefined
    all_goals
      next selected =>
        have funct7 := slice_eq selected (by decide) rfl
        induction funct3 using funct3_cases <;>
          first
          | exact accepted_undefined
          | exact accepted_of rfl (f := .r _ _ _) ⟨opcode, place, funct7⟩

/-- `OP-IMM`: the shifts with reserved upper bits are the ones misread. -/
private theorem accepted_opImm {w : BitVec 32} (opcode : w.extractLsb' 0 7 = 0b0010011) :
    Accepted w (decodeItype w 0b0010011#32) := by
  unfold decodeItype
  dsimp only
  rw [funct3_field, shtype_field]
  obtain ⟨funct3, place⟩ : ∃ funct3, w.extractLsb' 12 3 = funct3 := ⟨_, rfl⟩
  rw [place]
  induction funct3 using funct3_cases
  case f1 =>
    simp only [BitVec.reduceSetWidth]
    split
    next shifts =>
      exact accepted_of rfl (f := .shift _ _ _)
          ⟨opcode, place, slice_eq shifts (by decide) rfl⟩
    -- a reserved shift falls into the load table of the source: the misreading
    next reserved =>
      have misread : w.extractLsb' 26 6 ≠ 0 := fun none => reserved (by rw [none]; rfl)
      exact .inr (.inl (.inl ⟨opcode, place, misread⟩))
  case f5 =>
    simp only [BitVec.reduceSetWidth]
    split
    next shifts =>
      split
      next logical =>
        exact accepted_of rfl (f := .shift _ _ _)
          ⟨opcode, place, slice_eq logical (by decide) rfl⟩
      next arithmetic =>
        have selected := shifts.resolve_left arithmetic
        exact accepted_of rfl (f := .shift _ _ _)
          ⟨opcode, place, slice_eq selected (by decide) rfl⟩
    next reserved =>
      have notLogical : w.extractLsb' 26 6 ≠ 0 := fun none => reserved (.inl (by rw [none]; rfl))
      have notArithmetic : w.extractLsb' 26 6 ≠ 0b010000 :=
        fun set => reserved (.inr (by rw [set]; rfl))
      exact .inr (.inl (.inr (.inl ⟨opcode, place, notLogical, notArithmetic⟩)))
  all_goals exact accepted_of rfl (f := .i _ _) ⟨opcode, place⟩

private theorem accepted_opImm32 {w : BitVec 32} (opcode : w.extractLsb' 0 7 = 0b0011011) :
    Accepted w (decodeItype w 0b0011011#32) := by
  unfold decodeItype
  dsimp only
  rw [funct3_field, shtype_field, funct7_field]
  obtain ⟨funct3, place⟩ : ∃ funct3, w.extractLsb' 12 3 = funct3 := ⟨_, rfl⟩
  rw [place]
  induction funct3 using funct3_cases
  case f0 => exact accepted_of rfl (f := .i _ _) ⟨opcode, place⟩
  case f1 =>
    simp only [BitVec.reduceSetWidth]
    split
    next shifts =>
      exact accepted_of rfl (f := .shiftWord _ _ _)
          ⟨opcode, place, slice_eq shifts (by decide) rfl⟩
    next reserved => exact accepted_undefined
  case f5 =>
    simp only [BitVec.reduceSetWidth]
    split
    next shifts =>
      split
      next logical =>
        exact accepted_of rfl (f := .shiftWord _ _ _)
          ⟨opcode, place, slice_eq logical (by decide) rfl⟩
      next arithmetic =>
        -- the arithmetic shift is looked for with a six bit selector
        have slip := shifts.resolve_left arithmetic
        exact .inr (.inl (.inr (.inr ⟨opcode, place, slice_eq slip (by decide) rfl⟩)))
    next reserved => exact accepted_undefined
  all_goals exact accepted_undefined

private theorem accepted_load {w : BitVec 32} (opcode : w.extractLsb' 0 7 = 0b0000011) :
    Accepted w (decodeItype w 0b0000011#32) := by
  unfold decodeItype
  dsimp only
  rw [funct3_field]
  obtain ⟨funct3, place⟩ : ∃ funct3, w.extractLsb' 12 3 = funct3 := ⟨_, rfl⟩
  rw [place]
  induction funct3 using funct3_cases
  case f7 => exact accepted_undefined
  all_goals exact accepted_of rfl (f := .i _ _) ⟨opcode, place⟩

private theorem sign_eq {v y : BitVec 12} {x : BitVec 32} (read : v.signExtend 32 = x)
    (value : y.signExtend 32 = x) : v = y := by
  apply BitVec.eq_of_toInt_eq
  have same := congrArg BitVec.toInt (read.trans value.symm)
  rwa [BitVec.toInt_signExtend_of_le (by decide), BitVec.toInt_signExtend_of_le (by decide)] at same

/-- The operands of a system word are all zero but the lowest bit of the immediate. -/
private theorem accepted_system {w : BitVec 32} (opcode : w.extractLsb' 0 7 = 0b1110011) :
    Accepted w (decodeItype w 0b1110011#32) := by
  unfold decodeItype
  dsimp only
  rw [funct3_field, rs1_field, rd_field, imm_itype]
  change Accepted w (if _ then (if _ then _ else _) else _)
  split
  next noFields =>
    obtain ⟨funct3, rs1, rd⟩ := noFields
    -- the three fields the source tests are the thirteen bits in the middle
    have empty : w.extractLsb' 7 13 = 0 := by
      have rd' : w.extractLsb' 7 5 = 0 := slice_eq rd (by decide) rfl
      have funct3' : w.extractLsb' 12 3 = 0 := slice_eq funct3 (by decide) rfl
      have rs1' : w.extractLsb' 15 5 = 0 := slice_eq rs1 (by decide) rfl
      exact slices_empty (slices_empty rd' funct3') rs1'
    split
    next known =>
      split
      next call => exact accepted_of rfl ⟨opcode, empty, sign_eq call rfl⟩
      next notCall =>
        exact accepted_of rfl ⟨opcode, empty, sign_eq (known.resolve_left notCall) rfl⟩
    next => exact accepted_undefined
  next => exact accepted_undefined

private theorem accepted_itype {w opcode : BitVec 32} (read : w &&& 0b1111111 = opcode)
    (itype : opcode = 0b0000011#32 ∨ opcode = 0b0001111#32 ∨ opcode = 0b0010011#32 ∨
      opcode = 0b0011011#32 ∨ opcode = 0b1110011#32 ∨ opcode = 0b1100111#32) :
    Accepted w (decodeItype w opcode) := by
  rw [opcode_field] at read
  -- by opcode: loads, `fence`, the two kinds of operations, the system instructions, `jalr`
  rcases itype with rfl | rfl | rfl | rfl | rfl | rfl
  · exact accepted_load (slice_eq read (by decide) rfl)
  · have opcode := slice_eq (y := 0b0001111) read (by decide) rfl
    unfold decodeItype
    dsimp only
    rw [funct3_field]
    change Accepted w (if _ then _ else _)
    split
    next selected => exact accepted_of rfl ⟨opcode, slice_eq selected (by decide) rfl⟩
    next => exact accepted_undefined
  · exact accepted_opImm (slice_eq read (by decide) rfl)
  · exact accepted_opImm32 (slice_eq read (by decide) rfl)
  · exact accepted_system (slice_eq read (by decide) rfl)
  · have opcode := slice_eq (y := 0b1100111) read (by decide) rfl
    unfold decodeItype
    dsimp only
    rw [funct3_field]
    change Accepted w (if _ then _ else _)
    split
    next selected => exact accepted_of rfl ⟨opcode, slice_eq selected (by decide) rfl⟩
    next => exact accepted_undefined

/-- Every word decodes to nothing, by a slip, or to an instruction of its format. -/
theorem accepted_decode (w : BitVec 32) : Accepted w (decode w) := by
  unfold decode
  dsimp only
  split
  case h_1 opcode | h_2 opcode | h_3 opcode | h_4 opcode | h_5 opcode | h_6 opcode =>
    exact accepted_itype rfl (by simp only [opcode]; decide)
  case h_7 | h_8 => exact accepted_utype rfl
  case h_9 | h_10 => exact accepted_rtype rfl
  case h_11 => exact accepted_stype rfl
  case h_12 => exact accepted_btype rfl
  case h_13 => exact accepted_jtype rfl
  case h_14 => exact accepted_undefined

/-- A misread word is taken for an instruction whose fields it does not have. -/
theorem type_misread {w : BitVec 32} (slip : Misread w) :
    ∃ t f, (t = .lh ∨ t = .lhu ∨ t = .sraiw) ∧ (decode w).type = t ∧ format t = some f ∧
      ¬Matches w f := by
  rcases slip with ⟨opcode, funct3, reserved⟩ | ⟨opcode, funct3, notLogical, notArithmetic⟩ |
    ⟨opcode, funct3, upper⟩
  -- `slli` with a reserved selector is read as `lh`
  · have skipped : ¬(w.extractLsb' 26 6).setWidth 32 = 0 :=
      fun none => reserved (slice_eq none (by decide) rfl)
    refine ⟨.lh, _, by decide, ?_, rfl, fun matched => absurd (opcode.symm.trans matched.1) (by decide)⟩
    simp only [decode, opcode_field, opcode, BitVec.reduceSetWidth]
    simp only [decodeItype, funct3_field, funct3, shtype_field, skipped, if_false,
      BitVec.reduceSetWidth, type_setDecoded]
  -- `srli` with a reserved selector is read as `lhu`
  · have skipped :
        ¬((w.extractLsb' 26 6).setWidth 32 = 0 ∨ (w.extractLsb' 26 6).setWidth 32 = 16) := by
      rintro (none | set)
      · exact notLogical (slice_eq none (by decide) rfl)
      · exact notArithmetic (slice_eq set (by decide) rfl)
    refine ⟨.lhu, _, by decide, ?_, rfl, fun matched => absurd (opcode.symm.trans matched.1) (by decide)⟩
    simp only [decode, opcode_field, opcode, BitVec.reduceSetWidth]
    simp only [decodeItype, funct3_field, funct3, shtype_field, skipped, if_false,
      BitVec.reduceSetWidth, type_setDecoded]
  -- `sraiw` is read where funct7 is not the one the manual gives it
  · have part : (w.extractLsb' 25 7).extractLsb' 1 6 = w.extractLsb' 26 6 :=
      slice_slice w (by decide)
    have different : ∀ funct7 : BitVec 7, funct7.extractLsb' 1 6 = 0b100000 →
        funct7 ≠ 0 ∧ funct7 ≠ 0b0100000 := by decide
    obtain ⟨notLogical, notArithmetic⟩ := different _ (part.trans upper)
    have skipped : ¬(w.extractLsb' 25 7).setWidth 32 = 0 :=
      fun none => notLogical (slice_eq none (by decide) rfl)
    refine ⟨.sraiw, _, by decide, ?_, rfl, fun matched => notArithmetic matched.2.2⟩
    simp only [decode, opcode_field, opcode, BitVec.reduceSetWidth]
    simp only [decodeItype, funct3_field, funct3, shtype_field, upper, funct7_field, skipped,
      BitVec.reduceSetWidth]
    exact type_setDecoded ..

/-- The immediates of jumps and branches are multiples of two. -/
theorem even_offset {w : BitVec 32} {f : Format} (named : format (decode w).type = some f)
    (relative : (∃ opcode, f = .j opcode) ∨ ∃ opcode funct3, f = .b opcode funct3) :
    (decode w).imm.getLsbD 0 = false := by
  rcases accepted_decode w with undef | slip | ⟨f', named', matched⟩
  · rw [undef] at named
    cases named
  -- no misread word becomes a branch or a `jal`
  · obtain ⟨t, -, kinds, rfl, -, -⟩ := type_misread slip
    rcases kinds with kind | kind | kind <;> rw [kind] at named <;> cases named <;>
      simp at relative
  · rw [named] at named'
    cases named'
    have known : (decode w).type ≠ .sraiw := by
      intro sraiw
      rw [sraiw] at named
      cases named
      simp at relative
    have reads := reads_pack (decode w).type (operandsOf w f)
    rw [← decode_matches named matched known] at reads
    rcases relative with ⟨opcode, rfl⟩ | ⟨opcode, funct3, rfl⟩
    · rw [reads.2, BitVec.getLsbD_signExtend]
      simpa using jumpOffset_even w
    · rw [reads.2.2, BitVec.getLsbD_signExtend]
      simpa using branchOffset_even w

end InstructionDecoder

namespace Instruction

open Isa InstructionDecoder

/-- The decoder inverts the encoding of every instruction but `sraiw`. -/
theorem ofWord_encode_iff {t : InstructionType} {f : Format} {ops : Operands} {w : BitVec 32}
    (named : format t = some f) (encodes : encode f ops = some w) :
    ((ofWord w).type = t ∧ Reads (ofWord w) ops) ↔ t ≠ .sraiw := by
  obtain ⟨matched, rfl⟩ := encode_some encodes
  constructor
  · rintro ⟨typed, -⟩ rfl
    obtain rfl := Option.some.inj named
    rw [ofWord, decode_sraiw matched] at typed
    exact absurd typed (by decide)
  · intro known
    rw [ofWord, decode_matches named matched known]
    exact ⟨type_pack t _, reads_pack t _⟩

theorem ofWord_encode_addi : ((ofWord 0x00110093).type = .addi ∧
    Reads (ofWord 0x00110093) (.i 1 2 1)) ↔ InstructionType.addi ≠ .sraiw :=
  ofWord_encode_iff rfl (by decide)

/-- The word of `sraiw x1, x1, 2` is undefined. -/
theorem ofWord_sraiw_undefined :
    format .sraiw = some (.shiftWord 0b0011011 0b101 0b0100000) ∧
    encode (.shiftWord 0b0011011 0b101 0b0100000) (.shiftWord 1 1 2) = some 0x4020d09b ∧
    (ofWord 0x4020d09b).type = .undefined := by
  decide

/-- `w` is an encoding of the instruction with the operands its accessors return. -/
def Encodes (w : BitVec 32) (i : Instruction) : Prop :=
  ∃ f ops, format i.type = some f ∧ encode f ops = some w ∧ Reads i ops

private theorem not_encodes_of_misread {w : BitVec 32} (slip : Misread w) :
    (ofWord w).type ≠ .undefined ∧ ¬Encodes w (ofWord w) := by
  obtain ⟨t, f, -, typed, named, other⟩ := type_misread slip
  constructor
  · intro undef
    rw [← typed, show (decode w).type = .undefined from undef] at named
    cases named
  · rintro ⟨f', ops, named', encodes, -⟩
    rw [show (ofWord w).type = t from typed, named] at named'
    cases named'
    exact other (encode_some encodes).1

/-- A word that matches the format its decoded type names is an encoding of what it decodes to. -/
theorem encodes_matched {w : BitVec 32} {f : Format} (named : format (decode w).type = some f)
    (matched : Matches w f) (known : (decode w).type ≠ .sraiw) : Encodes w (ofWord w) := by
  have reads := reads_pack (decode w).type (operandsOf w f)
  rw [← decode_matches named matched known] at reads
  exact ⟨f, operandsOf w f, named, encode_operandsOf matched, reads⟩

/-- The decoder accepts nothing but the encodings of the instruction it returns, the misread
words apart. -/
theorem ofWord_accepts_iff (w : BitVec 32) :
    ((ofWord w).type ≠ .undefined → Encodes w (ofWord w)) ↔ ¬Misread w := by
  constructor
  · intro accepts slip
    obtain ⟨defined, other⟩ := not_encodes_of_misread slip
    exact other (accepts defined)
  · intro read defined
    -- a decoded word is undefined, misread, or matches the format its type names
    rcases accepted_decode w with undef | slip | ⟨f, named, matched⟩
    · exact absurd undef defined
    · exact absurd slip read
    · have known : (decode w).type ≠ .sraiw := by
        intro typed
        rw [typed] at named
        cases named
        rw [decode_sraiw matched] at typed
        exact absurd typed (by decide)
      have reads := reads_pack (decode w).type (operandsOf w f)
      rw [← decode_matches named matched known] at reads
      exact ⟨f, operandsOf w f, named, encode_operandsOf matched, reads⟩

/-- `slli x1, x1, 0` with bit 31 set is taken for `lh x1, -2048(x1)`. -/
theorem ofWord_slli_reserved :
    (ofWord 0x80009093).type = .lh ∧ ¬Encodes 0x80009093 (ofWord 0x80009093) :=
  ⟨by decide, (not_encodes_of_misread (.inl (by decide))).2⟩

end Instruction

end Riscv64Emulator
