import Riscv64Emulator.Lib.Text
import Riscv64Emulator.Vm.Interpreter
import Riscv64Emulator.Vm.Operands

/-!
# Instructions as text

`InstructionDisplay.cpp`. What the formatter writes can be told apart: no two decoded
instructions have one text.
-/
namespace Riscv64Emulator

open InstructionDecoder

namespace InstructionDisplay

def instructionName : InstructionType → String
  | .undefined => "undefined"
  | .lui => "lui"
  | .auipc => "auipc"
  | .jal => "jal"
  | .jalr => "jalr"
  | .beq => "beq"
  | .bne => "bne"
  | .blt => "blt"
  | .bge => "bge"
  | .bltu => "bltu"
  | .bgeu => "bgeu"
  | .lb => "lb"
  | .lh => "lh"
  | .lw => "lw"
  | .ld => "ld"
  | .lbu => "lbu"
  | .lhu => "lhu"
  | .lwu => "lwu"
  | .sb => "sb"
  | .sh => "sh"
  | .sw => "sw"
  | .sd => "sd"
  | .addi => "addi"
  | .xori => "xori"
  | .ori => "ori"
  | .andi => "andi"
  | .addiw => "addiw"
  | .slli => "slli"
  | .srli => "srli"
  | .srai => "srai"
  | .slliw => "slliw"
  | .srliw => "srliw"
  | .sraiw => "sraiw"
  | .slti => "slti"
  | .sltiu => "sltiu"
  | .slt => "slt"
  | .sltu => "sltu"
  | .add => "add"
  | .sub => "sub"
  | .xor => "xor"
  | .or => "or"
  | .and => "and"
  | .sll => "sll"
  | .srl => "srl"
  | .sra => "sra"
  | .addw => "addw"
  | .subw => "subw"
  | .sllw => "sllw"
  | .srlw => "srlw"
  | .sraw => "sraw"
  | .ebreak => "ebreak"
  | .ecall => "ecall"
  | .fence => "fence"
  | .mul => "mul"
  | .mulw => "mulw"
  | .mulh => "mulh"
  | .mulhu => "mulhu"
  | .mulhsu => "mulhsu"
  | .div => "div"
  | .divu => "divu"
  | .divw => "divw"
  | .divuw => "divuw"
  | .rem => "rem"
  | .remu => "remu"
  | .remw => "remw"
  | .remuw => "remuw"

/-- The names in the order of `Register`. -/
def registerNames : List String :=
  ["zero", "ra", "sp", "gp", "tp", "t0", "t1", "t2", "s0", "s1", "a0", "a1", "a2", "a3", "a4", "a5",
    "a6", "a7", "s2", "s3", "s4", "s5", "s6", "s7", "s8", "s9", "s10", "s11", "t3", "t4", "t5", "t6",
    "pc"]

def registerName (reg : Register) : String := registerNames.get reg

/-- The types are numbered in the order in which `InstructionType` lists them. -/
def instructionBetween (type first last : InstructionType) : Bool :=
  decide (first.ctorIdx ≤ type.ctorIdx) && decide (type.ctorIdx ≤ last.ctorIdx)

inductive Format where
  | standalone
  | store
  | load
  | rdImm
  | rdRs1Imm
  | rs1Rs2Imm
  | rdRs1Rs2
deriving DecidableEq, Repr

def instructionFormat (type : InstructionType) : Except Abort Format :=
  if type = .undefined then .ok .standalone
  else if instructionBetween type .lui .jal then .ok .rdImm
  else if type = .jalr then .ok .rdRs1Imm
  else if instructionBetween type .beq .bgeu then .ok .rs1Rs2Imm
  else if instructionBetween type .lb .lwu then .ok .load
  else if instructionBetween type .sb .sd then .ok .store
  else if instructionBetween type .addi .sltiu then .ok .rdRs1Imm
  else if instructionBetween type .slt .sraw then .ok .rdRs1Rs2
  else if instructionBetween type .ebreak .ecall then .ok .standalone
  else if type = .fence then .ok .rdRs1Imm
  else if instructionBetween type .mul .remuw then .ok .rdRs1Rs2
  else unreachable

/-- What is written after the name. -/
def operandsText (format : Format) (instruction : Instruction) : String :=
  let imm := Text.prefixedHex instruction.imm.toInt
  let rd := registerName instruction.rd
  let rs1 := registerName instruction.rs1
  let rs2 := registerName instruction.rs2
  match format with
  | .standalone => ""
  | .store => rs2 ++ ", " ++ imm ++ "(" ++ rs1 ++ ")"
  | .load => rd ++ ", " ++ imm ++ "(" ++ rs1 ++ ")"
  | .rdImm => rd ++ ", " ++ imm
  | .rdRs1Imm => rd ++ ", " ++ rs1 ++ ", " ++ imm
  | .rs1Rs2Imm => rs1 ++ ", " ++ rs2 ++ ", " ++ imm
  | .rdRs1Rs2 => rd ++ ", " ++ rs1 ++ ", " ++ rs2

/-- `format_instruction(instruction, formatted)`. A standalone name takes the place of what `formatted`
has; everything else is put at its end. -/
def formatInstructionInto (instruction : Instruction) (formatted : String) : Except Abort String := do
  let name := instructionName instruction.type
  let format ← instructionFormat instruction.type
  match format with
  | .standalone => .ok name
  | _ => .ok (formatted ++ name ++ " " ++ operandsText format instruction)

/-- The overload that returns the text. -/
def formatInstruction (instruction : Instruction) : Except Abort String := formatInstructionInto instruction ""

example : formatInstruction (.ofWord 0xff010113) = .ok "addi sp, sp, -0x10" := by decide +kernel
example : formatInstructionInto (.ofWord 0x00112623) "1: " = .ok "1: sw ra, 0xc(sp)" := by decide +kernel

/-! ### Names -/

theorem instructionName_inj {t u : InstructionType} (same : instructionName t = instructionName u) :
    t = u := by
  have table : ∀ n < 70, ∀ m < 70, instructionName (.ofNat n) = instructionName (.ofNat m) →
      InstructionType.ofNat n = .ofNat m := by decide +kernel
  have bound : ∀ t : InstructionType, t.ctorIdx < 70 := by
    intro t
    cases t <;> decide
  have equal := table t.ctorIdx (bound t) u.ctorIdx (bound u)
  rw [InstructionType.ofNat_ctorIdx, InstructionType.ofNat_ctorIdx] at equal
  exact equal same

/-- The name ends at the first space. -/
theorem notMem_instructionName (t : InstructionType) : ' ' ∉ (instructionName t).toList := by
  cases t <;> decide

theorem registerName_inj {reg reg' : Register} (same : registerName reg = registerName reg') :
    reg = reg' := by
  have table : ∀ reg reg' : Register, registerName reg = registerName reg' → reg = reg' := by
    decide +kernel
  exact table reg reg' same

/-- A register's name has letters and digits only. -/
theorem notMem_registerName {c : Char} (reg : Register) (mark : c.isAlphanum = false) :
    c ∉ (registerName reg).toList := by
  have table : registerNames.all (fun name => name.toList.all Char.isAlphanum) = true := by decide +kernel
  intro inside
  have letters := List.all_eq_true.mp table (registerName reg) (List.get_mem registerNames reg)
  have letter := List.all_eq_true.mp letters c inside
  exact Bool.noConfusion (letter.symm.trans mark)

/-! ### Formats -/

/-- What shows the operands of a kind. -/
def Format.shows : OperandKind → List Format
  | .registers => [.rdRs1Rs2]
  | .immediate => [.load, .rdRs1Imm]
  | .shift _ => [.rdRs1Imm]
  | .store => [.store]
  | .branch => [.rs1Rs2Imm]
  | .upper | .jump => [.rdImm]
  | .none => [.standalone]

/-- Every type has a format, which shows the operands of the type. -/
theorem instructionFormat_shows (t : InstructionType) :
    ∃ format, instructionFormat t = .ok format ∧ format ∈ Format.shows (operandKind t) := by
  cases t <;> exact ⟨_, rfl, by decide⟩

/-! ### Operands -/

/-- A field that a comma ends. -/
theorem comma_inj {x x' y y' : String} (inside : ',' ∉ x.toList) (inside' : ',' ∉ x'.toList)
    (same : x ++ (", " ++ y) = x' ++ (", " ++ y')) : x = x' ∧ y = y' := by
  have texts := congrArg String.toList same
  simp only [String.toList_append, String.reduceToList, List.cons_append, List.nil_append] at texts
  obtain ⟨first, rest⟩ := Text.field_inj inside inside' texts
  rw [List.cons.injEq] at rest
  exact ⟨String.toList_inj.mp first, String.toList_inj.mp rest.2⟩

/-- An offset and its base. -/
theorem parenthesis_inj {x x' y y' : String} (inside : '(' ∉ x.toList) (inside' : '(' ∉ x'.toList)
    (same : x ++ ("(" ++ (y ++ ")")) = x' ++ ("(" ++ (y' ++ ")"))) : x = x' ∧ y = y' := by
  have texts := congrArg String.toList same
  simp only [String.toList_append, String.reduceToList, List.cons_append, List.nil_append] at texts
  obtain ⟨first, rest⟩ := Text.field_inj inside inside' texts
  exact ⟨String.toList_inj.mp first, String.toList_inj.mp (List.append_cancel_right rest)⟩

section Operands

variable {i j : Instruction}

theorem imm_inj (same : Text.prefixedHex i.imm.toInt = Text.prefixedHex j.imm.toInt) : i.imm = j.imm :=
  BitVec.eq_of_toInt_eq (Text.prefixedHex_inj same)

/-- A register and what follows it. -/
theorem register_inj {reg reg' : Register} {y y' : String}
    (same : registerName reg ++ (", " ++ y) = registerName reg' ++ (", " ++ y')) : reg = reg' ∧ y = y' := by
  obtain ⟨name, rest⟩ :=
    comma_inj (notMem_registerName _ (by decide)) (notMem_registerName _ (by decide)) same
  exact ⟨registerName_inj name, rest⟩

/-- An immediate and the base it is added to. -/
theorem address_inj {reg reg' : Register} (same : Text.prefixedHex i.imm.toInt ++ ("(" ++ (registerName reg ++ ")")) =
      Text.prefixedHex j.imm.toInt ++ ("(" ++ (registerName reg' ++ ")"))) : i.imm = j.imm ∧ reg = reg' := by
  obtain ⟨offset, base⟩ := parenthesis_inj (Text.notMem_prefixedHex (by decide))
    (Text.notMem_prefixedHex (by decide)) same
  exact ⟨imm_inj offset, registerName_inj base⟩

/-- The operands that are not shown are empty, those that are can be read. -/
theorem operandsText_inj {format : Format} {kind : OperandKind} (shown : format ∈ Format.shows kind)
    (admits : kind.Admits i) (admits' : kind.Admits j)
    (same : operandsText format i = operandsText format j) :
    i.rd = j.rd ∧ i.rs1 = j.rs1 ∧ i.rs2 = j.rs2 ∧ i.imm = j.imm := by
  -- field by field from the left; what the format does not show is 0 in both
  cases kind <;> simp only [Format.shows, List.mem_cons, List.not_mem_nil, or_false] at shown
  case registers =>
    subst shown
    simp only [operandsText, String.append_assoc] at same
    obtain ⟨rd, rest⟩ := register_inj same
    obtain ⟨rs1, rs2⟩ := register_inj rest
    exact ⟨rd, rs1, registerName_inj rs2, admits.trans admits'.symm⟩
  case immediate =>
    have rs2 := admits.1.trans admits'.1.symm
    rcases shown with rfl | rfl <;> simp only [operandsText, String.append_assoc] at same
    · obtain ⟨rd, rest⟩ := register_inj same
      obtain ⟨imm, rs1⟩ := address_inj rest
      exact ⟨rd, rs1, rs2, imm⟩
    · obtain ⟨rd, rest⟩ := register_inj same
      obtain ⟨rs1, imm⟩ := register_inj rest
      exact ⟨rd, rs1, rs2, imm_inj imm⟩
  case shift width =>
    subst shown
    simp only [operandsText, String.append_assoc] at same
    obtain ⟨rd, rest⟩ := register_inj same
    obtain ⟨rs1, imm⟩ := register_inj rest
    exact ⟨rd, rs1, admits.1.trans admits'.1.symm, imm_inj imm⟩
  case store =>
    subst shown
    simp only [operandsText, String.append_assoc] at same
    obtain ⟨rs2, rest⟩ := register_inj same
    obtain ⟨imm, rs1⟩ := address_inj rest
    exact ⟨admits.1.trans admits'.1.symm, rs1, rs2, imm⟩
  case branch =>
    subst shown
    simp only [operandsText, String.append_assoc] at same
    obtain ⟨rs1, rest⟩ := register_inj same
    obtain ⟨rs2, imm⟩ := register_inj rest
    exact ⟨admits.1.trans admits'.1.symm, rs1, rs2, imm_inj imm⟩
  case upper =>
    subst shown
    simp only [operandsText, String.append_assoc] at same
    obtain ⟨rd, imm⟩ := register_inj same
    exact ⟨rd, admits.1.trans admits'.1.symm, admits.2.1.trans admits'.2.1.symm, imm_inj imm⟩
  case jump =>
    subst shown
    simp only [operandsText, String.append_assoc] at same
    obtain ⟨rd, imm⟩ := register_inj same
    exact ⟨rd, admits.1.trans admits'.1.symm, admits.2.1.trans admits'.2.1.symm, imm_inj imm⟩
  case none =>
    obtain ⟨rd, rs1, rs2, imm⟩ := admits
    obtain ⟨rd', rs1', rs2', imm'⟩ := admits'
    exact ⟨rd.trans rd'.symm, rs1.trans rs1'.symm, rs2.trans rs2'.symm, imm.trans imm'.symm⟩

end Operands

/-! ### Texts of decoded instructions -/

/-- The two words hold the type, the three registers and the immediate, and nothing else. -/
theorem fields_of_packed {i : Instruction} (packed : Packed i) :
    ∃ (rd rs1 rs2 : BitVec 5) (imm : BitVec 32),
      i = setDecoded i.type (rd.setWidth 32) (rs1.setWidth 32) (rs2.setWidth 32) imm := by
  obtain ⟨t, ops, -, rfl⟩ := packed
  rw [type_pack]
  cases ops with
  | r rd rs1 rs2 => exact ⟨rd, rs1, rs2, _, rfl⟩
  | i rd rs1 imm => exact ⟨rd, rs1, 0, _, rfl⟩
  | shift rd rs1 shamt => exact ⟨rd, rs1, 0, _, rfl⟩
  | shiftWord rd rs1 shamt => exact ⟨rd, rs1, 0, _, rfl⟩
  | s rs1 rs2 imm => exact ⟨0, rs1, rs2, _, rfl⟩
  | b rs1 rs2 offset => exact ⟨0, rs1, rs2, _, rfl⟩
  | u rd imm => exact ⟨rd, 0, 0, _, rfl⟩
  | j rd offset => exact ⟨rd, 0, 0, _, rfl⟩
  | system => exact ⟨0, 0, 0, _, rfl⟩

theorem number_inj {r r' : BitVec 5} (same : number r = number r') : r = r' :=
  BitVec.eq_of_toNat_eq (congrArg (fun r : Register => r.val) same)

/-- An instruction is known by what is read of it. -/
theorem eq_of_fields {i j : Instruction} (packed : Packed i) (packed' : Packed j)
    (type : i.type = j.type) (rd : i.rd = j.rd) (rs1 : i.rs1 = j.rs1) (rs2 : i.rs2 = j.rs2)
    (imm : i.imm = j.imm) : i = j := by
  obtain ⟨d, s, u, b, made⟩ := fields_of_packed packed
  obtain ⟨d', s', u', b', made'⟩ := fields_of_packed packed'
  obtain ⟨readsRd, readsRs1, readsRs2⟩ := registers_setDecoded i.type d s u b
  obtain ⟨readsRd', readsRs1', readsRs2'⟩ := registers_setDecoded j.type d' s' u' b'
  rw [← made] at readsRd readsRs1 readsRs2
  rw [← made'] at readsRd' readsRs1' readsRs2'
  have sameRd : d = d' := number_inj (readsRd.symm.trans (rd.trans readsRd'))
  have sameRs1 : s = s' := number_inj (readsRs1.symm.trans (rs1.trans readsRs1'))
  have sameRs2 : u = u' := number_inj (readsRs2.symm.trans (rs2.trans readsRs2'))
  have words : b = b' := by
    have words : i.b = j.b := by
      have halves := congrArg (BitVec.setWidth 32) imm
      simpa only [Instruction.imm, setWidth_signExtend] using halves
    rw [made, made'] at words
    exact words
  rw [made, made', type, sameRd, sameRs1, sameRs2, words]

/-- A name alone, or what was there before, a name and operands. -/
def text (formatted : String) (format : Format) (i : Instruction) : String :=
  if format = .standalone then instructionName i.type
  else formatted ++ (instructionName i.type ++ " " ++ operandsText format i)

/-- What the formatter leaves for a decoded instruction. -/
theorem formatInstructionInto_packed {i : Instruction} (packed : Packed i) :
    ∃ format, instructionFormat i.type = .ok format ∧ format ∈ Format.shows (operandKind i.type) ∧
      (operandKind i.type).Admits i ∧
      ∀ formatted, formatInstructionInto i formatted = .ok (text formatted format i) := by
  have admits : (operandKind i.type).Admits i := by
    obtain ⟨t, ops, kind, rfl⟩ := packed
    rw [type_pack, ← kind]
    exact admits_pack t ops
  obtain ⟨format, known, shown⟩ := instructionFormat_shows i.type
  refine ⟨format, known, shown, admits, fun formatted => ?_⟩
  cases format <;>
    simp [formatInstructionInto, known, bind, Except.bind, text, String.append_assoc]

/-- A text without a space is a name alone. After what was there before, a name ends at the first
space, and what follows are the operands. -/
theorem text_inj {formatted : String} {i j : Instruction} {format format' : Format}
    (same : text formatted format i = text formatted format' j) :
    i.type = j.type ∧ (format = format' → operandsText format i = operandsText format j) := by
  have inside := notMem_instructionName i.type
  have inside' := notMem_instructionName j.type
  -- a name that stands alone has no space behind it
  unfold text at same
  split at same <;> split at same
  next alone alone' =>
    refine ⟨instructionName_inj same, fun _ => ?_⟩
    simp only [alone, operandsText]
  next alone other =>
    rw [same] at inside
    simp [String.toList_append] at inside
  next other alone =>
    rw [← same] at inside'
    simp [String.toList_append] at inside'
  next other other' =>
    have texts := congrArg String.toList same
    simp only [String.toList_append, String.reduceToList, List.append_assoc, List.cons_append,
      List.nil_append] at texts
    obtain ⟨name, operands⟩ := Text.field_inj inside inside' (List.append_cancel_left texts)
    refine ⟨instructionName_inj (String.toList_inj.mp name), fun formats => ?_⟩
    subst formats
    exact String.toList_inj.mp operands

/-- Every word the decoder has read has a text, and words that were read as different instructions
have different texts, whatever the texts are put after. -/
theorem formatInstruction_ofWord (w w' : BitVec 32) (formatted : String) :
    (∃ text, formatInstructionInto (.ofWord w) formatted = .ok text) ∧
      (formatInstructionInto (.ofWord w) formatted = formatInstructionInto (.ofWord w') formatted ↔
        Instruction.ofWord w = Instruction.ofWord w') := by
  have packed : Packed (.ofWord w) := packed_decode w
  have packed' : Packed (.ofWord w') := packed_decode w'
  obtain ⟨format, known, shown, admits, written⟩ := formatInstructionInto_packed packed
  obtain ⟨format', known', -, admits', written'⟩ := formatInstructionInto_packed packed'
  constructor
  · exact ⟨_, written formatted⟩
  constructor
  · -- the mnemonic gives the format back, and the format the operands shown
    intro same
    rw [written, written', Except.ok.injEq] at same
    obtain ⟨type, operands⟩ := text_inj same
    rw [← type, known, Except.ok.injEq] at known'
    rw [← type] at admits'
    obtain ⟨rd, rs1, rs2, imm⟩ := operandsText_inj shown admits admits' (operands known')
    exact eq_of_fields packed packed' type rd rs1 rs2 imm
  · intro same
    rw [same]

end InstructionDisplay
end Riscv64Emulator
