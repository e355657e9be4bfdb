import Riscv64Emulator.Jit.Host
import Riscv64Emulator.Vm.Isa

/-!
# What generated code does, in terms of the guest

The abstract model of both back ends: the effect one compiled instruction has on the
guest, and the effect of a block, with no host registers, host addresses or labels. The
back ends differ in the values their arithmetic produces and in the instructions they
hand back to the interpreter (`BackEnd`); the rest is common.
-/
namespace Riscv64Emulator.Jit

/-- `ArchExitReason`, which both back ends declare alike. -/
inductive ArchExitReason where
  | unalignedPc
  | outOfBoundsPc
  | instructionFetchFault
  | blockNotGenerated
  | singleStep
  | undefinedInstruction
  | unsupportedInstruction
  | memoryReadFault
  | memoryWriteFault
  | ecall
  | ebreak
deriving DecidableEq, Repr

/-- An exit reason as the number the executor reads back. -/
def ArchExitReason.code (r : ArchExitReason) : Word := BitVec.ofNat 64 r.ctorIdx

/-- `CodeBuffer::Flags`, a set of two bits. -/
structure CodeBufferFlags where
  multithreaded : Bool := false
  skipPermissionChecks : Bool := false
deriving DecidableEq, Repr

/-- `utils::memory_access_size_log2`. -/
def memoryAccessSizeLog2 : InstructionType → Except Abort Nat
  | .sb | .lb | .lbu => .ok 0
  | .sh | .lh | .lhu => .ok 1
  | .sw | .lw | .lwu => .ok 2
  | .sd | .ld => .ok 3
  | _ => unreachable

/-- The mask of a wide permission check: the byte `flag`, `n` times. -/
def permissionMask (flag : MemoryFlags) : Nat → Word
  | 0 => 0
  | n + 1 => permissionMask flag n ||| (flag.setWidth 64 <<< (n * 8))

/-- The permission a direction needs. -/
def accessFlag (write : Bool) : MemoryFlags := if write then MemoryFlags.write else MemoryFlags.read

/-- The reason of the exit for a rejected access. -/
def accessFault (write : Bool) : ArchExitReason :=
  if write then .memoryWriteFault else .memoryReadFault

/-- How generated code is left: with an exit reason and a pc, or into the code published
at an offset of the code buffer. -/
inductive Departure where
  | exit (reason : ArchExitReason) (pc : Word)
  | enter (codeOffset : BitVec 32)
deriving DecidableEq, Repr

inductive Outcome where
  | next (g : Guest)
  | depart (d : Departure) (g : Guest)
  | fault

/-- What the emitted code depends on besides the instruction. -/
structure Setting where
  flags : CodeBufferFlags
  maxBlockCount : Word
  singleStep : Bool
  blockToOffset : Nat → BitVec 32

/-- The arithmetic of a back end: the value it gives `rd`, if its code does not fault, and
the instructions it compiles at all. -/
structure BackEnd where
  value : Instruction → Word → RegisterState → Option Word
  supports : Instruction → Bool

namespace Setting

/-- Enter the block of a valid target, or leave for it. -/
def branchTo (st : Setting) (target : Word) (g : Guest) : Outcome :=
  if st.singleStep then .depart (.exit .singleStep target) g
  else
    let offset := st.blockToOffset (target.toNat / 4)
    if offset = 0 then .depart (.exit .blockNotGenerated target) g
    else .depart (.enter offset) g

/-- `generate_static_branch`: the error exits carry the pc of the branch itself. -/
def staticBranch (st : Setting) (pc target : Word) (g : Guest) : Outcome :=
  if target &&& 3 ≠ 0 then .depart (.exit .unalignedPc pc) g
  else if st.maxBlockCount.toNat ≤ target.toNat / 4 then .depart (.exit .outOfBoundsPc pc) g
  else st.branchTo target g

/-- `generate_dynamic_branch`: bit 0 of the target reaches the exits. -/
def dynamicBranch (st : Setting) (target : Word) (g : Guest) : Outcome :=
  if target &&& 2 ≠ 0 then .depart (.exit .unalignedPc target) g
  else if st.maxBlockCount.toNat ≤ target.toNat / 4 then .depart (.exit .outOfBoundsPc target) g
  else st.branchTo target g

/-- The condition `generate_validate_memory_access` checks. -/
def accessAllowed (st : Setting) (m : Memory) (sizeLog2 : Nat) (flag : MemoryFlags)
    (address : Word) : Bool :=
  address.toNat % 2 ^ sizeLog2 == 0 && decide (address.toNat < m.size.toNat) &&
    (st.flags.skipPermissionChecks || (List.range (2 ^ sizeLog2)).all fun i =>
      m.permissions (address.toNat + i) &&& flag == flag)

/-- A branch always leaves the code. -/
theorem branchTo_departs (st : Setting) (target : Word) (g : Guest) :
    ∃ d, st.branchTo target g = .depart d g := by
  unfold branchTo
  split
  · exact ⟨_, rfl⟩
  · dsimp only
    split <;> exact ⟨_, rfl⟩

theorem staticBranch_departs (st : Setting) (pc target : Word) (g : Guest) :
    ∃ d, st.staticBranch pc target g = .depart d g := by
  unfold staticBranch
  split
  · exact ⟨_, rfl⟩
  · split
    · exact ⟨_, rfl⟩
    · exact branchTo_departs st target g

theorem dynamicBranch_departs (st : Setting) (target : Word) (g : Guest) :
    ∃ d, st.dynamicBranch target g = .depart d g := by
  unfold dynamicBranch
  split
  · exact ⟨_, rfl⟩
  · split
    · exact ⟨_, rfl⟩
    · exact branchTo_departs st target g

end Setting

/-- Extend a loaded little-endian number to the register width. -/
def extendLoaded (type : InstructionType) (v : Word) : Word :=
  match type with
  | .lb => (v.setWidth 8).signExtend 64
  | .lh => (v.setWidth 16).signExtend 64
  | .lw => (v.setWidth 32).signExtend 64
  | _ => v

/-- The width of a memory access, as a power of two. -/
def accessLog2 (type : InstructionType) : Nat :=
  match memoryAccessSizeLog2 type with
  | .ok k => k
  | .error _ => 0

/-- The value a load gives its register. -/
def Guest.loaded (g : Guest) (type : InstructionType) (address : Word) : Word :=
  extendLoaded type (leValue (bytesAt g.memory.allocation address.toNat (2 ^ accessLog2 type)))

/-- A store of the low `2 ^ k` bytes of a value. -/
def Guest.storeBytes (g : Guest) (address : Word) (k : Nat) (value : Word) : Guest :=
  let written := overwrite g.memory.allocation address.toNat (leBytes (2 ^ k) value)
  { g with memory := { g.memory with allocation := written } }

def Guest.setRegister (g : Guest) (r : Register) (v : Word) : Guest :=
  { g with registers := g.registers.set r v }

/-- A computed value arrives in its register; without one the code has faulted. -/
def Outcome.ofValue (g : Guest) (rd : Register) : Option Word → Outcome
  | some v => .next (g.setRegister rd v)
  | none => .fault

/-- The condition of a branch instruction on its operands. -/
def branchCondition (type : InstructionType) (a b : Word) : Bool :=
  match type with
  | .beq => a == b
  | .bne => a != b
  | .blt => a.slt b
  | .bge => b.sle a
  | .bltu => a.ult b
  | _ => b.ule a

/-- The effect of the code compiled for one instruction at `pc`. -/
def effect (be : BackEnd) (st : Setting) (pc : Word) (i : Instruction) (g : Guest) : Outcome :=
  let a := g.registers.get i.rs1
  let b := g.registers.get i.rs2
  let address := a + i.imm
  match i.type with
  | .jal => st.staticBranch pc (pc + i.imm) (g.setRegister i.rd (pc + 4))
  | .jalr => st.dynamicBranch address (g.setRegister i.rd (pc + 4))
  | .beq | .bne | .blt | .bge | .bltu | .bgeu =>
    if branchCondition i.type a b then st.staticBranch pc (pc + i.imm) g else .next g
  | .lb | .lh | .lw | .ld | .lbu | .lhu | .lwu =>
    if i.rd = Register.zero then .next g
    else if st.accessAllowed g.memory (accessLog2 i.type) MemoryFlags.read address then
      .next (g.setRegister i.rd (g.loaded i.type address))
    else .depart (.exit .memoryReadFault pc) g
  | .sb | .sh | .sw | .sd =>
    if st.accessAllowed g.memory (accessLog2 i.type) MemoryFlags.write address then
      .next (g.storeBytes address (accessLog2 i.type) b)
    else .depart (.exit .memoryWriteFault pc) g
  | .mulh | .mulhu | .mulhsu => .depart (.exit .unsupportedInstruction pc) g
  | .fence => .next g
  | .ecall => .depart (.exit .ecall pc) g
  | .ebreak => .depart (.exit .ebreak pc) g
  | .undefined => .depart (.exit .undefinedInstruction pc) g
  | _ =>
    if !be.supports i then .depart (.exit .unsupportedInstruction pc) g
    else if i.rd = Register.zero then .next g
    else .ofValue g i.rd (be.value i pc g.registers)

/-- The place of the instruction behind `n` others, from the first one on. -/
theorem add_four (pc : Word) (n : Nat) :
    pc + 4 + BitVec.ofNat 64 (4 * n) = pc + BitVec.ofNat 64 (4 * (n + 1)) := by
  have further : (4 : Word) + BitVec.ofNat 64 (4 * n) = BitVec.ofNat 64 (4 * (n + 1)) := by
    rw [Nat.mul_add, Nat.add_comm, BitVec.ofNat_add]
    rfl
  rw [BitVec.add_assoc, further]

/-- The word `generate_block` compiles at `pc`. -/
def codeAt (m : Memory) (pc : Word) : Option Instruction :=
  (m.readT 4 pc MemoryFlags.execute).map fun w => .ofWord (w.setWidth 32)

/-- The effect of a block compiled at `pc` from the code of `m`: the effects of its
instructions in order, as long as they pass control on. -/
def blockEffect (be : BackEnd) (st : Setting) (m : Memory) : Nat → Word → Guest → Outcome
  | 0, _, _ => .fault
  | n + 1, pc, g =>
    match codeAt m pc with
    | none => .depart (.exit .instructionFetchFault pc) g
    | some i =>
      match effect be st pc i g with
      | .next g' =>
        if st.singleStep then .depart (.exit .singleStep (pc + 4)) g'
        else blockEffect be st m n (pc + 4) g'
      | other => other

/-- A block ends: control never comes back from it. -/
theorem blockEffect_ne_next (be : BackEnd) (st : Setting) (m : Memory) (n : Nat) (pc : Word)
    (g g' : Guest) : blockEffect be st m n pc g ≠ .next g' := by
  induction n generalizing pc g with
  | zero => exact fun same => by cases same
  | succ n ih =>
    unfold blockEffect
    split
    · exact fun same => by cases same
    · split
      · split
        · exact fun same => by cases same
        · exact ih _ _
      · next departs => exact departs _

/-! ### Comparisons by subtraction -/

/-- The zero flag of a subtraction is the equality of its operands. -/
theorem subtraction_zero {w : Nat} (a b : BitVec w) : (a - b == 0) = (a == b) := by
  rw [Bool.eq_iff_iff, beq_iff_eq, beq_iff_eq, BitVec.sub_eq_iff_eq_add, BitVec.ofNat_eq_ofNat,
    BitVec.zero_add]

/-- The sign of a subtraction differs from its overflow for the smaller first operand. -/
theorem subtraction_less (a b : Word) :
    ((a - b).msb != (a.msb != b.msb && (a - b).msb != a.msb)) = a.slt b := by
  have left := a.isLt
  have right := b.isLt
  have difference := BitVec.toNat_sub a b
  rw [Bool.eq_iff_iff, BitVec.slt_iff_toInt_lt, BitVec.toInt_eq_msb_cond, BitVec.toInt_eq_msb_cond]
  simp only [BitVec.msb_eq_decide]
  generalize (a - b).toNat = d at difference
  have half : (2 : Nat) ^ (64 - 1) = 9223372036854775808 := by decide
  simp only [half]
  by_cases ha : 9223372036854775808 ≤ a.toNat <;> by_cases hb : 9223372036854775808 ≤ b.toNat <;>
    by_cases hd : 9223372036854775808 ≤ d <;> simp [ha, hb, hd] <;> omega

/-! ### Families of instructions -/

/-- The instructions that read memory. -/
def isLoad (type : InstructionType) : Bool :=
  match type with
  | .lb | .lh | .lw | .ld | .lbu | .lhu | .lwu => true
  | _ => false

/-- The instructions that write memory. -/
def isStore (type : InstructionType) : Bool :=
  match type with
  | .sb | .sh | .sw | .sd => true
  | _ => false

/-- The conditional branches. -/
def isBranch (type : InstructionType) : Bool :=
  match type with
  | .beq | .bne | .blt | .bge | .bltu | .bgeu => true
  | _ => false

/-- The instructions that leave generated code without having done anything. -/
def exitReason : InstructionType → Option ArchExitReason
  | .mulh | .mulhu | .mulhsu => some .unsupportedInstruction
  | .ecall => some .ecall
  | .ebreak => some .ebreak
  | .undefined => some .undefinedInstruction
  | _ => none

/-- The divisions and remainders. -/
def isDivision (type : InstructionType) : Bool :=
  match type with
  | .div | .divw | .divu | .divuw | .rem | .remu | .remw | .remuw => true
  | _ => false

/-- The instructions that compute `rd` without a division. -/
def computesDirectly (type : InstructionType) : Bool :=
  Isa.computes type || type == .mul || type == .mulw

/-- The instructions that give `rd` a value of the back end. -/
def isComputation (type : InstructionType) : Bool := computesDirectly type || isDivision type

/-- Every instruction belongs to one family. -/
theorem instruction_family (type : InstructionType) :
    isLoad type = true ∨ isStore type = true ∨ isBranch type = true ∨
      (∃ reason, exitReason type = some reason) ∨ type = .jal ∨ type = .jalr ∨ type = .fence ∨
      isComputation type = true := by
  cases type <;> simp [isLoad, isStore, isBranch, exitReason, isComputation, computesDirectly,
    isDivision, Isa.computes]

theorem memoryAccessSizeLog2_eq {type : InstructionType}
    (kind : isLoad type = true ∨ isStore type = true) :
    memoryAccessSizeLog2 type = .ok (accessLog2 type) ∧ accessLog2 type ≤ 3 := by
  cases type <;> first | exact ⟨rfl, by decide⟩ | exact absurd kind (by decide)

section Families

variable (be : BackEnd) (st : Setting) (pc : Word) {i : Instruction} (g : Guest)

theorem effect_load (kind : isLoad i.type = true) :
    effect be st pc i g =
      if i.rd = Register.zero then .next g
      else if st.accessAllowed g.memory (accessLog2 i.type) MemoryFlags.read
          (g.registers.get i.rs1 + i.imm) then
        .next (g.setRegister i.rd (g.loaded i.type (g.registers.get i.rs1 + i.imm)))
      else .depart (.exit .memoryReadFault pc) g := by
  unfold effect
  cases type : i.type <;> first | rfl | exact absurd (type ▸ kind) (by decide)

theorem effect_store (kind : isStore i.type = true) :
    effect be st pc i g =
      if st.accessAllowed g.memory (accessLog2 i.type) MemoryFlags.write
          (g.registers.get i.rs1 + i.imm) then
        .next (g.storeBytes (g.registers.get i.rs1 + i.imm) (accessLog2 i.type)
          (g.registers.get i.rs2))
      else .depart (.exit .memoryWriteFault pc) g := by
  unfold effect
  cases type : i.type <;> first | rfl | exact absurd (type ▸ kind) (by decide)

theorem effect_branch (kind : isBranch i.type = true) :
    effect be st pc i g =
      if branchCondition i.type (g.registers.get i.rs1) (g.registers.get i.rs2) then
        st.staticBranch pc (pc + i.imm) g
      else .next g := by
  unfold effect
  cases type : i.type <;> first | rfl | exact absurd (type ▸ kind) (by decide)

theorem effect_exit {reason : ArchExitReason} (kind : exitReason i.type = some reason) :
    effect be st pc i g = .depart (.exit reason pc) g := by
  unfold effect
  cases type : i.type <;> simp only [type, exitReason, Option.some.injEq, reduceCtorEq] at kind <;>
    subst kind <;> rfl

theorem effect_computation (kind : isComputation i.type = true) :
    effect be st pc i g =
      if !be.supports i then .depart (.exit .unsupportedInstruction pc) g
      else if i.rd = Register.zero then .next g
      else .ofValue g i.rd (be.value i pc g.registers) := by
  unfold effect
  cases type : i.type <;> first | rfl | exact absurd (type ▸ kind) (by decide)

end Families

end Riscv64Emulator.Jit
