import Riscv64Emulator.Vm.Steps

/-!
# Jumps and branches of the interpreter

Where the ISA goes on behind a jump or a branch, and that the interpreter goes there with
the link written, from the word in memory to the pc.
-/
namespace Riscv64Emulator

namespace Isa

/-- The jumps and the conditional branches. -/
def transfers : InstructionType → Bool
  | .jal | .jalr | .beq | .bne | .blt | .bge | .bltu | .bgeu => true
  | _ => false

/-- The jumps that write the address behind them. -/
def links : InstructionType → Bool
  | .jal | .jalr => true
  | _ => false

/-- The condition of a branch, on all 64 bits of both registers. -/
def condition (type : InstructionType) (a b : Word) : Bool :=
  match type with
  | .beq => a.toNat = b.toNat
  | .bne => a.toNat ≠ b.toNat
  | .blt => a.toInt < b.toInt
  | .bge => b.toInt ≤ a.toInt
  | .bltu => a.toNat < b.toNat
  | .bgeu => b.toNat ≤ a.toNat
  | _ => false

/-- Where control goes from `pc` with the registers `r`. -/
def nextPc (i : Instruction) (pc : Word) (r : RegisterState) : Word :=
  match i.type with
  | .jal => pc + i.imm
  | .jalr => (r.get i.rs1 + i.imm) &&& ~~~1
  | _ => if condition i.type (r.get i.rs1) (r.get i.rs2) then pc + i.imm else pc + 4

end Isa

namespace Interpreter

/-- What a jump or branch makes of the state: the pc and the link, and nothing else. -/
structure Transferred (s : VmState) (i : Instruction) (t : VmState) : Prop where
  pc : t.cpu.pc = Isa.nextPc i s.cpu.pc s.cpu
  link : Isa.links i.type = true → i.rd ≠ Register.zero → t.cpu.get i.rd = s.cpu.pc + 4
  others : ∀ r, r ≠ Register.pc → ¬(Isa.links i.type = true ∧ r = i.rd ∧ r ≠ Register.zero) →
    t.cpu.get r = s.cpu.get r
  memory : t.memory = s.memory
  exit : t.exit = s.exit

/-- A step reports a misaligned pc. -/
def ReportsUnaligned (s : VmState) (pc : Word) : Prop :=
  ∃ t, step s = .ok (false, t) ∧ t.exit.reason = .unalignedPc ∧ t.cpu.pc = pc

section Transfers

variable {s t : VmState} {i : Instruction} {w : Word}

theorem branchTaken_condition {type : InstructionType} (kind : branches type = true) (a b : Word) :
    branchTaken type a b = .ok (Isa.condition type a b) := by
  have less : a.slt b = decide (a.toInt < b.toInt) := rfl
  have lessEq : b.sle a = decide (b.toInt ≤ a.toInt) := rfl
  have lessU : a.ult b = decide (a.toNat < b.toNat) := rfl
  have lessEqU : b.ule a = decide (b.toNat ≤ a.toNat) := rfl
  have same : (a == b) = decide (a.toNat = b.toNat) := by
    rw [Bool.eq_iff_iff, beq_iff_eq, decide_eq_true_eq]
    exact BitVec.toNat_inj.symm
  have differ : (a != b) = decide (a.toNat ≠ b.toNat) := by
    unfold bne
    rw [same]
    simp
  cases type <;> first | exact absurd kind (by decide) |
    simp only [branchTaken, Isa.condition, same, differ, less, lessEq, lessU, lessEqU]

/-- A jump to `target` that writes `rd` if it links. -/
theorem transferred_jump {target : Word} {linked : Cpu}
    (goes : target = Isa.nextPc i s.cpu.pc s.cpu)
    (links : Isa.links i.type = true → linked = s.cpu.set i.rd (s.cpu.pc + 4))
    (keeps : Isa.links i.type = false → linked = s.cpu) : Transferred s i (jump s linked target) where
  pc := (pc_set _ _).trans goes
  link kind nonzero := by
    rw [links kind]
    unfold jump
    rw [RegisterState.get_set_other _ _ i.rd_ne_pc, RegisterState.get_set_same _ _ _ nonzero]
  others r below unlinked := by
    unfold jump
    rw [RegisterState.get_set_other _ _ below]
    cases kind : Isa.links i.type with
    | false => rw [keeps kind]
    | true =>
      rw [links kind, RegisterState.get_set]
      -- the only register written is the link
      refine if_neg fun written => unlinked ⟨kind, written.1, ?_⟩
      rw [written.1]
      exact written.2
  memory := rfl
  exit := rfl

theorem execute_transfers (s : VmState) (kind : Isa.transfers i.type = true) :
    ∃ t, execute s s.cpu.pc i = .ok (true, t) ∧ Transferred s i t := by
  by_cases jal : i.type = .jal
  · refine ⟨_, execute_jump jal s s.cpu.pc, transferred_jump ?_ (fun _ => rfl) ?_⟩
    · simp only [Isa.nextPc, jal]
    · simp only [jal, Isa.links, Bool.true_eq_false, false_implies]
  by_cases jalr : i.type = .jalr
  · refine ⟨_, execute_jumpIndirect jalr s s.cpu.pc, transferred_jump ?_ (fun _ => rfl) ?_⟩
    · simp only [Isa.nextPc, jalr, accessAddress]
    · simp only [jalr, Isa.links, Bool.true_eq_false, false_implies]
  -- neither of the jumps, so a branch, which links nothing
  have branch : branches i.type = true := by
    revert kind jal jalr
    cases i.type <;> decide
  have unlinked : Isa.links i.type = false := by
    revert branch
    cases i.type <;> decide
  obtain ⟨taken, chosen, executed⟩ := execute_branch branch s s.cpu.pc
  rw [branchTaken_condition branch] at chosen
  cases chosen
  refine ⟨_, executed, transferred_jump ?_ (fun links => ?_) (fun _ => rfl)⟩
  · unfold Isa.nextPc
    cases type : i.type <;> first | rfl | exact absurd type jal | exact absurd type jalr
  · cases unlinked.symm.trans links

/-- A step reports a misaligned pc exactly when it is no multiple of four. -/
theorem reportsUnaligned_iff (s : VmState) : ReportsUnaligned s s.cpu.pc ↔ s.cpu.pc.toNat % 4 ≠ 0 := by
  have aligned : s.cpu.pc &&& 3 = 0 ↔ s.cpu.pc.toNat % 4 = 0 := and_mask_eq_zero s.cpu.pc (k := 2) (by decide)
  have stepped := step_cases s
  constructor
  · rintro ⟨t, result, reason, -⟩
    rw [result] at stepped
    -- no other way to stop reports this reason
    cases stepped with
    | unalignedPc misaligned => exact fun multiple => misaligned (aligned.mpr multiple)
    | fetchFault => cases reason
    | executed fetch after =>
      cases after with
      | stopped after => cases after <;> cases reason
  · intro misaligned
    refine ⟨{ s with exit := { s.exit with reason := .unalignedPc } }, ?_, rfl, rfl⟩
    unfold step
    rw [if_pos fun multiple => misaligned (aligned.mp multiple)]

/-- The word at an aligned pc, as the interpreter fetches it. -/
structure Holds (s : VmState) (w : Word) : Prop where
  aligned : s.cpu.pc &&& 3 = 0
  read : s.memory.readT 4 s.cpu.pc MemoryFlags.execute = some w

theorem Holds.fetched (holds : Holds s w) : fetched s = some (.ofWord (w.setWidth 32)) := by
  unfold Interpreter.fetched
  rw [if_neg fun misaligned => misaligned holds.aligned, holds.read]
  rfl

/-- The words of jumps and branches hold what the decoder makes of them. -/
theorem encodes_transfer {w : BitVec 32} (kind : Isa.transfers (Instruction.ofWord w).type = true) :
    Instruction.Encodes w (.ofWord w) := by
  have clean : ¬InstructionDecoder.Misread w := fun slip => by
    obtain ⟨type, f, kinds, typed, -⟩ := InstructionDecoder.type_misread slip
    rw [show (Instruction.ofWord w).type = type from typed] at kind
    rcases kinds with rfl | rfl | rfl <;> cases kind
  rcases InstructionDecoder.accepted_decode w with undefined | slip | ⟨f, named, matched⟩
  · rw [show (Instruction.ofWord w).type = .undefined from undefined] at kind
    cases kind
  · exact absurd slip clean
  · have known : (InstructionDecoder.decode w).type ≠ .sraiw := fun typed => by
      rw [show (Instruction.ofWord w).type = .sraiw from typed] at kind
      cases kind
    exact Instruction.encodes_matched named matched known

/-- A step at the word of a jump or branch goes where the ISA says, writes the link, and leaves
the rest; the next step reports the target exactly when it is misaligned. -/
theorem step_transfers (s : VmState) (w : Word) (holds : Holds s w)
    (kind : Isa.transfers (Instruction.ofWord (w.setWidth 32)).type = true) :
    Instruction.Encodes (w.setWidth 32) (.ofWord (w.setWidth 32)) ∧
      ∃ t, step s = .ok (true, t) ∧ Transferred s (.ofWord (w.setWidth 32)) t ∧
        (ReportsUnaligned t (Isa.nextPc (.ofWord (w.setWidth 32)) s.cpu.pc s.cpu) ↔
          (Isa.nextPc (.ofWord (w.setWidth 32)) s.cpu.pc s.cpu).toNat % 4 ≠ 0) := by
  obtain ⟨t, executed, transferred⟩ := execute_transfers s kind
  refine ⟨encodes_transfer kind, t, (step_of_fetched holds.fetched).trans executed, transferred, ?_⟩
  rw [← transferred.pc]
  exact reportsUnaligned_iff t

/-- `jalr x1, 6(x1)` with `x1 = 8`: the old register is the base and the link goes over it. -/
theorem step_transfers_jalr : ∃ s t : VmState, step s = .ok (true, t) ∧ t.cpu.pc = 14 ∧
    t.cpu.get 1 = 4 ∧ ReportsUnaligned t 14 := by
  let memory := Memory.ofImage 16 (by decide) [0xe7, 0x80, 0x60, 0x00] (MemoryFlags.execute)
  let s : VmState := ⟨memory, ⟨fun r => if r = 1 then 8 else 0⟩, {}⟩
  have holds : Holds s 0x006080e7 := ⟨by decide, by decide⟩
  have rd : (Instruction.ofWord ((0x006080e7 : Word).setWidth 32)).rd = 1 := by decide
  have target : Isa.nextPc (.ofWord ((0x006080e7 : Word).setWidth 32)) s.cpu.pc s.cpu = 14 := by decide
  obtain ⟨-, t, stepped, transferred, unaligned⟩ := step_transfers s _ holds (by decide)
  rw [target] at unaligned
  refine ⟨s, t, stepped, transferred.pc.trans target, ?_, unaligned.mpr (by decide)⟩
  have link := transferred.link (by decide) (by rw [rd]; decide)
  rwa [rd] at link

end Transfers

end Interpreter

end Riscv64Emulator
