import Riscv64Emulator.Jit.Executor

/-!
# The guest code of a block

The stretch of guest instructions a block is made of depends on the memory and the start pc
only: it goes on from word to word until an instruction ends it, the next word can not be
fetched, or the first instruction is compiled in single-step mode.
-/
namespace Riscv64Emulator.Jit

/-- The instructions behind which no block goes on. `unsupported` are the ones the back end
compiles to an exit for want of code. -/
def Terminates (unsupported : Instruction → Prop) (i : Instruction) : Prop :=
  i.type ∈ [.jal, .jalr, .ecall, .ebreak, .undefined] ∨ unsupported i

/-- Why a stretch ends. -/
inductive StretchEnd where
  | terminator
  | unfetchable
  | singleStep
deriving DecidableEq, Repr

/-- The stretch from a pc on. -/
inductive Stretch (memory : Memory) (terminates : Instruction → Prop) (singleStep : Bool) :
    Word → List Instruction → StretchEnd → Prop
  | unfetchable {pc} (absent : codeAt memory pc = none) :
      Stretch memory terminates singleStep pc [] .unfetchable
  | terminator {pc i} (fetched : codeAt memory pc = some i) (ends : terminates i) :
      Stretch memory terminates singleStep pc [i] .terminator
  | single {pc i} (fetched : codeAt memory pc = some i) (passes : ¬terminates i)
      (stepping : singleStep = true) : Stretch memory terminates singleStep pc [i] .singleStep
  | next {pc i rest e} (fetched : codeAt memory pc = some i) (passes : ¬terminates i)
      (running : singleStep = false) (stretch : Stretch memory terminates singleStep (pc + 4) rest e) :
      Stretch memory terminates singleStep pc (i :: rest) e

variable {memory : Memory} {terminates : Instruction → Prop} {singleStep : Bool}

/-- A stretch reaches a word that can not be fetched at the latest. -/
theorem exists_stretch_of_unfetchable (n : Nat) (pc : Word)
    (absent : codeAt memory (pc + BitVec.ofNat 64 (4 * n)) = none) :
    ∃ is e, Stretch memory terminates singleStep pc is e ∧ is.length ≤ n := by
  -- on the distance to that word
  induction n generalizing pc with
  | zero =>
    rw [Nat.mul_zero, BitVec.add_zero] at absent
    exact ⟨[], _, .unfetchable absent, Nat.le_refl 0⟩
  | succ n ih =>
    cases fetched : codeAt memory pc with
    | none => exact ⟨[], _, .unfetchable fetched, Nat.zero_le _⟩
    | some i =>
      by_cases ends : terminates i
      · exact ⟨[i], _, .terminator fetched ends, Nat.succ_le_succ (Nat.zero_le n)⟩
      cases stepping : singleStep with
      | true => exact ⟨[i], _, .single fetched ends rfl, Nat.succ_le_succ (Nat.zero_le n)⟩
      | false =>
        rw [← add_four] at absent
        obtain ⟨rest, e, stretch, bounded⟩ := ih (pc + 4) absent
        rw [stepping] at stretch
        exact ⟨i :: rest, e, .next fetched ends rfl stretch, Nat.succ_le_succ bounded⟩

/-- From every pc on there is a stretch, and it is shorter than the fuel of a block. -/
theorem exists_stretch (memory : Memory) (terminates : Instruction → Prop) (singleStep : Bool)
    (pc : Word) :
    ∃ is e, Stretch memory terminates singleStep pc is e ∧ is.length < blockFuel memory := by
  obtain ⟨n, below, absent⟩ := exists_unfetchable memory pc
  obtain ⟨is, e, stretch, bounded⟩ := exists_stretch_of_unfetchable n pc absent
  exact ⟨is, e, stretch, Nat.lt_of_le_of_lt bounded below⟩

end Riscv64Emulator.Jit
