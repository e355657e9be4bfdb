import Riscv64Emulator.Vm.Operands
import Riscv64Emulator.Vm.Steps
import Riscv64Emulator.Jit.X64.Checks
import Riscv64Emulator.Jit.Aarch64.Checks

/-!
# Decoded instructions in the three engines

Every switch over the type of an instruction has a case for it, in the interpreter and in
both generators. With the ranges of the operands this is what the engines take from the
decoder.
-/
namespace Riscv64Emulator

namespace Jit

/-- No engine takes the default branch of a switch on `i`. -/
structure Dispatched (i : Instruction) : Prop where
  interpreter : ∀ s : VmState, Interpreter.execute s s.cpu.pc i ≠ unreachable
  x64 : ∀ g : X64.CodeGenerator,
    (g.generateInstruction i).FailsOnly (· ≠ .fatalError "entered unreachable code")
  aarch64 : ∀ g : Aarch64.CodeGenerator,
    (g.generateInstruction i).FailsOnly (· ≠ .fatalError "entered unreachable code")

end Jit

/-- The interpreter aborts in the multiplications it does not have and in the divisions C++ does not
define. -/
theorem Interpreter.execute_dispatches (s : VmState) {i : Instruction}
    (shape : InstructionDecoder.ImmediateOf i.type i.b) : execute s s.cpu.pc i ≠ unreachable := by
  have executed := execute_cases s i shape
  generalize execute s s.cpu.pc i = outcome at executed
  cases executed with
  | retired _ => nofun
  | stopped _ => nofun
  | multiplyHigh _ => exact fun same => absurd (Except.error.inj same) (by decide)
  | divided _ _ => nofun

/-- A comparison of `x0` with an immediate stops in a check, before any default. -/
theorem Jit.X64.CodeGenerator.dispatches_generateInstruction (g : CodeGenerator) (i : Instruction) :
    (g.generateInstruction i).FailsOnly (· ≠ .fatalError "entered unreachable code") := by
  intro n e ran
  by_cases zero : ComparesZero i
  · rw [g.run_comparesZero zero] at ran
    cases ran
    nofun
  · have assembler : e = .notEncodable := g.unchecked_generateInstruction zero n e ran
    rw [assembler]
    nofun

/-- For every word the decoder returns an instruction with the operands of its type, and
all three engines have a case for that type. -/
theorem Instruction.dispatched_ofWord (w : BitVec 32) :
    (ofWord w).Guaranteed ∧ Jit.Dispatched (ofWord w) := by
  refine ⟨guaranteed_ofWord w, ?_⟩
  exact {
    interpreter := fun s => Interpreter.execute_dispatches s (immediateOf_ofWord w)
    x64 := fun g => g.dispatches_generateInstruction _
    aarch64 := fun g => g.dispatches_generateInstruction _ }

end Riscv64Emulator
