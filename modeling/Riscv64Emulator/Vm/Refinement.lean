import Riscv64Emulator.Vm.Machine
import Riscv64Emulator.Vm.Writes

/-!
# The interpreter as a machine of the ISA

A state of the interpreter is seen as a state of the ISA's machine, the permissions of its memory
as the environment. As long as the program stays with what the emulator implements, the two go in
lockstep.
-/
namespace Riscv64Emulator

open InstructionDecoder Interpreter Isa

/-- The state of the ISA's machine. Behind its end the memory reads as zero. -/
def VmState.machine (s : VmState) : Machine where
  pc := s.cpu.pc
  x k := s.cpu.get k.castSucc
  memory a := if a.toNat < s.memory.size.toNat then s.memory.contents a.toNat else 0

def Isa.Right.flag : Right → MemoryFlags
  | .read => MemoryFlags.read
  | .write => MemoryFlags.write
  | .execute => MemoryFlags.execute

namespace Interpreter

/-- A step that reports. -/
def Stops (s : VmState) (e : Exit) : Prop := step s = .ok (false, { s with exit := e })

end Interpreter

namespace Interpreter

theorem deterministic : Lockstep.Deterministic Steps Stops where
  goes_unique first second := by
    cases first.symm.trans second
    rfl
  stops_unique {s e e'} first second := by
    have same := first.symm.trans second
    simp only [Except.ok.injEq, Prod.mk.injEq, true_and, VmState.mk.injEq] at same
    exact same
  exclusive stop step := by cases stop.symm.trans step

section Kinds

variable {type : InstructionType}

end Kinds

section View

variable {s : VmState} {r : Register} {i : Instruction} {a v pc : Word} {n : Nat}

end View

/-! ### One step -/

section Step

variable {s : VmState} {i : Instruction} {m : Memory} {flag : MemoryFlags} {address : Word} {n : Nat}

end Step

/-! ### Runs -/

section Runs

variable {s t : VmState}

end Runs

end Interpreter

end Riscv64Emulator
