import Riscv64Emulator.Lib.LinearCode
import Riscv64Emulator.Lib.Emitter
import Riscv64Emulator.Lib.Calls
import Riscv64Emulator.Lib.DeferredExits
import Riscv64Emulator.Lib.ControlFlow
import Riscv64Emulator.Lib.EmittedFlow
import Riscv64Emulator.Lib.Emission
import Riscv64Emulator.Lib.WriteBack
import Riscv64Emulator.Lib.LittleEndian
import Riscv64Emulator.Lib.BitFields
import Riscv64Emulator.Lib.LabelledRuns
import Riscv64Emulator.Lib.RankedSimulation
import Riscv64Emulator.Lib.Frames
import Riscv64Emulator.Lib.Stack
import Riscv64Emulator.Lib.Text
import Riscv64Emulator.Lib.Lockstep
import Riscv64Emulator.Lib.Interference
import Riscv64Emulator.Vm.Memory
import Riscv64Emulator.Vm.MemoryCalls
import Riscv64Emulator.Vm.Instruction
import Riscv64Emulator.Vm.Encoding
import Riscv64Emulator.Vm.Steps
import Riscv64Emulator.Vm.Interpreter
import Riscv64Emulator.Vm.Isa
import Riscv64Emulator.Vm.MulDiv
import Riscv64Emulator.Vm.Transfers
import Riscv64Emulator.Vm.Accesses
import Riscv64Emulator.Vm.Writes
import Riscv64Emulator.Vm.Machine
import Riscv64Emulator.Vm.Refinement
import Riscv64Emulator.Vm.Operands
import Riscv64Emulator.Vm.InstructionDisplay
import Riscv64Emulator.Vm.ExecutionLog
import Riscv64Emulator.Elf.Loader
import Riscv64Emulator.Elf.Segments
import Riscv64Emulator.Elf.Image
import Riscv64Emulator.Jit.Host
import Riscv64Emulator.Jit.GuestStep
import Riscv64Emulator.Jit.HostAccess
import Riscv64Emulator.Jit.X64.Machine
import Riscv64Emulator.Jit.X64.CodeGenerator
import Riscv64Emulator.Jit.X64.Fragments
import Riscv64Emulator.Jit.X64.Compute
import Riscv64Emulator.Jit.X64.Alu
import Riscv64Emulator.Jit.X64.AccessCheck
import Riscv64Emulator.Jit.X64.Control
import Riscv64Emulator.Jit.X64.Transfers
import Riscv64Emulator.Jit.X64.Divide
import Riscv64Emulator.Jit.X64.Refinement
import Riscv64Emulator.Jit.X64.Checks
import Riscv64Emulator.Jit.X64.MulDiv
import Riscv64Emulator.Jit.Aarch64.Machine
import Riscv64Emulator.Jit.Aarch64.RegisterCache
import Riscv64Emulator.Jit.Aarch64.CodeGenerator
import Riscv64Emulator.Jit.Aarch64.CacheState
import Riscv64Emulator.Jit.Aarch64.Fragments
import Riscv64Emulator.Jit.Aarch64.Locking
import Riscv64Emulator.Jit.Aarch64.Control
import Riscv64Emulator.Jit.Aarch64.Operands
import Riscv64Emulator.Jit.Aarch64.Compute
import Riscv64Emulator.Jit.Aarch64.AccessCheck
import Riscv64Emulator.Jit.Aarch64.Entry
import Riscv64Emulator.Jit.Aarch64.Results
import Riscv64Emulator.Jit.Aarch64.Transfers
import Riscv64Emulator.Jit.Aarch64.Refinement
import Riscv64Emulator.Jit.Aarch64.Checks
import Riscv64Emulator.Jit.CodeBuffer
import Riscv64Emulator.Jit.SharedBuffer
import Riscv64Emulator.Jit.Publication
import Riscv64Emulator.Jit.CodeDump
import Riscv64Emulator.Jit.Executor
import Riscv64Emulator.Jit.Aarch64.CacheCalls
import Riscv64Emulator.Jit.Aarch64.Eviction
import Riscv64Emulator.Jit.Aarch64.Trampoline
import Riscv64Emulator.Jit.Stretch
import Riscv64Emulator.Jit.X64.Flow
import Riscv64Emulator.Jit.Aarch64.Flow
import Riscv64Emulator.Jit.ClosedCode
import Riscv64Emulator.Jit.BackEnds
import Riscv64Emulator.Jit.Runs
import Riscv64Emulator.Jit.FallBack
import Riscv64Emulator.Jit.BlockTable
import Riscv64Emulator.Jit.AccessChecks
import Riscv64Emulator.Jit.Sandbox
import Riscv64Emulator.Jit.Jumps
import Riscv64Emulator.Jit.Progress
import Riscv64Emulator.Jit.Agreement
import Riscv64Emulator.Jit.Equivalence
import Riscv64Emulator.Jit.Aarch64.Transparency
import Riscv64Emulator.Jit.Accesses
import Riscv64Emulator.Jit.Dispatch
import Riscv64Emulator.Jit.X64.Clobbers
import Riscv64Emulator.Jit.Execution
import Riscv64Emulator.Jit.LoggedRuns
import Riscv64Emulator.Jit.X64.Trampoline
import Riscv64Emulator.Jit.Aarch64.Clobbers
import Riscv64Emulator.Jit.Aarch64.TrampolineCall
import Riscv64Emulator.Jit.Isolation
import Riscv64Emulator.Jit.SharedRuns
import Riscv64Emulator.Jit.CallProgress
import Riscv64Emulator.Jit.Threads
import Riscv64Emulator.Jit.ThreadRuns
import Riscv64Emulator.Jit.ThreadIsolation
import Riscv64Emulator.Jit.SharedDump
import Riscv64Emulator.Jit.FixedCode
import Riscv64Emulator.StartUp
import Riscv64Emulator.MainProgram
import Riscv64Emulator.Conformance
