import Riscv64Emulator.Jit.CodeBuffer
import Mathlib.Logic.Relation

/-!
# The executor and the run loop

`Executor::run` of both back ends, which differ in the generator and the trampoline only,
and the loop of `Vm::run` around it, as a step relation: the executor looks a block up and
compiles it if need be, the host runs the code from block to block, and an exit ends the
run, starts over at its pc or makes the interpreter execute one instruction.
-/
namespace Riscv64Emulator.Jit

/-- What the executor uses of a back end. `State` is the host's, and a run of code ends with
`ret`, without an address, or with a jump to one; code that faults does not end. -/
structure Arch where
  State : Type
  Code : Type
  Leftover : Type
  generateBlockCode : CodeBufferFlags → Word → Memory → Bool → Word → Except Abort Code
  codeSize : Code → Nat
  codeSize_pos : ∀ code, 0 < codeSize code
  enter : Env → Guest → Leftover → State
  run : Env → Code → State → Option (Option Word × State)
  guest : State → Guest
  exitReason : State → Word
  exitPc : State → Word

/-- A block in the code buffer. `pc` and `memory` say what it was compiled from; nothing reads
them when the code runs. -/
structure CompiledBlock (Code : Type) where
  code : Code
  pc : Word
  memory : Memory

/-- What the executor puts into the code buffer. -/
inductive Written (Code : Type) where
  | trampoline
  | block (b : CompiledBlock Code)

/-- The number of instructions no block is longer than: one behind the last word of the
memory can not be fetched. -/
def blockFuel (memory : Memory) : Nat := memory.size.toNat / 4 + 2

theorem codeAt_behind {m : Memory} {pc : Word} (behind : m.size.toNat ≤ pc.toNat) :
    codeAt m pc = none := by
  have out : m.outOfRange pc 4 = true := by
    have bound := m.size_lt
    unfold Memory.outOfRange
    rw [Bool.or_eq_true, decide_eq_true_eq, decide_eq_true_eq, BitVec.lt_def, BitVec.lt_def,
      BitVec.toNat_add, show (4 : Word).toNat = 4 from rfl]
    omega
  have refused : m.verifyPermissions pc 4 MemoryFlags.execute = false := by
    unfold Memory.verifyPermissions
    rw [if_pos out]
  unfold codeAt
  rw [Memory.readT_eq _ _ _ _ (by decide), show BitVec.ofNat 64 4 = (4 : Word) from rfl, refused]
  rfl

/-- From every pc on, an instruction that can not be fetched comes in time. -/
theorem exists_unfetchable (m : Memory) (pc : Word) :
    ∃ n < blockFuel m, codeAt m (pc + BitVec.ofNat 64 (4 * n)) = none := by
  have bound := m.size_lt
  by_cases behind : m.size.toNat ≤ pc.toNat
  · refine ⟨0, by unfold blockFuel; omega, ?_⟩
    rw [Nat.mul_zero, BitVec.add_zero]
    exact codeAt_behind behind
  · refine ⟨(m.size.toNat - pc.toNat + 3) / 4, by unfold blockFuel; omega, codeAt_behind ?_⟩
    rw [BitVec.toNat_add, BitVec.toNat_ofNat]
    omega

/-- What stays fixed in a run: where the objects lie, and whether the build prints an
execution log, for which the executor compiles block by single instruction. -/
structure Build where
  layout : Layout
  singleStep : Bool

section Runs

variable (arch : Arch) (build : Build)

/-- The buffer of an executor. -/
abbrev Buffer := CodeBuffer (Written arch.Code)

/-- What generated code sees of a buffer. -/
def Build.env {arch : Arch} (buffer : Buffer arch) : Env where
  layout := build.layout
  maxBlocks := buffer.maxBlocks.toNat
  blockToOffset := buffer.blockToOffset
  skipPermissionChecks := buffer.flags.skipPermissionChecks

def Build.setting {arch : Arch} (buffer : Buffer arch) : Setting where
  flags := buffer.flags
  maxBlockCount := buffer.maxBlocks
  singleStep := build.singleStep
  blockToOffset := buffer.blockToOffset

/-- The places of a run of `Vm::run`: before `CodeBuffer::get`, before the code of a missing
block is generated and inserted, at the entry of a block, before the call of
`Interpreter::step`, and behind the return. -/
inductive Config where
  | lookup (vm : VmState) (buffer : Buffer arch)
  | compile (vm : VmState) (buffer : Buffer arch)
  | inside (exit : Exit) (buffer : Buffer arch) (block : CompiledBlock arch.Code) (s : arch.State)
  | fallBack (vm : VmState) (buffer : Buffer arch)
  | stopped (vm : VmState) (buffer : Buffer arch)

/-- The guest as the run loop sees it behind generated code. -/
def Guest.toVm (g : Guest) (exitPc : Word) (exit : Exit) : VmState where
  memory := g.memory
  cpu := g.registers.set Register.pc exitPc
  exit := exit

/-- The objects of the guest the trampoline is called for. -/
def guestOf (vm : VmState) : Guest := ⟨vm.cpu, vm.memory⟩

/-- The reasons with which the executor goes on. -/
def ArchExitReason.again : ArchExitReason → Bool
  | .blockNotGenerated | .singleStep => true
  | _ => false

/-- The reasons with which the run loop calls the interpreter. -/
def ArchExitReason.fallsBack : ArchExitReason → Bool
  | .unsupportedInstruction | .memoryReadFault | .memoryWriteFault => true
  | _ => false

/-- The other reasons, as `Vm::run` returns them. -/
def ArchExitReason.exitReason : ArchExitReason → Option ExitReason
  | .unalignedPc => some .unalignedPc
  | .outOfBoundsPc => some .outOfBoundsPc
  | .instructionFetchFault => some .instructionFetchFault
  | .undefinedInstruction => some .undefinedInstruction
  | .ecall => some .ecall
  | .ebreak => some .ebreak
  | _ => none

/-- One step of `Vm::run`. -/
inductive Next : Config arch → Config arch → Prop
  | hit {vm buffer offset block} (leftover : arch.Leftover)
      (found : buffer.get vm.cpu.pc = .ok (some offset)) (here : buffer.written offset = some (.block block)) :
      Next (.lookup vm buffer)
        (.inside vm.exit buffer block (arch.enter (build.env buffer) (guestOf vm) leftover))
  | miss {vm buffer} (absent : buffer.get vm.cpu.pc = .ok none) :
      Next (.lookup vm buffer) (.compile vm buffer)
  | compiled {vm buffer code offset buffer' block} (leftover : arch.Leftover)
      (generated : arch.generateBlockCode buffer.flags buffer.maxBlocks vm.memory
        build.singleStep vm.cpu.pc = .ok code)
      (inserted : buffer.insert vm.cpu.pc (arch.codeSize code) (.block ⟨code, vm.cpu.pc, vm.memory⟩)
        = .ok (offset, buffer'))
      (here : buffer'.written offset = some (.block block)) :
      Next (.compile vm buffer)
        (.inside vm.exit buffer' block (arch.enter (build.env buffer') (guestOf vm) leftover))
  | chain {exit buffer block s s' offset block'}
      (ran : arch.run (build.env buffer) block.code s
        = some (some (build.layout.codeBase + BitVec.setWidth 64 offset), s'))
      (here : buffer.written offset = some (.block block')) :
      Next (.inside exit buffer block s) (.inside exit buffer block' s')
  | again {exit buffer block s s'} (reason : ArchExitReason) (kind : reason.again = true)
      (ran : arch.run (build.env buffer) block.code s = some (none, s'))
      (code : arch.exitReason s' = reason.code) :
      Next (.inside exit buffer block s)
        (.lookup ((arch.guest s').toVm (arch.exitPc s') exit) buffer)
  | fallsBack {exit buffer block s s'} (reason : ArchExitReason) (kind : reason.fallsBack = true)
      (ran : arch.run (build.env buffer) block.code s = some (none, s'))
      (code : arch.exitReason s' = reason.code) :
      Next (.inside exit buffer block s)
        (.fallBack ((arch.guest s').toVm (arch.exitPc s') exit) buffer)
  | leaves {exit buffer block s s' reported} (reason : ArchExitReason)
      (kind : reason.exitReason = some reported)
      (ran : arch.run (build.env buffer) block.code s = some (none, s'))
      (code : arch.exitReason s' = reason.code) :
      Next (.inside exit buffer block s)
        (.stopped ((arch.guest s').toVm (arch.exitPc s') { exit with reason := reported }) buffer)
  | resumed {vm buffer vm'} (stepped : Interpreter.step vm = .ok (true, vm')) :
      Next (.fallBack vm buffer) (.lookup vm' buffer)
  | refused {vm buffer vm'} (stepped : Interpreter.step vm = .ok (false, vm')) :
      Next (.fallBack vm buffer) (.stopped vm' buffer)

/-- The runs of `Vm::run`, up to any point. -/
def Runs : Config arch → Config arch → Prop := Relation.ReflTransGen (Next arch build)

end Runs

theorem ArchExitReason.code_injective {r r' : ArchExitReason} (same : r.code = r'.code) : r = r' := by
  cases r <;> cases r' <;> first | rfl | exact absurd same (by decide)

/-- The address code lies at tells its offset. -/
theorem offset_injective {base : Word} {offset offset' : BitVec 32}
    (same : base + offset.setWidth 64 = base + offset'.setWidth 64) : offset = offset' := by
  have offsets := congrArg BitVec.toNat ((BitVec.add_right_inj _).mp same)
  have left := offset.isLt
  have right := offset'.isLt
  rw [BitVec.toNat_setWidth, BitVec.toNat_setWidth] at offsets
  exact BitVec.eq_of_toNat_eq (by omega)

/-! ### A back end that refines the abstract model -/

section Refinement

variable {arch : Arch}

/-- The host leaves the code of a block as the abstract outcome says. Code that jumps to
another block leaves the host `anchored`, and code that returns leaves a guest that is
`served` as before. -/
def Arch.Performs (arch : Arch) (anchored : arch.State → Prop) (served : Guest → Prop) (env : Env)
    (code : arch.Code) (s : arch.State) : Outcome → Prop
  | .depart (.exit reason pc) guest => ∃ s', arch.run env code s = some (none, s') ∧
      arch.exitReason s' = reason.code ∧ arch.exitPc s' = pc ∧ arch.guest s' = guest ∧ served guest
  | .depart (.enter offset) guest => ∃ s',
      arch.run env code s = some (some (env.layout.codeBase + offset.setWidth 64), s') ∧
      arch.guest s' = guest ∧ anchored s'
  | .fault => arch.run env code s = none
  | .next _ => False

/-- The generator and the host of a back end do what its abstract model says. `anchored` says
that the host has the executor's objects in the registers generated code expects them in. -/
structure Arch.Refines (arch : Arch) (be : BackEnd) where
  anchored : Setting → Word → Env → arch.State → Prop
  serves : ∀ {st size env s}, anchored st size env s → env.Serves st size (arch.guest s)
  enter : ∀ {st size env guest} (leftover : arch.Leftover), env.Serves st size guest →
    anchored st size env (arch.enter env guest leftover) ∧
      arch.guest (arch.enter env guest leftover) = guest
  performs : ∀ {st : Setting} {memory pc code env s},
    arch.generateBlockCode st.flags st.maxBlockCount memory st.singleStep pc = .ok code →
    env.blockToOffset = st.blockToOffset → anchored st memory.size env s →
    arch.Performs (anchored st memory.size env) (env.Serves st memory.size) env code s
      (blockEffect be st memory (blockFuel memory) pc (arch.guest s))

end Refinement

end Riscv64Emulator.Jit
