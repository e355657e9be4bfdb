import Riscv64Emulator.Jit.Runs
import Riscv64Emulator.Jit.BackEnds

/-!
# Falling back to the interpreter

Generated code hands a load or store it does not accept over to the interpreter. The guest
is then the one behind the instructions before it, so the interpreter makes the access
once or reports it, as long as the program has not overwritten the instruction since it
was compiled.
-/
namespace Riscv64Emulator.Jit

/-! ### Faults of generated code -/

/-- The instructions in front of the `n`-th from `pc` on pass control on, one by one, and make
`g'` of the guest `g`. -/
def Precedes (be : BackEnd) (st : Setting) (m : Memory) : Nat → Word → Guest → Guest → Prop
  | 0, _, g, g' => g' = g
  | n + 1, pc, g, g' => ∃ i g₁, codeAt m pc = some i ∧ effect be st pc i g = .next g₁ ∧
      Precedes be st m n (pc + 4) g₁ g'

/-- The instructions whose accesses are checked. -/
def accesses (write : Bool) (type : InstructionType) : Bool :=
  if write then isStore type else isLoad type

section Effects

variable {be : BackEnd} {st : Setting} {m : Memory} {pc pc' : Word} {i : Instruction} {g g' : Guest}
  {write : Bool}

private theorem branchTo_ne_fault {target : Word} :
    st.branchTo target g ≠ .depart (.exit (accessFault write) pc') g' := fun same => by
  rcases branchTo_cases same with ⟨-, same⟩ | ⟨-, -, same⟩ | ⟨-, -, same⟩ <;> cases write <;> cases same

private theorem staticBranch_ne_fault {target : Word} :
    st.staticBranch pc target g ≠ .depart (.exit (accessFault write) pc') g' := fun same => by
  unfold Setting.staticBranch at same
  split at same
  · cases write <;> cases same
  · split at same
    · cases write <;> cases same
    · exact branchTo_ne_fault same

private theorem dynamicBranch_ne_fault {target : Word} :
    st.dynamicBranch target g ≠ .depart (.exit (accessFault write) pc') g' := fun same => by
  unfold Setting.dynamicBranch at same
  split at same
  · cases write <;> cases same
  · split at same
    · cases write <;> cases same
    · exact branchTo_ne_fault same

/-- A fault is reported at the pc of its instruction, with the guest as before. -/
theorem effect_fault
    (faults : effect be st pc i g = .depart (.exit (accessFault write) pc') g') :
    accesses write i.type = true ∧ pc' = pc ∧ g' = g ∧ st.accessAllowed g.memory (accessLog2 i.type)
      (accessFlag write) (g.registers.get i.rs1 + i.imm) = false := by
  -- by family: only a load or a store that is refused departs with an access fault
  rcases instruction_family i.type with kind | kind | kind | ⟨reason, kind⟩ | kind | kind | kind | kind
  · rw [effect_load be st pc g kind] at faults
    split at faults
    · cases faults
    · split at faults
      · cases faults
      · next refused =>
        cases write
        · cases faults
          exact ⟨kind, rfl, rfl, Bool.eq_false_iff.mpr refused⟩
        · cases faults
  · rw [effect_store be st pc g kind] at faults
    split at faults
    · cases faults
    · next refused =>
      cases write
      · cases faults
      · cases faults
        exact ⟨kind, rfl, rfl, Bool.eq_false_iff.mpr refused⟩
  · rw [effect_branch be st pc g kind] at faults
    split at faults
    · exact absurd faults staticBranch_ne_fault
    · cases faults
  · rw [effect_exit be st pc g kind] at faults
    revert kind
    cases i.type <;> simp only [exitReason, reduceCtorEq, Option.some.injEq, false_implies] <;>
      rintro rfl <;> cases write <;> cases faults
  · simp only [effect, kind] at faults
    exact absurd faults staticBranch_ne_fault
  · simp only [effect, kind] at faults
    exact absurd faults dynamicBranch_ne_fault
  · simp only [effect, kind] at faults
    cases faults
  · rw [effect_computation be st pc g kind] at faults
    split at faults
    · cases write <;> cases faults
    · split at faults
      · cases faults
      · cases value : be.value i pc g.registers <;> rw [value] at faults <;> cases faults

/-- A block that faults does so at one of its instructions, behind the others. -/
theorem blockEffect_fault (fuel : Nat)
    (faults : blockEffect be st m fuel pc g = .depart (.exit (accessFault write) pc') g') :
    ∃ n i, Precedes be st m n pc g g' ∧ pc' = pc + BitVec.ofNat 64 (4 * n) ∧
      codeAt m pc' = some i ∧ accesses write i.type = true ∧
      st.accessAllowed g'.memory (accessLog2 i.type) (accessFlag write)
        (g'.registers.get i.rs1 + i.imm) = false := by
  -- on the fuel, as `blockEffect` recurses: each instruction that is passed lengthens `Precedes`
  induction fuel generalizing pc g with
  | zero => cases faults
  | succ fuel ih =>
    unfold blockEffect at faults
    cases fetched : codeAt m pc with
    | none =>
      simp only [fetched] at faults
      cases write <;> cases faults
    | some i =>
      simp only [fetched] at faults
      cases outcome : effect be st pc i g with
      | fault =>
        simp only [outcome] at faults
        cases faults
      | depart d guest =>
        simp only [outcome] at faults
        rw [faults] at outcome
        obtain ⟨kind, rfl, rfl, refused⟩ := effect_fault outcome
        -- a single-step block ends behind its first instruction, which is no fault
        exact ⟨0, i, rfl, by simp, fetched, kind, refused⟩
      | next guest =>
        simp only [outcome] at faults
        split at faults
        · cases write <;> cases faults
        · obtain ⟨n, i', precedes, at_pc, rest⟩ := ih faults
          refine ⟨n + 1, i', ⟨i, guest, fetched, outcome, precedes⟩, ?_, rest⟩
          rw [at_pc, add_four]

end Effects

/-! ### The interpreter's try -/

/-- What the interpreter makes of a load or store: the access, once, with the pc behind the
instruction, or a report of it with everything else as it was. -/
inductive Retried (vm : VmState) (i : Instruction) : Bool → VmState → Prop
  | loaded {n : Nat} {v : Word} (width : Interpreter.loadWidth i.type = some n)
      (read : vm.memory.readT n (vm.cpu.get i.rs1 + i.imm) MemoryFlags.read = some v) :
      Retried vm i true { vm with
        cpu := (vm.cpu.set i.rd (Interpreter.extendRead i.type n v)).set Register.pc (vm.cpu.pc + 4) }
  | stored {n : Nat} {memory : Memory} (width : Interpreter.storeWidth i.type = some n)
      (written : vm.memory.writeT n (vm.cpu.get i.rs1 + i.imm) MemoryFlags.write (vm.cpu.get i.rs2)
        = some memory) :
      Retried vm i true { vm with memory := memory, cpu := vm.cpu.set Register.pc (vm.cpu.pc + 4) }
  | readFault {n : Nat} (width : Interpreter.loadWidth i.type = some n)
      (refused : vm.memory.readT n (vm.cpu.get i.rs1 + i.imm) MemoryFlags.read = none) :
      Retried vm i false
        { vm with exit := ⟨.memoryReadFault, vm.cpu.get i.rs1 + i.imm, i.rd⟩ }
  | writeFault {n : Nat} (width : Interpreter.storeWidth i.type = some n)
      (refused : vm.memory.writeT n (vm.cpu.get i.rs1 + i.imm) MemoryFlags.write (vm.cpu.get i.rs2)
        = none) :
      Retried vm i false
        { vm with exit := ⟨.memoryWriteFault, vm.cpu.get i.rs1 + i.imm, i.rs2⟩ }

/-- The interpreter's step at a load or store it fetches. -/
theorem step_retries {vm : VmState} {i : Instruction} {write : Bool}
    (fetch : Interpreter.fetched vm = some i) (kind : accesses write i.type = true) :
    ∃ ok vm', Interpreter.step vm = .ok (ok, vm') ∧ Retried vm i ok vm' := by
  rw [Interpreter.step_of_fetched fetch]
  cases write with
  | false =>
    obtain ⟨n, width⟩ : ∃ n, Interpreter.loadWidth i.type = some n := by
      revert kind
      cases i.type <;> simp [accesses, isLoad, Interpreter.loadWidth]
    -- the load is made, or it faults: there is no third case
    rw [Interpreter.execute_load vm.cpu.pc width]
    cases read : vm.memory.readT n (Interpreter.accessAddress vm i) MemoryFlags.read with
    | some v => exact ⟨true, _, rfl, .loaded width read⟩
    | none => exact ⟨false, _, rfl, .readFault width read⟩
  | true =>
    obtain ⟨n, width⟩ : ∃ n, Interpreter.storeWidth i.type = some n := by
      revert kind
      cases i.type <;> simp [accesses, isStore, Interpreter.storeWidth]
    rw [Interpreter.execute_store vm.cpu.pc width]
    cases written : vm.memory.writeT n (Interpreter.accessAddress vm i) MemoryFlags.write
        (vm.cpu.get i.rs2) with
    | some memory => exact ⟨true, _, rfl, .stored width written⟩
    | none => exact ⟨false, _, rfl, .writeFault width written⟩

/-! ### Runs -/

/-- A start of `Vm::run`: the objects lie where they do not overlap, `x0` is zero, and the
buffer is new or left by earlier runs with memories of this size. -/
structure Starts (build : Build) {arch : Arch} (vm : VmState) (buffer : Buffer arch) : Prop where
  genuine : GenuineBuffer build.singleStep vm.memory.size buffer
  zero : vm.cpu.get Register.zero = 0
  layout : build.layout.Valid (guestOf vm).extent (4 * buffer.maxBlocks.toNat)

theorem Starts.sound {arch : Arch} {be : BackEnd} (refines : arch.Refines be) {build : Build}
    {vm : VmState} {buffer : Buffer arch} (starts : Starts build vm buffer) :
    Sound refines build vm.memory.size (.lookup vm buffer) where
  left := starts.genuine
  right := ⟨starts.layout, starts.zero, rfl, rfl, rfl, rfl⟩

/-- Two halves of a memory lie in the address space. -/
theorem Starts.moderate {arch : Arch} {build : Build} {vm : VmState} {buffer : Buffer arch}
    (starts : Starts build vm buffer) : vm.memory.size.toNat ≤ 2 ^ 63 := by
  have fit := starts.layout.memory_fit
  have extent : (guestOf vm).extent = 2 * vm.memory.permissionsOffset := rfl
  have inside := vm.memory.size_le_permissionsOffset
  omega

theorem aligned_add {pc : Word} (aligned : pc &&& 3 = 0) (n : Nat) :
    (pc + BitVec.ofNat 64 (4 * n)) &&& 3 = 0 := by
  have multiple : pc.toNat % 2 ^ 2 = 0 := (and_mask_eq_zero pc (by decide)).mp aligned
  refine (and_mask_eq_zero _ (k := 2) (by decide)).mpr ?_
  rw [BitVec.toNat_add, BitVec.toNat_ofNat]
  omega

theorem fetched_of_codeAt {vm : VmState} (aligned : vm.cpu.pc &&& 3 = 0) :
    Interpreter.fetched vm = codeAt vm.memory vm.cpu.pc := by
  unfold Interpreter.fetched codeAt
  rw [if_neg (fun misaligned => misaligned aligned)]

/-- The interpreter retries the instruction `i` that generated code handed over in the state
`vm`, and the run goes on or ends as it says. -/
def RetriedIn (arch : Arch) (build : Build) (buffer : Buffer arch) (vm : VmState) (i : Instruction) :
    Prop :=
  ∃ ok vm', Interpreter.step vm = .ok (ok, vm') ∧ Retried vm i ok vm' ∧
    Next arch build (.fallBack vm buffer) (if ok then .lookup vm' buffer else .stopped vm' buffer)

/-- The code of `block`, entered in the host state `s`, has returned in `s'` with a fault: the
guest is the one behind the instructions before the faulting one, which the run loop hands
over to the interpreter. -/
def FaultsBehind (host : Host) (build : Build) (exit : Exit) (buffer : Buffer host.arch)
    (block : CompiledBlock host.arch.Code) (s s' : host.arch.State) (write : Bool)
    (i : Instruction) : Prop :=
  let pc := host.arch.exitPc s'
  (∃ n, Precedes host.backEnd (build.setting buffer) block.memory n block.pc (host.arch.guest s)
      (host.arch.guest s') ∧ pc = block.pc + BitVec.ofNat 64 (4 * n)) ∧
    codeAt block.memory pc = some i ∧ accesses write i.type = true ∧
    (build.setting buffer).accessAllowed (host.arch.guest s').memory (accessLog2 i.type)
      (accessFlag write) ((host.arch.guest s').registers.get i.rs1 + i.imm) = false ∧
    Next host.arch build (.inside exit buffer block s)
      (.fallBack ((host.arch.guest s').toVm pc exit) buffer)

/-- A fault hands the state before the access over to the interpreter, which makes it once or
reports it, provided it still finds the instruction that was compiled. -/
theorem fault_retriedOnce (host : Host) (build : Build) {vm : VmState} {exit : Exit}
    {buffer₀ buffer : Buffer host.arch} {block : CompiledBlock host.arch.Code}
    {s s' : host.arch.State} {write : Bool} (starts : Starts build vm buffer₀)
    (run : Runs host.arch build (.lookup vm buffer₀) (.inside exit buffer block s))
    (ran : host.arch.run (build.env buffer) block.code s = some (none, s'))
    (reason : host.arch.exitReason s' = (accessFault write).code) :
    ∃ i, FaultsBehind host build exit buffer block s s' write i ∧
      (codeAt (host.arch.guest s').memory (host.arch.exitPc s') = some i →
        RetriedIn host.arch build buffer
          ((host.arch.guest s').toVm (host.arch.exitPc s') exit) i) := by
  have sound := (starts.sound host.refines).run run
  obtain ⟨reason', outcome, code, -⟩ := sound.returned ran
  -- the code the host reads back names one departure only
  cases ArchExitReason.code_injective (code.symm.trans reason)
  obtain ⟨n, i, precedes, at_pc, compiled, kind, refused⟩ := blockEffect_fault _ outcome
  have falls : (accessFault write).fallsBack = true := by cases write <;> rfl
  refine ⟨i, ⟨⟨n, precedes, at_pc⟩, compiled, kind, refused, .fallsBack _ falls ran reason⟩,
    fun intact => ?_⟩
  let vm' := (host.arch.guest s').toVm (host.arch.exitPc s') exit
  have here : vm'.cpu.pc = host.arch.exitPc s' := Guest.pc_toVm _ _ _
  have aligned : vm'.cpu.pc &&& 3 = 0 := by
    rw [here, at_pc]
    exact aligned_add sound.2.2.admitted.1 n
  -- here the hypothesis is used: the bytes at the pc are still those that were compiled
  have fetch : Interpreter.fetched vm' = some i := by
    rw [fetched_of_codeAt aligned, here]
    exact intact
  obtain ⟨ok, vm'', stepped, retried⟩ := step_retries fetch kind
  refine ⟨ok, vm'', stepped, retried, ?_⟩
  cases ok with
  | true => exact .resumed stepped
  | false => exact .refused stepped

/-! ### A program that overwrites its next instruction -/

namespace Overwrite

theorem size_lt : (16 : Word).toNat + 7 < 2 ^ 64 := by decide

theorem capacity_le : 2 ^ 20 ≤ 2 ^ 32 := by decide

/-- `sw x1, 4(x0)` in front of `lh x2, 1(x0)`, whose address is misaligned. -/
def memory : Memory := Memory.ofImage 16 size_lt
  [0x23, 0x22, 0x10, 0x00, 0x03, 0x11, 0x10, 0x00]
  (MemoryFlags.read ||| MemoryFlags.write ||| MemoryFlags.execute)

def vm (x1 : Word) : VmState := ⟨memory, ⟨fun r => if r = 1 then x1 else 0⟩, {}⟩

def host : Host := .x64 (fun _ => 1) fun _ => by decide

def build : Build := ⟨⟨0x1000, 0x1000000000000, 0x1000000, 0x4000000000000⟩, false⟩

def buffer : Buffer host.arch := CodeBuffer.create {} (2 ^ 20) capacity_le 16

/-- The guest at the load. -/
def stored (x1 : Word) : Guest := (guestOf (vm x1)).storeBytes 4 2 x1

theorem starts (x1 : Word) : Starts build (vm x1) buffer where
  genuine := genuine_create _ _ _ _ _
  zero := rfl
  layout := by
    have extent : (guestOf (vm x1)).extent = 2 * memory.permissionsOffset := rfl
    rw [extent]
    constructor <;> decide

theorem codeAt_store : codeAt memory 0 = some (.ofWord 0x00102223) := by decide

theorem codeAt_load : codeAt memory (0 + 4) = some (.ofWord 0x00101103) := by decide

theorem blockFuel_memory : blockFuel memory = 6 := by decide

theorem effect_sw (x1 : Word) (st : Setting) (flags : st.flags = {}) :
    effect host.backEnd st 0 (.ofWord 0x00102223) (guestOf (vm x1)) = .next (stored x1) := by
  have accepted : st.accessAllowed memory 2 MemoryFlags.write 4 = true := by
    unfold Setting.accessAllowed
    rw [flags]
    decide
  rw [effect_store _ _ _ _ (by decide)]
  exact if_pos accepted

theorem effect_lh (x1 : Word) (st : Setting) :
    effect host.backEnd st (0 + 4) (.ofWord 0x00101103) (stored x1)
      = .depart (.exit .memoryReadFault 4) (stored x1) := by
  have refused (m : Memory) : st.accessAllowed m 1 MemoryFlags.read 1 = false := rfl
  rw [effect_load _ _ _ _ (by decide), if_neg (by decide)]
  exact if_neg (Bool.eq_false_iff.mp (refused _))

/-- The store is made, and the load is left to the interpreter. -/
theorem outcome (x1 : Word) (st : Setting) (flags : st.flags = {}) (running : st.singleStep = false) :
    blockEffect host.backEnd st memory (blockFuel memory) 0 (guestOf (vm x1))
      = .depart (.exit .memoryReadFault 4) (stored x1) := by
  rw [blockFuel_memory]
  -- the store passes control on, the load departs
  simp only [blockEffect, codeAt_store, effect_sw x1 st flags, running, codeAt_load, effect_lh,
    Bool.false_eq_true, if_false]

/-- The executor compiles the block, enters it, and comes back with the fault. -/
theorem enters (x1 : Word) : ∃ (buffer' : Buffer host.arch) (block : CompiledBlock host.arch.Code)
    (s s' : host.arch.State),
    Next host.arch build (.lookup (vm x1) buffer) (.compile (vm x1) buffer) ∧
      Next host.arch build (.compile (vm x1) buffer) (.inside {} buffer' block s) ∧
      block.memory = memory ∧ block.pc = 0 ∧ host.arch.guest s = guestOf (vm x1) ∧
      buffer'.flags = {} ∧ buffer'.maxBlocks = 4 ∧
      host.arch.run (build.env buffer') block.code s = some (none, s') ∧
      host.arch.exitReason s' = ArchExitReason.memoryReadFault.code ∧ host.arch.exitPc s' = 4 ∧
      host.arch.guest s' = stored x1 := by
  obtain ⟨code, generated⟩ : ∃ code,
      host.arch.generateBlockCode {} 4 memory false 0 = .ok code := ⟨_, rfl⟩
  have start := (starts x1).sound host.refines
  obtain ⟨-, buffer', s, miss, compiled, -, -, before, flags, limit⟩ :=
    start.enters (fun _ => (0 : Word)) (show buffer.Admits 0 by decide) rfl generated
      (show CodeBuffer.alignedOffset 16 + 1 ≤ 2 ^ 20 by decide)
  -- what the code does is read off the refinement, not off its host instructions
  obtain ⟨s', ran, reason, at_pc, guest⟩ := ((start.next miss).next compiled).exits (by
    rw [before]
    exact outcome x1 (build.setting buffer') flags rfl)
  exact ⟨buffer', _, s, s', miss, compiled, rfl, rfl, before, flags, limit, ran, reason, at_pc, guest⟩

end Overwrite

/-- With `ecall` stored over the load the interpreter neither makes the access nor reports it. -/
theorem fault_overwritten : ¬∀ (host : Host) (build : Build) (vm : VmState) (exit : Exit)
    (buffer₀ buffer : Buffer host.arch) (block : CompiledBlock host.arch.Code)
    (s s' : host.arch.State) (write : Bool), Starts build vm buffer₀ →
    Runs host.arch build (.lookup vm buffer₀) (.inside exit buffer block s) →
    host.arch.run (build.env buffer) block.code s = some (none, s') →
    host.arch.exitReason s' = (accessFault write).code →
    ∃ i, FaultsBehind host build exit buffer block s s' write i ∧
      RetriedIn host.arch build buffer
        ((host.arch.guest s').toVm (host.arch.exitPc s') exit) i := fun claim => by
  obtain ⟨buffer', block, s, s', miss, compiled, -, -, -, -, -, ran, reason, at_pc, guest⟩ :=
    Overwrite.enters 0x73
  have run := (Relation.ReflTransGen.single miss).tail compiled
  obtain ⟨i, -, ok, vm', stepped, retried, -⟩ :=
    claim _ _ _ _ _ _ _ _ _ false (Overwrite.starts 0x73) run ran reason
  rw [guest, at_pc] at stepped
  -- the interpreter decodes the word the store has left there
  have ecall : ∃ vm', Interpreter.step ((Overwrite.stored 0x73).toVm 4 {}) = .ok (false, vm') ∧
      vm'.exit.reason = .ecall := ⟨_, rfl, rfl⟩
  obtain ⟨vm'', stepped', reported⟩ := ecall
  cases stepped.symm.trans stepped'
  cases retried with
  | readFault => cases reported
  | writeFault => cases reported

/-- The program that stores the word of the load again. -/
theorem fault_retriedOnce_sameWord : ∃ (host : Host) (build : Build) (exit : Exit)
    (buffer : Buffer host.arch) (block : CompiledBlock host.arch.Code) (s s' : host.arch.State) (i : Instruction),
    FaultsBehind host build exit buffer block s s' false i ∧
      RetriedIn host.arch build buffer ((host.arch.guest s').toVm (host.arch.exitPc s') exit) i := by
  obtain ⟨buffer', block, s, s', miss, entered, compiled, -, -, -, -, ran, reason, at_pc, guest⟩ :=
    Overwrite.enters 0x00101103
  have run := (Relation.ReflTransGen.single miss).tail entered
  have reason' : Overwrite.host.arch.exitReason s' = (accessFault false).code := reason
  obtain ⟨i, faults, retried⟩ := fault_retriedOnce Overwrite.host Overwrite.build
    (Overwrite.starts 0x00101103) run ran reason'
  refine ⟨_, _, _, _, _, s, s', i, faults, retried ?_⟩
  have same : codeAt (Overwrite.stored 0x00101103).memory 4 = codeAt Overwrite.memory 4 := by decide
  have there := faults.2.1
  rw [at_pc, compiled] at there
  rw [guest, at_pc, same, there]

end Riscv64Emulator.Jit
