import Riscv64Emulator.Jit.Executor
import Riscv64Emulator.Vm.Steps

/-!
# Runs with generated code

What holds at every place of a run: published code was compiled from the address it is
published for, and the host has the executor's objects where generated code expects them.
-/
namespace Riscv64Emulator

namespace Interpreter

/-! ### Steps of the interpreter -/

/-- Where the interpreter goes on behind an instruction it executes. -/
def successor (vm : VmState) (i : Instruction) : Word :=
  match i.type with
  | .jal => vm.cpu.pc + i.imm
  | .jalr => accessAddress vm i &&& ~~~1
  | .beq | .bne | .blt | .bge | .bltu | .bgeu =>
    match branchTaken i.type (vm.cpu.get i.rs1) (vm.cpu.get i.rs2) with
    | .ok true => vm.cpu.pc + i.imm
    | _ => vm.cpu.pc + 4
  | _ => vm.cpu.pc + 4

private theorem successor_sequential {vm : VmState} {i : Instruction}
    (relative : relativeTarget i.type = false) (direct : i.type ≠ .jalr) :
    successor vm i = vm.cpu.pc + 4 := by
  unfold successor
  cases type : i.type <;> first
    | rfl
    | exact absurd type direct
    | exact absurd (type ▸ relative) (by decide)

theorem Retired.sequential {vm vm' : VmState} {i : Instruction} (after : Retired vm i vm')
    (relative : relativeTarget i.type = false) (direct : i.type ≠ .jalr) :
    vm'.cpu.pc = vm.cpu.pc + 4 := by
  cases after with
  | branched kind | jumped kind => exact absurd (relative.symm.trans kind) (by decide)
  | jumpedIndirect kind => exact absurd kind direct
  | computed | unchanged | loaded | stored => exact pc_set _ _

theorem step_successor {vm vm' : VmState} {i : Instruction} (fetch : fetched vm = some i)
    (stepped : step vm = .ok (true, vm')) : vm'.cpu.pc = successor vm i := by
  rw [step_of_fetched fetch] at stepped
  -- the three kinds of transfer set the pc themselves, anything else goes to the next word
  by_cases branch : branches i.type = true
  · obtain ⟨taken, chosen, executed⟩ := execute_branch branch vm vm.cpu.pc
    cases executed.symm.trans stepped
    have goes : successor vm i = if taken then vm.cpu.pc + i.imm else vm.cpu.pc + 4 := by
      unfold successor
      cases type : i.type <;> first
        | exact absurd (type ▸ branch) (by decide)
        | (rw [type] at chosen; cases taken <;> simp only [chosen] <;> rfl)
    rw [goes]
    exact pc_set _ _
  by_cases jal : i.type = .jal
  · cases (execute_jump jal vm vm.cpu.pc).symm.trans stepped
    unfold successor
    rw [jal]
    exact pc_set _ _
  by_cases jalr : i.type = .jalr
  · cases (execute_jumpIndirect jalr vm vm.cpu.pc).symm.trans stepped
    unfold successor
    rw [jalr]
    exact pc_set _ _
  · have relative : relativeTarget i.type = false := by
      revert branch jal
      cases i.type <;> decide
    have after := execute_cases vm i (immediateOf_fetched fetch)
    rw [stepped] at after
    cases after with
    | retired after => rw [after.sequential relative jalr, successor_sequential relative jalr]

end Interpreter

namespace Jit

/-! ### Genuine buffers -/

variable {arch : Arch}

/-- The block was compiled for the buffer, at an address of its table, from a memory of the
given size. -/
structure CompiledBlock.Genuine (singleStep : Bool) (size : Word) (buffer : Buffer arch)
    (block : CompiledBlock arch.Code) : Prop where
  generated : arch.generateBlockCode buffer.flags buffer.maxBlocks block.memory singleStep block.pc
    = .ok block.code
  size : block.memory.size = size
  admitted : buffer.Admits block.pc

/-- Only the flags and the limit of a buffer matter for its blocks. -/
theorem CompiledBlock.Genuine.transfer {singleStep : Bool} {size : Word} {buffer buffer' : Buffer arch}
    {block : CompiledBlock arch.Code} (genuine : block.Genuine singleStep size buffer)
    (flags : buffer'.flags = buffer.flags) (maxBlocks : buffer'.maxBlocks = buffer.maxBlocks) :
    block.Genuine singleStep size buffer' where
  generated := by
    rw [flags, maxBlocks]
    exact genuine.generated
  size := genuine.size
  admitted := by
    unfold CodeBuffer.Admits
    rw [maxBlocks]
    exact genuine.admitted

/-- Every published block is genuine and was compiled from the address it is published for. -/
structure GenuineBuffer (singleStep : Bool) (size : Word) (buffer : Buffer arch) : Prop where
  published : ∀ index < buffer.maxBlocks.toNat, buffer.blockToOffset index ≠ 0 →
    ∃ block, buffer.written (buffer.blockToOffset index) = some (.block block) ∧
      block.pc.toNat = 4 * index ∧ block.Genuine singleStep size buffer
  behind : ∀ offset, buffer.written offset ≠ none → offset.toNat < buffer.nextFreeOffset

/-- A new buffer. -/
theorem genuine_create (singleStep : Bool) (size : Word) (flags : CodeBufferFlags) {bytes : Nat}
    (size_le : bytes ≤ 2 ^ 32) (limit : Word) :
    GenuineBuffer singleStep size (CodeBuffer.create flags bytes size_le limit : Buffer arch) where
  published _ _ published := absurd rfl published
  behind _ written := absurd rfl written

namespace GenuineBuffer

variable {singleStep : Bool} {size : Word} {buffer buffer' : Buffer arch} {length : Nat}
  {code : Written arch.Code} {offset : BitVec 32}

/-- An allocation overwrites nothing. -/
theorem fresh (genuine : GenuineBuffer singleStep size buffer)
    (allocated : CodeBuffer.Allocated buffer buffer' length code offset) : buffer.written offset = none := by
  by_contra taken
  have behind := genuine.behind offset taken
  have start := allocated.start
  have aligned := CodeBuffer.le_alignedOffset buffer.nextFreeOffset
  omega

theorem written_of_allocated (genuine : GenuineBuffer singleStep size buffer)
    (allocated : CodeBuffer.Allocated buffer buffer' length code offset) {o : BitVec 32}
    {w : Written arch.Code} (here : buffer.written o = some w) : buffer'.written o = some w := by
  have other : o ≠ offset := by
    rintro rfl
    rw [genuine.fresh allocated] at here
    cases here
  rw [allocated.written]
  simpa only [other, if_false] using here

theorem behind_of_allocated (genuine : GenuineBuffer singleStep size buffer) (positive : 0 < length)
    (allocated : CodeBuffer.Allocated buffer buffer' length code offset) (o : BitVec 32)
    (taken : buffer'.written o ≠ none) : o.toNat < buffer'.nextFreeOffset := by
  have start := allocated.start
  have next := allocated.next
  have aligned := CodeBuffer.le_alignedOffset buffer.nextFreeOffset
  by_cases new : o = offset
  · subst new
    omega
  · rw [allocated.written] at taken
    have behind := genuine.behind o (by simpa only [new, if_false] using taken)
    omega

/-- The trampoline goes into the buffer like other code. -/
theorem insertStandalone (genuine : GenuineBuffer singleStep size buffer) (positive : 0 < length)
    (done : buffer.insertStandalone length code = .ok (offset, buffer')) :
    GenuineBuffer singleStep size buffer' := by
  have allocated := CodeBuffer.allocated positive done
  refine ⟨fun index inside published => ?_, genuine.behind_of_allocated positive allocated⟩
  rw [allocated.blocks] at published ⊢
  rw [allocated.maxBlocks] at inside
  obtain ⟨block, here, at_pc, genuine'⟩ := genuine.published index inside published
  exact ⟨block, genuine.written_of_allocated allocated here, at_pc,
    genuine'.transfer allocated.flags allocated.maxBlocks⟩

/-- A published block. -/
theorem of_get (genuine : GenuineBuffer singleStep size buffer) {pc : Word}
    (found : buffer.get pc = .ok (some offset)) : ∃ block,
      buffer.written offset = some (.block block) ∧ block.pc = pc ∧
        block.Genuine singleStep size buffer := by
  obtain ⟨rfl, published⟩ := CodeBuffer.get_eq_some found
  have admits := CodeBuffer.admits_of_get found
  obtain ⟨block, here, at_pc, genuine'⟩ := genuine.published _ admits.2 published
  refine ⟨block, here, BitVec.eq_of_toNat_eq ?_, genuine'⟩
  rw [at_pc, ← CodeBuffer.toNat_of_aligned admits.1]

/-- After `insert` a block for the address is published, the new one or an older one. -/
theorem insert (genuine : GenuineBuffer singleStep size buffer) {pc : Word} {memory : Memory}
    {code : arch.Code} (generated : arch.generateBlockCode buffer.flags buffer.maxBlocks memory
      singleStep pc = .ok code) (sized : memory.size = size)
    (done : buffer.insert pc (arch.codeSize code) (.block ⟨code, pc, memory⟩) = .ok (offset, buffer')) :
    GenuineBuffer singleStep size buffer' ∧ buffer'.maxBlocks = buffer.maxBlocks ∧
      buffer'.flags = buffer.flags ∧ ∃ block, buffer'.written offset = some (.block block) ∧
        block.pc = pc ∧ block.Genuine singleStep size buffer' := by
  have positive := arch.codeSize_pos code
  obtain ⟨admits, ⟨rfl, rfl, published⟩ | ⟨-, b₁, allocated, rfl⟩⟩ :=
    CodeBuffer.insert_cases positive done
  · have found : buffer'.get pc = .ok (some (buffer'.blockToOffset (pc.toNat / 4))) := by
      rw [CodeBuffer.get_of_admits admits, if_pos published]
    exact ⟨genuine, rfl, rfl, genuine.of_get found⟩
  · let block : CompiledBlock arch.Code := ⟨code, pc, memory⟩
    have compiled : block.Genuine singleStep size buffer := ⟨generated, sized, admits⟩
    have here : b₁.written offset = some (.block block) := by
      rw [allocated.written]
      exact if_pos rfl
    have behind : ∀ o, b₁.written o ≠ none → o.toNat < b₁.nextFreeOffset :=
      genuine.behind_of_allocated positive allocated
    refine ⟨⟨fun index inside published => ?_, behind⟩, allocated.maxBlocks, allocated.flags,
      block, here, rfl, compiled.transfer allocated.flags allocated.maxBlocks⟩
    dsimp only at inside published ⊢
    rw [allocated.maxBlocks] at inside
    -- the entry that was set, or one whose code the allocation did not touch
    by_cases same : index = pc.toNat / 4
    · rw [if_pos same]
      have at_pc : pc.toNat = 4 * index := by rw [same, ← CodeBuffer.toNat_of_aligned admits.1]
      exact ⟨block, here, at_pc, compiled.transfer allocated.flags allocated.maxBlocks⟩
    · rw [if_neg same, allocated.blocks] at published ⊢
      obtain ⟨old, there, at_pc, genuine'⟩ := genuine.published index inside published
      exact ⟨old, genuine.written_of_allocated allocated there, at_pc,
        genuine'.transfer allocated.flags allocated.maxBlocks⟩

/-- Every published block was compiled from a memory with a property. -/
def CompiledFrom (P : Memory → Prop) (buffer : Buffer arch) : Prop :=
  ∀ index < buffer.maxBlocks.toNat, buffer.blockToOffset index ≠ 0 → ∀ block,
    buffer.written (buffer.blockToOffset index) = some (.block block) → P block.memory

/-- What is inserted is compiled from such a memory, or was there before. -/
theorem insert_compiledFrom (genuine : GenuineBuffer singleStep size buffer) {P : Memory → Prop}
    (current : CompiledFrom P buffer) {pc : Word} {memory : Memory} (holds : P memory) {code : arch.Code}
    (inserted : buffer.insert pc (arch.codeSize code) (.block ⟨code, pc, memory⟩) = .ok (offset, buffer')) :
    CompiledFrom P buffer' ∧ ∀ block, buffer'.written offset = some (.block block) → P block.memory := by
  obtain ⟨admits, ⟨rfl, rfl, published⟩ | ⟨-, b₁, allocated, rfl⟩⟩ :=
    CodeBuffer.insert_cases (arch.codeSize_pos code) inserted
  · exact ⟨current, current _ admits.2 published⟩
  · have here : b₁.written offset = some (.block ⟨code, pc, memory⟩) := by
      rw [allocated.written]
      exact if_pos rfl
    have new : ∀ block, b₁.written offset = some (.block block) → P block.memory := fun block there => by
      cases here.symm.trans there
      exact holds
    refine ⟨fun index inside published block there => ?_, new⟩
    dsimp only at inside published there
    by_cases same : index = pc.toNat / 4
    · rw [if_pos same] at there
      exact new block there
    · -- an allocation overwrites nothing, so the older blocks are still the ones they were
      rw [if_neg same, allocated.blocks] at published there
      rw [allocated.maxBlocks] at inside
      obtain ⟨old, here', -⟩ := genuine.published index inside published
      cases (genuine.written_of_allocated allocated here').symm.trans there
      exact current index inside published block here'

end GenuineBuffer

/-! ### Branches of generated code -/

/-- Control goes on with another block: into its code, or back to the executor's loop. -/
def Departure.goesOn : Departure → Bool
  | .exit reason _ => reason.again
  | .enter _ => true

/-- A departure that goes on is one of `branchTo`, for a target in the table whose low bits
were checked: both for a direct branch, bit 1 for an indirect jump. -/
theorem effect_goesOn {be : BackEnd} {st : Setting} {pc : Word} {i : Instruction} {g g' : Guest}
    {d : Departure} (departs : effect be st pc i g = .depart d g') (goes : d.goesOn = true) :
    ∃ target, st.branchTo target g' = .depart d g' ∧ target.toNat / 4 < st.maxBlockCount.toNat ∧
      (target &&& 3 = 0 ∨
        i.type = .jalr ∧ target = g.registers.get i.rs1 + i.imm ∧ target &&& 2 = 0) := by
  have static : ∀ {target : Word} {guest : Guest}, st.staticBranch pc target guest = .depart d g' →
      ∃ target, st.branchTo target g' = .depart d g' ∧ target.toNat / 4 < st.maxBlockCount.toNat ∧
        (target &&& 3 = 0 ∨
          i.type = .jalr ∧ target = g.registers.get i.rs1 + i.imm ∧ target &&& 2 = 0) := by
    intro target guest branch
    unfold Setting.staticBranch at branch
    split at branch
    · cases branch
      cases goes
    · next aligned =>
      split at branch
      · cases branch
        cases goes
      · next inside =>
        obtain ⟨d', departs⟩ := st.branchTo_departs target guest
        cases departs.symm.trans branch
        exact ⟨target, departs, by omega, .inl (Decidable.not_not.mp aligned)⟩
  -- only branches and jumps go on: the other families fault, stop or are followed by `pc + 4`
  rcases instruction_family i.type with kind | kind | kind | ⟨reason, kind⟩ | kind | kind | kind | kind
  · rw [effect_load be st pc g kind] at departs
    split at departs
    · cases departs
    · split at departs <;> cases departs
      cases goes
  · rw [effect_store be st pc g kind] at departs
    split at departs <;> cases departs
    cases goes
  · rw [effect_branch be st pc g kind] at departs
    split at departs
    · exact static departs
    · cases departs
  · rw [effect_exit be st pc g kind] at departs
    cases departs
    revert kind
    cases i.type <;> simp only [exitReason, reduceCtorEq, Option.some.injEq, false_implies] <;>
      rintro rfl <;> cases goes
  · simp only [effect, kind] at departs
    exact static departs
  -- an indirect jump tests bit 1 of its target alone
  · simp only [effect, kind] at departs
    unfold Setting.dynamicBranch at departs
    split at departs
    · cases departs
      cases goes
    · next aligned =>
      split at departs
      · cases departs
        cases goes
      · next inside =>
        obtain ⟨d', branch⟩ := st.branchTo_departs (g.registers.get i.rs1 + i.imm)
          (g.setRegister i.rd (pc + 4))
        cases branch.symm.trans departs
        exact ⟨_, branch, by omega, .inr ⟨kind, rfl, Decidable.not_not.mp aligned⟩⟩
  · simp only [effect, kind] at departs
    cases departs
  · rw [effect_computation be st pc g kind] at departs
    split at departs
    · cases departs
      cases goes
    · split at departs
      · cases departs
      · cases value : be.value i pc g.registers <;> rw [value] at departs <;> cases departs

/-- What `branchTo` can do. -/
theorem branchTo_cases {st : Setting} {target : Word} {g g' : Guest} {d : Departure}
    (branch : st.branchTo target g = .depart d g') :
    (st.singleStep = true ∧ d = .exit .singleStep target) ∨
      (st.singleStep = false ∧ st.blockToOffset (target.toNat / 4) = 0 ∧
        d = .exit .blockNotGenerated target) ∨
      (st.singleStep = false ∧ st.blockToOffset (target.toNat / 4) ≠ 0 ∧
        d = .enter (st.blockToOffset (target.toNat / 4))) := by
  -- single-stepping, no block at the target, or a block there
  unfold Setting.branchTo at branch
  split at branch
  · next stepping =>
    cases branch
    exact .inl ⟨stepping, rfl⟩
  · next running =>
    have running : st.singleStep = false := by simpa using running
    dsimp only at branch
    split at branch
    · next absent =>
      cases branch
      exact .inr (.inl ⟨running, absent, rfl⟩)
    · next published =>
      cases branch
      exact .inr (.inr ⟨running, published, rfl⟩)

/-- A block is left for the code of a block of the table. -/
theorem blockEffect_enter {be : BackEnd} {st : Setting} {m : Memory} (fuel : Nat) {pc : Word}
    {g g' : Guest} {offset : BitVec 32}
    (departs : blockEffect be st m fuel pc g = .depart (.enter offset) g') :
    ∃ block < st.maxBlockCount.toNat, offset = st.blockToOffset block ∧ offset ≠ 0 := by
  induction fuel generalizing pc g with
  | zero => cases departs
  | succ fuel ih =>
    unfold blockEffect at departs
    split at departs
    · cases departs
    · next i fetched =>
      cases outcome : effect be st pc i g with
      | next guest =>
        simp only [outcome] at departs
        split at departs
        · cases departs
        -- the block goes on behind an ordinary instruction
        · exact ih departs
      | depart d guest =>
        simp only [outcome] at departs
        cases departs
        obtain ⟨target, branch, inside, -⟩ := effect_goesOn outcome rfl
        rcases branchTo_cases branch with ⟨-, same⟩ | ⟨-, -, same⟩ | ⟨-, published, same⟩
        · cases same
        · cases same
        · cases same
          exact ⟨_, inside, rfl, published⟩
      | fault =>
        simp only [outcome] at departs
        cases departs

/-! ### Sound configurations -/

section Sound

variable {be : BackEnd} (refines : arch.Refines be) (build : Build) (size : Word)

/-- The guest's objects are where the environment says, and `x0` is zero. -/
def Build.Serves {arch : Arch} (buffer : Buffer arch) (g : Guest) : Prop :=
  (build.env buffer).Serves (build.setting buffer) size g

/-- The places a run comes to when it starts soundly. -/
def Sound : Config arch → Prop
  | .lookup vm buffer | .compile vm buffer | .fallBack vm buffer =>
    GenuineBuffer build.singleStep size buffer ∧ build.Serves size buffer (guestOf vm)
  | .inside _ buffer block s =>
    GenuineBuffer build.singleStep size buffer ∧
      refines.anchored (build.setting buffer) size (build.env buffer) s ∧
      block.Genuine build.singleStep size buffer
  | .stopped _ _ => True

variable {refines build size}

/-- Only the registers' zero and the size of the memory matter for the guest. -/
theorem Build.Serves.congr {buffer : Buffer arch} {g g' : Guest} (serves : build.Serves size buffer g)
    (zero : g'.registers.get Register.zero = g.registers.get Register.zero)
    (sized : g'.memory.size = g.memory.size) : build.Serves size buffer g' where
  describes := by
    -- what the host maps depends on the size of the memory alone
    have extent : g'.extent = g.extent := by
      unfold Guest.extent Memory.permissionsOffset
      rw [sized]
    unfold Env.Describes
    rw [extent]
    exact serves.describes
  zero := zero.trans serves.zero
  size := sized.trans serves.size
  maxBlocks := rfl
  blocks := rfl
  skip := rfl

/-- Nor does it matter which blocks are published. -/
theorem Build.Serves.transfer {buffer buffer' : Buffer arch} {g : Guest}
    (serves : build.Serves size buffer g) (maxBlocks : buffer'.maxBlocks = buffer.maxBlocks) :
    build.Serves size buffer' g where
  describes := by
    have described := serves.describes
    unfold Env.Describes Build.env at described ⊢
    rwa [maxBlocks]
  zero := serves.zero
  size := serves.size
  maxBlocks := rfl
  blocks := rfl
  skip := rfl

@[simp] theorem Guest.pc_toVm (g : Guest) (pc : Word) (exit : Exit) : (g.toVm pc exit).cpu.pc = pc :=
  Interpreter.pc_set _ _

theorem Build.Serves.toVm {buffer : Buffer arch} {g : Guest} (serves : build.Serves size buffer g)
    (pc : Word) (exit : Exit) : build.Serves size buffer (guestOf (g.toVm pc exit)) :=
  serves.congr (RegisterState.get_zero_set g.registers Register.pc pc) rfl

/-- What the code of a sound place does. -/
theorem Sound.performs {exit : Exit} {buffer : Buffer arch} {block : CompiledBlock arch.Code}
    {s : arch.State} (sound : Sound refines build size (.inside exit buffer block s)) :
    arch.Performs (refines.anchored (build.setting buffer) size (build.env buffer))
      (build.Serves size buffer) (build.env buffer) block.code s
      (blockEffect be (build.setting buffer) block.memory (blockFuel block.memory) block.pc
        (arch.guest s)) := by
  obtain ⟨-, anchored, genuine⟩ := sound
  obtain ⟨generated, rfl, -⟩ := genuine
  have performs := @refines.performs (build.setting buffer)
  exact performs generated rfl anchored

/-- The outcome behind a return of generated code. -/
theorem Sound.returned {exit : Exit} {buffer : Buffer arch} {block : CompiledBlock arch.Code}
    {s s' : arch.State} (sound : Sound refines build size (.inside exit buffer block s))
    (ran : arch.run (build.env buffer) block.code s = some (none, s')) : ∃ reason,
      blockEffect be (build.setting buffer) block.memory (blockFuel block.memory) block.pc
        (arch.guest s) = .depart (.exit reason (arch.exitPc s')) (arch.guest s') ∧
      arch.exitReason s' = reason.code ∧ build.Serves size buffer (arch.guest s') := by
  have performs := sound.performs
  -- the machine returned, so the block neither faulted nor entered another one
  cases outcome : blockEffect be (build.setting buffer) block.memory (blockFuel block.memory)
      block.pc (arch.guest s) with
  | next guest => exact (blockEffect_ne_next _ _ _ _ _ _ _ outcome).elim
  | fault =>
    rw [outcome] at performs
    cases ran.symm.trans performs
  | depart d guest =>
    rw [outcome] at performs
    cases d with
    | exit reason pc =>
      obtain ⟨s'', ran', reason', rfl, rfl, serves⟩ := performs
      cases ran.symm.trans ran'
      exact ⟨reason, rfl, reason', serves⟩
    | enter offset =>
      obtain ⟨s'', ran', -⟩ := performs
      cases ran.symm.trans ran'

/-- Code that returns, with what it reports. -/
theorem Sound.exits {exit : Exit} {buffer : Buffer arch} {block : CompiledBlock arch.Code} {s : arch.State}
    {reason : ArchExitReason} {pc : Word} {g : Guest}
    (sound : Sound refines build size (.inside exit buffer block s))
    (outcome : blockEffect be (build.setting buffer) block.memory (blockFuel block.memory) block.pc
      (arch.guest s) = .depart (.exit reason pc) g) :
    ∃ s', arch.run (build.env buffer) block.code s = some (none, s') ∧ arch.exitReason s' = reason.code ∧
      arch.exitPc s' = pc ∧ arch.guest s' = g := by
  have performs := sound.performs
  rw [outcome] at performs
  obtain ⟨s', ran, code, at_pc, guest, -⟩ := performs
  exact ⟨s', ran, code, at_pc, guest⟩

/-- The outcome behind a jump of generated code to another block. -/
theorem Sound.jumped {exit : Exit} {buffer : Buffer arch} {block : CompiledBlock arch.Code}
    {s s' : arch.State} {offset : BitVec 32}
    (sound : Sound refines build size (.inside exit buffer block s))
    (ran : arch.run (build.env buffer) block.code s
      = some (some (build.layout.codeBase + BitVec.setWidth 64 offset), s')) :
      blockEffect be (build.setting buffer) block.memory (blockFuel block.memory) block.pc
        (arch.guest s) = .depart (.enter offset) (arch.guest s') ∧
      refines.anchored (build.setting buffer) size (build.env buffer) s' := by
  have performs := sound.performs
  -- the machine jumped, so the block neither faulted nor left the code
  cases outcome : blockEffect be (build.setting buffer) block.memory (blockFuel block.memory)
      block.pc (arch.guest s) with
  | next guest => exact (blockEffect_ne_next _ _ _ _ _ _ _ outcome).elim
  | fault =>
    rw [outcome] at performs
    cases ran.symm.trans performs
  | depart d guest =>
    rw [outcome] at performs
    cases d with
    | exit reason pc =>
      obtain ⟨s'', ran', -⟩ := performs
      cases ran.symm.trans ran'
    | enter offset' =>
      obtain ⟨s'', ran', rfl, anchored⟩ := performs
      have both := ran.symm.trans ran'
      simp only [Option.some.injEq, Prod.mk.injEq] at both
      obtain ⟨address, rfl⟩ := both
      exact ⟨by rw [offset_injective address], anchored⟩

/-! ### Every place of a run is sound -/

theorem Sound.next {c c' : Config arch} (sound : Sound refines build size c)
    (next : Next arch build c c') : Sound refines build size c' := by
  cases next with
  | hit leftover found here =>
    obtain ⟨genuine, serves⟩ := sound
    obtain ⟨block, here', -, compiled⟩ := genuine.of_get found
    cases here.symm.trans here'
    exact ⟨genuine, (refines.enter leftover serves).1, compiled⟩
  | miss absent => exact sound
  | compiled leftover generated inserted here =>
    obtain ⟨genuine, serves⟩ := sound
    obtain ⟨genuine', maxBlocks, flags, block, here', -, compiled⟩ :=
      genuine.insert generated serves.size inserted
    cases here.symm.trans here'
    exact ⟨genuine', (refines.enter leftover (serves.transfer maxBlocks)).1, compiled⟩
  -- a block only jumps to a published one, whose code is genuine too
  | chain ran here =>
    obtain ⟨outcome, anchored⟩ := sound.jumped ran
    obtain ⟨index, inside, rfl, published⟩ := blockEffect_enter _ outcome
    obtain ⟨block, here', -, compiled⟩ := sound.1.published index inside published
    cases here.symm.trans here'
    exact ⟨sound.1, anchored, compiled⟩
  -- what a returning block leaves behind can be looked up again
  | again reason kind ran code =>
    obtain ⟨-, -, -, serves⟩ := sound.returned ran
    exact ⟨sound.1, serves.toVm _ _⟩
  | fallsBack reason kind ran code =>
    obtain ⟨-, -, -, serves⟩ := sound.returned ran
    exact ⟨sound.1, serves.toVm _ _⟩
  | leaves => trivial
  | resumed stepped =>
    obtain ⟨zero, sized⟩ := Interpreter.step_keeps stepped
    exact ⟨sound.1, sound.2.congr zero sized⟩
  | refused => trivial

theorem Sound.run {c c' : Config arch} (sound : Sound refines build size c)
    (run : Runs arch build c c') : Sound refines build size c' := by
  induction run with
  | refl => exact sound
  | tail _ next ih => exact ih.next next

/-- Where a block is not there yet, and there is code for it and room, the executor compiles it and enters
it. -/
theorem Sound.enters {vm : VmState} {buffer : Buffer arch} {code : arch.Code} (leftover : arch.Leftover)
    (sound : Sound refines build size (.lookup vm buffer)) (admits : buffer.Admits vm.cpu.pc)
    (absent : buffer.blockToOffset (vm.cpu.pc.toNat / 4) = 0)
    (generated : arch.generateBlockCode buffer.flags buffer.maxBlocks vm.memory build.singleStep vm.cpu.pc
      = .ok code)
    (fits : CodeBuffer.alignedOffset buffer.nextFreeOffset + arch.codeSize code ≤ buffer.size) :
    ∃ offset buffer' s,
      Next arch build (.lookup vm buffer) (.compile vm buffer) ∧
      Next arch build (.compile vm buffer) (.inside vm.exit buffer' ⟨code, vm.cpu.pc, vm.memory⟩ s) ∧
      buffer.insert vm.cpu.pc (arch.codeSize code) (.block ⟨code, vm.cpu.pc, vm.memory⟩)
        = .ok (offset, buffer') ∧
      buffer'.written offset = some (.block ⟨code, vm.cpu.pc, vm.memory⟩) ∧ arch.guest s = guestOf vm ∧
      buffer'.flags = buffer.flags ∧ buffer'.maxBlocks = buffer.maxBlocks := by
  -- no block is found, so the one generated now is inserted and entered
  have unpublished := CodeBuffer.get_of_absent admits absent
  obtain ⟨buffer', inserted, here⟩ := buffer.exists_insert (arch.codeSize code)
    (.block (⟨code, vm.cpu.pc, vm.memory⟩ : CompiledBlock arch.Code)) admits absent fits
  obtain ⟨-, maxBlocks, flags, -⟩ := sound.left.insert generated sound.right.size inserted
  exact ⟨_, buffer', _, .miss unpublished, .compiled leftover generated inserted here, inserted, here,
    (refines.enter leftover (sound.right.transfer maxBlocks)).2, flags, maxBlocks⟩

end Sound

end Jit

end Riscv64Emulator
