import Riscv64Emulator.Jit.CallProgress
import Riscv64Emulator.Jit.SharedRuns

/-!
# Threads with one code buffer

The `Vm`s of `SharedRuns` with the calls of the code buffer taken apart: an executor puts its
trampoline into the buffer while others run, a lookup has no mutex, and an insertion copies its code byte
by byte and publishes it at the end. The code of a block is one step, since it loads from the table
once, where it leaves. What a thread stores is seen by the others at once.
-/
namespace Riscv64Emulator.Jit

/-! ### Threads -/

/-- What the assembler makes of the code of an executor. -/
structure Assembler (arch : Arch) where
  bytes : arch.Code → MachineCode
  length_bytes : ∀ code, (bytes code).length = arch.codeSize code
  trampoline : MachineCode
  trampoline_ne_nil : trampoline ≠ []

/-- A place of a thread: in the constructor of its executor, in the insertion of code it has generated, or at
a place of `Vm::run`. -/
inductive Spot (arch : Arch) where
  | starting (vm : VmState)
  | inserting (vm : VmState) (code : arch.Code)
  | running (place : Place arch)

/-- The buffer with the calls that are under way, and what its published code was compiled from. -/
structure SharedCode (arch : Arch) (Thread : Type) where
  calls : SharedBuffer Thread
  blocks : BitVec 32 → Option (CompiledBlock arch.Code)

section Steps

variable {arch : Arch} {Thread : Type}

/-- The place of the run. Until it is entered, a block that is inserted is still to be compiled. -/
def Spot.place : Spot arch → Place arch
  | .starting vm => .lookup vm
  | .inserting vm _ => .compile vm
  | .running place => place

def SharedCode.create {bytes : Nat} (flags : CodeBufferFlags) (size_le : bytes ≤ 2 ^ 32) (limit : Word) :
    SharedCode arch Thread :=
  ⟨.create flags bytes size_le limit, fun _ => none⟩

/-- The buffer as generated code sees it. -/
def SharedCode.view (c : SharedCode arch Thread) : Buffer arch where
  flags := c.calls.buffer.flags
  maxBlocks := c.calls.buffer.maxBlocks
  blockToOffset := c.calls.buffer.blockToOffset
  size := c.calls.buffer.size
  nextFreeOffset := c.calls.buffer.nextFreeOffset
  written offset := (c.blocks offset).map .block
  size_le := c.calls.buffer.size_le

/-- The buffer behind a publication. -/
def SharedCode.published (c : SharedCode arch Thread) (calls : SharedBuffer Thread) (offset : BitVec 32)
    (block : CompiledBlock arch.Code) : SharedCode arch Thread :=
  ⟨calls, Function.update c.blocks offset (some block)⟩

variable [DecidableEq Thread] (assembler : Assembler arch) (build : Build) (t : Thread)

/-- A step of a thread: a step of its call of the buffer, or one outside of calls. -/
inductive ThreadStep : Spot arch × SharedCode arch Thread → Spot arch × SharedCode arch Thread → Prop
  -- the constructor of the executor
  | construct {vm c calls}
      (called : SharedBuffer.Step c.calls (.called t (.insertStandalone assembler.trampoline)) calls) :
      ThreadStep (.starting vm, c) (.starting vm, { c with calls := calls })
  | constructed {vm c calls offset}
      (returned : SharedBuffer.Step c.calls
        (.returned t (.insertStandalone assembler.trampoline) (some offset)) calls) :
      ThreadStep (.starting vm, c) (.running (.lookup vm), { c with calls := calls })
  -- the loop of `Executor::run`, with `generate_code` where `get` finds nothing
  | get {vm c calls} (called : SharedBuffer.Step c.calls (.called t (.get vm.cpu.pc)) calls) :
      ThreadStep (.running (.lookup vm), c) (.running (.lookup vm), { c with calls := calls })
  | hit {vm c calls offset block} (leftover : arch.Leftover)
      (returned : SharedBuffer.Step c.calls (.returned t (.get vm.cpu.pc) (some offset)) calls)
      (here : c.blocks offset = some block) :
      ThreadStep (.running (.lookup vm), c)
        (.running (.inside vm.exit block (arch.enter (build.env c.view) (guestOf vm) leftover)),
          { c with calls := calls })
  | miss {vm c calls} (returned : SharedBuffer.Step c.calls (.returned t (.get vm.cpu.pc) none) calls) :
      ThreadStep (.running (.lookup vm), c) (.running (.compile vm), { c with calls := calls })
  | insert {vm c calls code}
      (generated : arch.generateBlockCode c.view.flags c.view.maxBlocks vm.memory build.singleStep
        vm.cpu.pc = .ok code)
      (called : SharedBuffer.Step c.calls (.called t (.insert vm.cpu.pc (assembler.bytes code))) calls) :
      ThreadStep (.running (.compile vm), c) (.inserting vm code, { c with calls := calls })
  | publish {vm code c calls offset}
      (published : SharedBuffer.Step c.calls (.published t vm.cpu.pc offset) calls) :
      ThreadStep (.inserting vm code, c)
        (.inserting vm code, c.published calls offset ⟨code, vm.cpu.pc, vm.memory⟩)
  | inserted {vm code c calls offset block} (leftover : arch.Leftover)
      (returned : SharedBuffer.Step c.calls
        (.returned t (.insert vm.cpu.pc (assembler.bytes code)) (some offset)) calls)
      (here : c.blocks offset = some block) :
      ThreadStep (.inserting vm code, c)
        (.running (.inside vm.exit block (arch.enter (build.env c.view) (guestOf vm) leftover)),
          { c with calls := calls })
  -- the inside of a call
  | within {spot c e calls} (mine : e.executor = t) (internal : e.internal = true)
      (stepped : SharedBuffer.Step c.calls e calls) : ThreadStep (spot, c) (spot, { c with calls := calls })
  -- the code of a block, and the interpreter's steps of `Vm::run`
  | leave {exit block s c place} (next : Next arch build (.inside exit c.view block s) (place.config c.view)) :
      ThreadStep (.running (.inside exit block s), c) (.running place, c)
  | interpret {vm c place} (next : Next arch build (.fallBack vm c.view) (place.config c.view)) :
      ThreadStep (.running (.fallBack vm), c) (.running place, c)

/-- The call of the buffer a thread is in at a place. -/
def Spot.Calls : Spot arch → Option Call → Prop
  | .starting _, call => call = none ∨ call = some (.insertStandalone assembler.trampoline)
  | .inserting vm code, call => call = some (.insert vm.cpu.pc (assembler.bytes code))
  | .running (.lookup vm), call => call = none ∨ call = some (.get vm.cpu.pc)
  | .running _, call => call = none

/-- What of a place is in the buffer, or is for it. -/
def Spot.Backed (singleStep : Bool) (c : SharedCode arch Thread) : Spot arch → Prop
  | .inserting vm code =>
    arch.generateBlockCode c.view.flags c.view.maxBlocks vm.memory singleStep vm.cpu.pc = .ok code
  | .running (.inside _ block _) => ∃ offset, c.blocks offset = some block
  | _ => True

/-- The places between two steps of the interpreter, in the order they are passed. -/
def Spot.rank : Spot arch → Nat
  | .starting _ => 9
  | .running (.lookup _) => 8
  | .running (.compile _) => 6
  | .inserting _ _ => 5
  | .running (.inside ..) => 4
  | .running (.fallBack _) => 2
  | .running (.stopped _) => 0

/-- The threads in the constructors of their executors, with a new buffer. -/
def entered {bytes : Nat} (vm : Thread → VmState) (flags : CodeBufferFlags) (size_le : bytes ≤ 2 ^ 32)
    (limit : Word) : Interference.System Thread (Spot arch) (SharedCode arch Thread) :=
  ⟨fun t => .starting (vm t), .create flags size_le limit⟩

/-- The steps of all threads. -/
def threadActs (layouts : Thread → Layout) (singleStep : Bool) (t : Thread) :
    Spot arch × SharedCode arch Thread → Spot arch × SharedCode arch Thread → Prop :=
  ThreadStep assembler ⟨layouts t, singleStep⟩ t

/-- Where a thread is in a call. -/
theorem Spot.calls_cases {assembler : Assembler arch} {spot : Spot arch} {call : Call}
    (calls : spot.Calls assembler (some call)) :
    (∃ vm, spot = .starting vm ∧ call = .insertStandalone assembler.trampoline) ∨
      (∃ vm code, spot = .inserting vm code ∧ call = .insert vm.cpu.pc (assembler.bytes code)) ∨
      ∃ vm, spot = .running (.lookup vm) ∧ call = .get vm.cpu.pc := by
  cases spot with
  | starting vm =>
    rcases calls with none | same
    · cases none
    · exact .inl ⟨vm, rfl, Option.some.inj same⟩
  | inserting vm code => exact .inr (.inl ⟨vm, code, rfl, Option.some.inj calls⟩)
  | running place =>
    cases place with
    | lookup vm =>
      rcases calls with none | same
      · cases none
      · exact .inr (.inr ⟨vm, rfl, Option.some.inj same⟩)
    | compile | inside | fallBack | stopped => cases calls

/-- Calls lie between the places of a run. -/
theorem Spot.rank_running (place : Place arch) (buffer : Buffer arch) :
    (Spot.running place).rank = 2 * (place.config buffer).rank := by
  cases place <;> rfl

theorem Spot.le_rank (spot : Spot arch) (buffer : Buffer arch) :
    2 * (spot.place.config buffer).rank ≤ spot.rank + 1 := by
  cases spot with
  | starting vm => exact (show 2 * 4 ≤ 9 + 1 by decide)
  | inserting vm code => exact (show 2 * 3 ≤ 5 + 1 by decide)
  | running place =>
    rw [rank_running place buffer]
    exact Nat.le_succ _

end Steps

/-! ### The shared code -/

section Shared

variable {arch : Arch} {Thread : Type} {assembler : Assembler arch} {singleStep : Bool} {size : Word}
  {c : SharedCode arch Thread} {calls : SharedBuffer Thread} {t : Thread}

/-- What the table leads to is whole and was compiled for its block. -/
structure SharedCode.Sound (assembler : Assembler arch) (singleStep : Bool) (size : Word)
    (c : SharedCode arch Thread) : Prop where
  inv : c.calls.Inv
  live : c.calls.Live
  genuine : GenuineBuffer singleStep size c.view
  complete : ∀ index < c.calls.buffer.maxBlocks.toNat, c.calls.buffer.blockToOffset index ≠ 0 → ∀ block,
    c.blocks (c.calls.buffer.blockToOffset index) = some block →
      c.calls.first index = some (assembler.bytes block.code)
  fresh : ∀ t call offset, c.calls.phase t = .allocated call offset → c.blocks offset = none
  listed : ∀ offset block, c.blocks offset = some block → offset ≠ 0 ∧
    ∃ index < c.calls.buffer.maxBlocks.toNat, c.calls.buffer.blockToOffset index = offset

theorem SharedCode.sound_create (assembler : Assembler arch) (singleStep : Bool) (size : Word)
    (flags : CodeBufferFlags) {bytes : Nat} (size_le : bytes ≤ 2 ^ 32) (limit : Word) :
    (SharedCode.create flags size_le limit : SharedCode arch Thread).Sound assembler singleStep size where
  inv := SharedBuffer.inv_create flags size_le limit
  live := SharedBuffer.live_create flags size_le limit
  genuine := genuine_create singleStep size flags size_le limit
  complete _ _ published := absurd rfl published
  fresh _ _ _ none := by cases none
  listed _ _ none := by cases none

/-- Nothing that can be entered is still being copied. -/
theorem SharedCode.Sound.whole (sound : c.Sound assembler singleStep size) {index : Nat}
    (inside : index < c.calls.buffer.maxBlocks.toNat) (published : c.calls.buffer.blockToOffset index ≠ 0) :
    ∃ block, c.blocks (c.calls.buffer.blockToOffset index) = some block ∧ block.pc.toNat = 4 * index ∧
      c.calls.Holds ⟨(c.calls.buffer.blockToOffset index).toNat, assembler.bytes block.code⟩ := by
  obtain ⟨block, written, at_pc, -⟩ := sound.genuine.published index inside published
  obtain ⟨block', here, same⟩ := Option.map_eq_some_iff.mp written
  cases same
  obtain ⟨code, first, -, settled⟩ := sound.inv.published index published
  cases first.symm.trans (sound.complete index inside published block here)
  exact ⟨block, here, at_pc, settled.2⟩

/-- All that was published is whole. -/
theorem SharedCode.Sound.holds (sound : c.Sound assembler singleStep size) {offset : BitVec 32}
    {block : CompiledBlock arch.Code} (here : c.blocks offset = some block) :
    c.calls.Holds ⟨offset.toNat, assembler.bytes block.code⟩ := by
  obtain ⟨present, index, inside, rfl⟩ := sound.listed offset block here
  obtain ⟨block', here', -, holds⟩ := sound.whole inside present
  cases here'.symm.trans here
  exact holds

/-- A block of the buffer: code of a program with all its bytes in place. -/
structure SharedCode.Whole (assembler : Assembler arch) (vm : VmState) (c : SharedCode arch Thread)
    (offset : BitVec 32) (block : CompiledBlock arch.Code) : Prop where
  here : c.blocks offset = some block
  code : HoldsCode vm block.memory
  bytes : c.calls.Holds ⟨offset.toNat, assembler.bytes block.code⟩

/-- Where a copy ends, nothing has been published yet. -/
theorem SharedCode.Sound.none_of_copying (sound : c.Sound assembler singleStep size) {call : Call} {start : Nat}
    {remaining : Finset Nat} (here : c.calls.phase t = .copying call start remaining) :
    c.blocks (BitVec.ofNat 32 start) = none := by
  by_contra taken
  have phase := sound.inv.phases t
  rw [here] at phase
  obtain ⟨⟨nonempty, -⟩, aligned, fits, -⟩ := phase
  have positive := List.length_pos_of_ne_nil nonempty
  have below : (BitVec.ofNat 32 start).toNat < c.calls.buffer.nextFreeOffset :=
    sound.genuine.behind _ fun none => taken (by simpa [SharedCode.view] using none)
  have behind := CodeBuffer.le_alignedOffset c.calls.buffer.nextFreeOffset
  have bound := c.calls.buffer.size_le
  rw [BitVec.toNat_ofNat, Nat.mod_eq_of_lt (by omega)] at below
  omega

variable [DecidableEq Thread]

/-- The steps of a call that leave the table as it is. -/
theorem SharedCode.Sound.internal {e : Event Thread} (sound : c.Sound assembler singleStep size)
    (step : SharedBuffer.Step c.calls e calls)
    (kept : ∀ t guestAddress offset, e ≠ .published t guestAddress offset) :
    SharedCode.Sound assembler singleStep size { c with calls := calls } := by
  have ⟨inv, live, genuine, complete, fresh, listed⟩ := sound
  have table := step.table kept
  have later := inv.nextFreeOffset_le step
  refine ⟨inv.step step, live.step step, ⟨fun index inside published => ?_, fun offset written => ?_⟩,
    fun index inside published block here => ?_, fun t call offset here => ?_, fun offset block here => ?_⟩
  · -- an entry leads where it led before
    replace inside : index < calls.buffer.maxBlocks.toNat := inside
    replace published : calls.buffer.blockToOffset index ≠ 0 := published
    rw [step.maxBlocks] at inside
    rw [table] at published
    obtain ⟨block, written, at_pc, compiled⟩ := genuine.published index inside published
    refine ⟨block, ?_, at_pc, compiled.transfer step.flags step.maxBlocks⟩
    show (c.blocks (calls.buffer.blockToOffset index)).map _ = _
    rw [table]
    exact written
  · -- the next free offset only grows
    exact Nat.lt_of_lt_of_le (genuine.behind offset written) later
  · -- the bytes of a block stay
    dsimp only at inside published here
    rw [step.maxBlocks] at inside
    rw [table] at published here
    exact step.first (complete index inside published block here)
  · -- an offset that is allocated in this step was not written before
    dsimp only at here ⊢
    by_cases mine : t = e.executor
    · cases step with
      | @advance t₀ call' start offset' before truncated =>
        obtain rfl : t = t₀ := mine
        rw [SharedBuffer.setPhase_self] at here
        cases here
        rw [truncated]
        exact sound.none_of_copying before
      | @call t₀ | @look t₀ | @lock t₀ | @found t₀ | @missed t₀ | @lockStandalone t₀ | @allocate t₀ | @copy t₀
      | @publish t₀ | @keep t₀ | @unlock t₀ | @finish t₀ =>
        obtain rfl : t = t₀ := mine
        rw [SharedBuffer.setPhase_self] at here
        cases here
    · rw [step.other mine] at here
      exact fresh t call offset here
  · -- the table is the same
    dsimp only
    rw [table, step.maxBlocks]
    exact listed offset block here

/-- A publication takes a new offset. -/
theorem SharedCode.Sound.keeps_block (sound : c.Sound assembler singleStep size) {pc : Word}
    {offset o : BitVec 32} {block old : CompiledBlock arch.Code}
    (step : SharedBuffer.Step c.calls (.published t pc offset) calls) (here : c.blocks o = some old) :
    (c.published calls offset block).blocks o = some old := by
  cases step with
  | publish before =>
    refine (Function.update_of_ne ?_ _ _).trans here
    rintro rfl
    cases (sound.fresh t _ o before).symm.trans here

/-- An entry of the table behind a publication is the new one, or was there before with the same block. -/
theorem SharedCode.Sound.published_cases (sound : c.Sound assembler singleStep size) {pc : Word}
    {offset : BitVec 32} (block : CompiledBlock arch.Code)
    (step : SharedBuffer.Step c.calls (.published t pc offset) calls) {index : Nat}
    (inside : index < c.calls.buffer.maxBlocks.toNat) (published : calls.buffer.blockToOffset index ≠ 0) :
    (index = pc.toNat / 4 ∧
        (c.published calls offset block).blocks (calls.buffer.blockToOffset index) = some block) ∨
      (index ≠ pc.toNat / 4 ∧ c.calls.buffer.blockToOffset index ≠ 0 ∧
        (c.published calls offset block).blocks (calls.buffer.blockToOffset index)
          = c.blocks (c.calls.buffer.blockToOffset index)) := by
  cases step with
  | @publish _ _ code _ before =>
    dsimp only [SharedBuffer.setPhase] at published ⊢
    by_cases same : index = pc.toNat / 4
    · -- the entry just written
      rw [if_pos same]
      exact .inl ⟨same, Function.update_self _ _ _⟩
    · -- any other block was published before and keeps its place
      rw [if_neg same] at published ⊢
      obtain ⟨old, here, -⟩ := sound.whole inside published
      exact .inr ⟨same, published, (sound.keeps_block (.publish before) here).trans here.symm⟩

/-- A block that is published is whole. -/
theorem SharedCode.Sound.publish (sound : c.Sound assembler singleStep size) {vm : VmState} {code : arch.Code}
    {offset : BitVec 32} (call : (c.calls.phase t).call = some (.insert vm.cpu.pc (assembler.bytes code)))
    (generated : arch.generateBlockCode c.view.flags c.view.maxBlocks vm.memory singleStep vm.cpu.pc = .ok code)
    (sized : vm.memory.size = size) (step : SharedBuffer.Step c.calls (.published t vm.cpu.pc offset) calls) :
    (c.published calls offset ⟨code, vm.cpu.pc, vm.memory⟩).Sound assembler singleStep size := by
  let block : CompiledBlock arch.Code := ⟨code, vm.cpu.pc, vm.memory⟩
  have cases {index : Nat} (inside : index < c.calls.buffer.maxBlocks.toNat)
      (published : calls.buffer.blockToOffset index ≠ 0) := sound.published_cases block step inside published
  have flags := step.flags
  have maxBlocks := step.maxBlocks
  have inv' := sound.inv.step step
  have live' := sound.live.step step
  have firsts {index : Nat} {code : MachineCode} (first : c.calls.first index = some code) := step.first first
  have others {t' : Thread} (other : t' ≠ t) := step.other other
  cases step with
  | @publish _ _ code' _ before =>
    rw [before] at call
    cases call
    obtain ⟨inv, live, genuine, complete, fresh, listed⟩ := sound
    -- what the thread knew of the offset it allocated
    have phase := inv.phases t
    rw [before] at phase
    obtain ⟨⟨nonempty, first⟩, nonzero, -, stop, -⟩ := phase
    have admitted := (inv.admitted t (.insert vm.cpu.pc (assembler.bytes code)) (by rw [before]; rfl)).1
    have compiled : block.Genuine singleStep size c.view := ⟨generated, sized, admitted⟩
    refine ⟨inv', live', ⟨fun index inside published => ?_, fun o written => ?_⟩,
      fun index inside published old here => ?_, fun t' call o here => ?_, fun o old here => ?_⟩
    · -- every entry leads to a genuine block: the new one, or the one it led to before
      rcases cases inside published with ⟨rfl, here⟩ | ⟨-, published', same⟩
      · exact ⟨block, congrArg (Option.map Written.block) here, CodeBuffer.toNat_of_aligned admitted.1,
          compiled.transfer flags maxBlocks⟩
      · obtain ⟨old, written, at_pc, genuine'⟩ := genuine.published index inside published'
        exact ⟨old, (congrArg (Option.map Written.block) same).trans written, at_pc,
          genuine'.transfer flags maxBlocks⟩
    · -- what is written lies behind the next free offset
      by_cases new : o = offset
      · subst new
        have positive := List.length_pos_of_ne_nil nonempty
        replace stop : o.toNat + (assembler.bytes code).length ≤ c.calls.buffer.nextFreeOffset := stop
        replace positive : 0 < (assembler.bytes code).length := positive
        show o.toNat < c.calls.buffer.nextFreeOffset
        omega
      · refine genuine.behind o fun none => written ?_
        show (Function.update c.blocks offset (some block) o).map _ = _
        rw [Function.update_of_ne new]
        exact none
    · -- every entry's bytes are those of its block
      rcases cases inside published with ⟨rfl, here'⟩ | ⟨-, published', same⟩
      · cases here'.symm.trans here
        exact (first _ _ rfl).2
      · exact firsts (complete index inside published' old (same.symm.trans here))
    · -- only the executor with the mutex has written code it has not published
      by_cases mine : t' = t
      · subst mine
        rw [SharedCode.published, SharedBuffer.setPhase_self] at here
        cases here
      · have free := inv.alone (t := t) (by rw [before]; rfl) mine
        have there : c.calls.phase t' = .allocated call o := (others mine).symm.trans here
        rw [there] at free
        cases free
    · -- every block that is written has an entry
      by_cases new : o = offset
      · exact ⟨new ▸ nonzero, vm.cpu.pc.toNat / 4, admitted.2, (if_pos rfl).trans new.symm⟩
      · -- the entry that is set was empty, so another one leads to the old offset
        have there : c.blocks o = some old := (Function.update_of_ne new _ _).symm.trans here
        obtain ⟨present, index, inside, leads⟩ := listed o old there
        refine ⟨present, index, inside, (if_neg ?_).trans leads⟩
        rintro rfl
        exact present (leads.symm.trans (first _ _ rfl).1)

end Shared

/-! ### What a step does -/

section Steps

variable {arch : Arch} {Thread : Type} {assembler : Assembler arch} {build : Build} {singleStep : Bool}
  {size : Word} {t : Thread} {spot spot' : Spot arch} {c c' : SharedCode arch Thread} {offset : BitVec 32}

/-- What holds of a thread at a place, whatever it runs. -/
structure Spot.Proper (assembler : Assembler arch) (singleStep : Bool) (size : Word) (t : Thread)
    (spot : Spot arch) (c : SharedCode arch Thread) : Prop where
  sound : c.Sound assembler singleStep size
  calls : spot.Calls assembler (c.calls.phase t).call
  backed : spot.Backed singleStep c

/-- The code behind a step: what was published stays. -/
structure SharedCode.Grows (assembler : Assembler arch) (singleStep : Bool) (size : Word)
    (c c' : SharedCode arch Thread) : Prop where
  sound : c'.Sound assembler singleStep size
  flags : c'.view.flags = c.view.flags
  maxBlocks : c'.view.maxBlocks = c.view.maxBlocks
  blocks : ∀ offset block, c.blocks offset = some block → c'.blocks offset = some block

theorem SharedCode.Grows.grown (grows : c.Grows assembler singleStep size c') :
    Grown singleStep size c.view c'.view :=
  ⟨grows.flags, grows.maxBlocks, grows.sound.genuine⟩

/-- It stays there when others publish. -/
theorem Spot.Backed.kept (backed : spot.Backed singleStep c)
    (grows : c.Grows assembler singleStep size c') : spot.Backed singleStep c' := by
  cases spot with
  | starting v => trivial
  | inserting v code =>
    unfold Spot.Backed
    rw [grows.flags, grows.maxBlocks]
    exact backed
  | running place =>
    cases place with
    | inside exit block s =>
      obtain ⟨offset, here⟩ := backed
      exact ⟨offset, grows.blocks offset block here⟩
    | lookup | compile | fallBack | stopped => trivial

/-- A block that is entered is one of the buffer. -/
theorem Spot.backed_of_next {place : Place arch} {k : Config arch}
    (next : Next arch build k (place.config c.view)) : (Spot.running place).Backed singleStep c := by
  cases place with
  | inside exit block s =>
    obtain ⟨offset, written⟩ : ∃ offset, c.view.written offset = some (.block block) := by
      cases next with
      | hit _ _ here | compiled _ _ _ here | chain _ here => exact ⟨_, here⟩
    obtain ⟨block', here, same⟩ := Option.map_eq_some_iff.mp written
    cases same
    exact ⟨offset, here⟩
  | lookup | compile | fallBack | stopped => trivial

/-- The offset a call comes back with is still that of its block. -/
theorem SharedCode.Sound.get_of_returning {call : Call} {pc : Word}
    (sound : c.Sound assembler singleStep size) (here : c.calls.phase t = .returning call (some offset))
    (about : call.guestAddress = some pc) : c.view.get pc = .ok (some offset) := by
  have phase := sound.inv.phases t
  rw [here] at phase
  obtain ⟨nonzero, delivers⟩ := phase
  have admits : c.view.Admits pc := by
    have admitted := sound.inv.admitted t call (by rw [here]; rfl)
    cases call with
    | get guestAddress =>
      cases about
      exact admitted
    | insert guestAddress code =>
      cases about
      exact admitted.1
    | insertStandalone code => cases about
  have table : c.view.blockToOffset (pc.toNat / 4) = offset := delivers pc about
  rw [CodeBuffer.get_of_admits admits, table, if_pos nonzero]

/-- There is a block where the table leads to. -/
theorem SharedCode.Sound.block_of_get {pc : Word} (sound : c.Sound assembler singleStep size)
    (got : c.view.get pc = .ok (some offset)) : ∃ block, c.blocks offset = some block := by
  obtain ⟨rfl, published⟩ := CodeBuffer.get_eq_some got
  obtain ⟨block, here, -⟩ := sound.whole (CodeBuffer.admits_of_get got).2 published
  exact ⟨block, here⟩

theorem CodeBuffer.insert_of_get {ρ : Type} {b : CodeBuffer ρ} {guestAddress : Word} {length : Nat} {code : ρ}
    (got : b.get guestAddress = .ok (some offset)) : b.insert guestAddress length code = .ok (offset, b) := by
  unfold CodeBuffer.insert
  rw [if_neg (fun misaligned => misaligned (CodeBuffer.admits_of_get got).1), got]
  rfl

theorem Spot.calls_idle {place : Place arch} {call : Option Call} (none : call = none) :
    (Spot.running place).Calls assembler call := by
  cases place with
  | lookup => exact .inl none
  | _ => exact none

/-- What others publish changes nothing for a thread. -/
theorem Spot.Proper.stable (proper : spot.Proper assembler singleStep size t c)
    (grows : c.Grows assembler singleStep size c') (phase : c'.calls.phase t = c.calls.phase t) :
    spot.Proper assembler singleStep size t c' := by
  obtain ⟨-, calls, backed⟩ := proper
  refine ⟨grows.sound, ?_, backed.kept grows⟩
  rwa [phase]

variable [DecidableEq Thread]

/-- What a step does to what is shared. -/
theorem ThreadStep.shared (step : ThreadStep assembler build t (spot, c) (spot', c')) : c' = c ∨
    (∃ e calls, e.executor = t ∧ (∀ t' guestAddress offset, e ≠ .published t' guestAddress offset) ∧
      SharedBuffer.Step c.calls e calls ∧ c' = { c with calls := calls }) ∨
    ∃ v code calls offset, spot = .inserting v code ∧
      SharedBuffer.Step c.calls (.published t v.cpu.pc offset) calls ∧
      c' = c.published calls offset ⟨code, v.cpu.pc, v.memory⟩ := by
  cases step with
  | construct step | constructed step | get step | hit _ step | miss step | insert _ step | inserted _ step =>
    exact .inr (.inl ⟨_, _, rfl, by rintro _ _ _ ⟨⟩, step, rfl⟩)
  | within mine internal step =>
    refine .inr (.inl ⟨_, _, mine, ?_, step, rfl⟩)
    rintro t' guestAddress offset rfl
    cases internal
  | publish step => exact .inr (.inr ⟨_, _, _, _, rfl, step, rfl⟩)
  | leave | interpret => exact .inl rfl

/-- The others see new blocks, if anything. -/
theorem Spot.Proper.grows (proper : spot.Proper assembler build.singleStep size t c)
    (sized : ∀ v code, spot = .inserting v code → v.memory.size = size)
    (step : ThreadStep assembler build t (spot, c) (spot', c')) :
    c.Grows assembler build.singleStep size c' ∧ ∀ t' ≠ t, c'.calls.phase t' = c.calls.phase t' := by
  obtain ⟨sound, calls, backed⟩ := proper
  rcases step.shared with rfl | ⟨e, calls', mine, kept, stepped, rfl⟩ |
    ⟨v, code, calls', offset, rfl, stepped, rfl⟩
  · exact ⟨⟨sound, rfl, rfl, fun _ _ here => here⟩, fun _ _ => rfl⟩
  · exact ⟨⟨sound.internal stepped kept, stepped.flags, stepped.maxBlocks, fun _ _ here => here⟩,
      fun t' other => stepped.other (mine ▸ other)⟩
  · exact ⟨⟨sound.publish calls backed (sized v code rfl) stepped, stepped.flags, stepped.maxBlocks,
      fun _ _ here => sound.keeps_block stepped here⟩, fun t' other => stepped.other other⟩

/-- A step leads to a proper place. -/
theorem ThreadStep.proper (step : ThreadStep assembler build t (spot, c) (spot', c'))
    (proper : spot.Proper assembler build.singleStep size t c)
    (grows : c.Grows assembler build.singleStep size c') :
    spot'.Proper assembler build.singleStep size t c' := by
  obtain ⟨-, calls, backed⟩ := proper
  cases step with
  -- a call begins
  | construct called =>
    cases called
    exact ⟨grows.sound, .inr (by rw [SharedBuffer.setPhase_self]; rfl), trivial⟩
  | get called =>
    cases called
    exact ⟨grows.sound, .inr (by rw [SharedBuffer.setPhase_self]; rfl), trivial⟩
  | insert generated called =>
    refine ⟨grows.sound, ?_, Spot.Backed.kept generated grows⟩
    cases called
    show Phase.call _ = _
    rw [SharedBuffer.setPhase_self]
    rfl
  -- a call goes on
  | within mine internal stepped =>
    subst mine
    refine ⟨grows.sound, ?_, backed.kept grows⟩
    show Spot.Calls _ _ (Phase.call _)
    rw [stepped.call_eq (fun call same => by rw [same] at internal; cases internal)
      (fun call result same => by rw [same] at internal; cases internal)]
    exact calls
  | publish stepped =>
    have same := stepped.call_eq (by rintro _ ⟨⟩) (by rintro _ _ ⟨⟩)
    exact ⟨grows.sound, same.trans calls, backed.kept grows⟩
  -- a call comes back
  | constructed returned | miss returned =>
    exact ⟨grows.sound, Spot.calls_idle returned.call_eq_none, trivial⟩
  | hit _ returned here | inserted _ returned here =>
    exact ⟨grows.sound, Spot.calls_idle returned.call_eq_none, _, here⟩
  | leave next => exact ⟨grows.sound, Spot.calls_idle calls, Spot.backed_of_next next⟩
  | interpret next => exact ⟨grows.sound, Spot.calls_idle calls, Spot.backed_of_next next⟩

/-- A step passes a phase of a call, finds no block, or is a step of the run. -/
theorem ThreadStep.moves (step : ThreadStep assembler build t (spot, c) (spot', c'))
    (proper : spot.Proper assembler build.singleStep size t c) :
    (spot'.place = spot.place ∧
        toLex (spot'.rank, (c'.calls.phase t).left) < toLex (spot.rank, (c.calls.phase t).left)) ∨
      (∃ v, spot = .running (.lookup v) ∧ spot' = .running (.compile v)) ∨
      c'.view = c.view ∧ (∃ place, spot' = .running place) ∧
        Next arch build (spot.place.config c.view) (spot'.place.config c.view) := by
  obtain ⟨sound, calls, backed⟩ := proper
  have phase {r : Nat} {p p' : ℕ ×ₗ ℕ} (lower : p' < p) : toLex (r, p') < toLex (r, p) :=
    Prod.Lex.toLex_lt_toLex.mpr (.inr ⟨rfl, lower⟩)
  have place {r r' : Nat} {p p' : ℕ ×ₗ ℕ} (lower : r' < r) : toLex (r', p') < toLex (r, p) :=
    Prod.Lex.toLex_lt_toLex.mpr (.inl lower)
  cases step with
  | construct called | get called => exact .inl ⟨rfl, phase (called.left_lt (by rintro _ _ ⟨⟩))⟩
  | publish stepped => exact .inl ⟨rfl, phase (stepped.left_lt (by rintro _ _ ⟨⟩))⟩
  | within mine internal stepped =>
    subst mine
    refine .inl ⟨rfl, phase (stepped.left_lt fun call result same => ?_)⟩
    rw [same] at internal
    cases internal
  | insert => exact .inl ⟨rfl, place (show 5 < 6 by decide)⟩
  | constructed => exact .inl ⟨rfl, place (show 8 < 9 by decide)⟩
  | miss => exact .inr (.inl ⟨_, rfl, rfl⟩)
  | hit leftover returned here =>
    cases returned with
    | finish before =>
      exact .inr (.inr ⟨rfl, ⟨_, rfl⟩, .hit leftover (sound.get_of_returning before rfl)
        (congrArg (Option.map Written.block) here)⟩)
  | inserted leftover returned here =>
    cases returned with
    | finish before =>
      -- the block is in the table, where another insertion would find it
      have found := sound.get_of_returning before rfl
      exact .inr (.inr ⟨rfl, ⟨_, rfl⟩, .compiled leftover backed (CodeBuffer.insert_of_get found)
        (congrArg (Option.map Written.block) here)⟩)
  | leave next | interpret next => exact .inr (.inr ⟨rfl, ⟨_, rfl⟩, next⟩)

end Steps

end Riscv64Emulator.Jit
