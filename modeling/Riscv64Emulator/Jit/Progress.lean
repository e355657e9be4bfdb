import Riscv64Emulator.Lib.LabelledRuns
import Riscv64Emulator.Jit.FallBack

/-!
# Progress of the run loops

The loops of `Executor::run` and `Vm::run` have no bound of their own. What bounds them is the
guest: a block that hands control back to the executor has executed an instruction, the
interpreter executes one before the run loop goes on, and a block that was missing once is
published for good.
-/
namespace Riscv64Emulator.Jit

open LabelledRuns

/-! ### Executed instructions -/

/-- The number of instructions of a block that are carried out before it is left. The one it is
left at counts if control goes on behind it. -/
def executedIn (be : BackEnd) (st : Setting) (m : Memory) : Nat → Word → Guest → Nat
  | 0, _, _ => 0
  | n + 1, pc, g =>
    match codeAt m pc with
    | none => 0
    | some i =>
      match effect be st pc i g with
      | .next g' => if st.singleStep then 1 else executedIn be st m n (pc + 4) g' + 1
      | .depart d _ => if d.goesOn then 1 else 0
      | .fault => 0

/-- No block goes on with another one, or asks for it, without having executed an instruction. -/
theorem executedIn_pos {be : BackEnd} {st : Setting} {m : Memory} {fuel : Nat} {pc : Word} {g g' : Guest}
    {d : Departure} (departs : blockEffect be st m fuel pc g = .depart d g') (goes : d.goesOn = true) :
    0 < executedIn be st m fuel pc g := by
  cases fuel with
  | zero => cases departs
  | succ fuel =>
    unfold blockEffect at departs
    unfold executedIn
    cases fetched : codeAt m pc with
    | none =>
      -- the exit of a failed fetch does not go on
      simp only [fetched] at departs
      cases departs
      cases goes
    | some i =>
      cases outcome : effect be st pc i g with
      | fault =>
        simp only [fetched, outcome] at departs
        cases departs
      | next guest =>
        simp only [outcome]
        split
        · exact Nat.one_pos
        · exact Nat.succ_pos _
      | depart d' guest =>
        simp only [fetched, outcome] at departs
        cases departs
        simp only [outcome, goes, if_true]
        exact Nat.one_pos

/-- A block that is missing is one of the table, and not published. -/
theorem blockEffect_notGenerated {be : BackEnd} {st : Setting} {m : Memory} (fuel : Nat) {pc p : Word}
    {g g' : Guest} (departs : blockEffect be st m fuel pc g = .depart (.exit .blockNotGenerated p) g') :
    p.toNat / 4 < st.maxBlockCount.toNat ∧ st.blockToOffset (p.toNat / 4) = 0 := by
  induction fuel generalizing pc g with
  | zero => cases departs
  | succ fuel ih =>
    unfold blockEffect at departs
    split at departs
    · cases departs
    · next i fetched =>
      cases outcome : effect be st pc i g with
      | next guest =>
        simp only [outcome] at departs
        split at departs
        · cases departs
        · exact ih departs
      | depart d guest =>
        simp only [outcome] at departs
        cases departs
        -- the last instruction has looked its target up in the table
        obtain ⟨target, branch, inside, -⟩ := effect_goesOn outcome rfl
        rcases branchTo_cases branch with ⟨-, same⟩ | ⟨-, absent, same⟩ | ⟨-, -, same⟩
        · cases same
        · cases same
          exact ⟨inside, absent⟩
        · cases same
      | fault =>
        simp only [outcome] at departs
        cases departs

/-! ### The life of an executor -/

section Life

variable {arch : Arch} (build : Build)

def Config.buffer : Config arch → Buffer arch
  | .lookup _ buffer | .compile _ buffer | .inside _ buffer _ _ | .fallBack _ buffer | .stopped _ buffer =>
    buffer

/-- The steps of a call of `Vm::run`, and the next call of it. In between the program may have
changed the registers and the contents of the memory. -/
inductive LifeStep : Config arch → Config arch → Prop
  | step {c c'} (next : Next arch build c c') : LifeStep c c'
  | called {vm vm' buffer} (zero : vm'.cpu.get Register.zero = 0)
      (sized : vm'.memory.size = vm.memory.size) :
      LifeStep (.stopped vm buffer) (.lookup vm' buffer)

/-- The constructors of the buffer and the executor, which puts its trampoline into the buffer,
in front of the first call. -/
structure Constructed (vm : VmState) (buffer : Buffer arch) : Prop where
  made : ∃ (flags : CodeBufferFlags) (bytes : Nat) (size_le : bytes ≤ 2 ^ 32) (limit : Word)
    (length : Nat) (offset : BitVec 32), 0 < length ∧
      (CodeBuffer.create flags bytes size_le limit : Buffer arch).insertStandalone length .trampoline
        = .ok (offset, buffer)
  zero : vm.cpu.get Register.zero = 0
  layout : build.layout.Valid (guestOf vm).extent (4 * buffer.maxBlocks.toNat)

/-- Generated code is about to return to the executor with a reason and a pc. -/
def ReturnsWith (reason : ArchExitReason) (p : Word) : Config arch → Prop
  | .inside _ buffer block s => ∃ s', arch.run (build.env buffer) block.code s = some (none, s') ∧
      arch.exitReason s' = reason.code ∧ arch.exitPc s' = p
  | _ => False

/-- The executor compiles the block at `p`. -/
def CompilesAt (p : Word) : Config arch → Prop
  | .compile vm _ => vm.cpu.pc = p
  | _ => False

/-- The run ends without a return: `get` looks behind the table, the generator or `insert`
gives up, the host traps, or the interpreter gives up. -/
def Aborts : Config arch → Prop
  | .lookup vm buffer => ∃ e, buffer.get vm.cpu.pc = .error e
  | .compile vm buffer =>
    (∃ e, arch.generateBlockCode buffer.flags buffer.maxBlocks vm.memory build.singleStep vm.cpu.pc
        = .error e) ∨
      ∃ code e, arch.generateBlockCode buffer.flags buffer.maxBlocks vm.memory build.singleStep
          vm.cpu.pc = .ok code ∧
        buffer.insert vm.cpu.pc (arch.codeSize code) (.block ⟨code, vm.cpu.pc, vm.memory⟩) = .error e
  | .inside _ buffer block s => arch.run (build.env buffer) block.code s = none
  | .fallBack vm _ => ∃ e, Interpreter.step vm = .error e
  | .stopped _ _ => False

def Returned : Config arch → Prop
  | .stopped _ _ => True
  | _ => False

/-- The block at `p` is published. -/
def Published (p : Word) (buffer : Buffer arch) : Prop :=
  buffer.Admits p ∧ buffer.blockToOffset (p.toNat / 4) ≠ 0

/-- Once published, a block stays so, and `insert` publishes the block it is called for. -/
theorem Published.insert {buffer buffer' : Buffer arch} {p pc : Word} {length : Nat}
    {code : Written arch.Code} {offset : BitVec 32} (reserved : 0 < buffer.nextFreeOffset)
    (positive : 0 < length) (inserted : buffer.insert pc length code = .ok (offset, buffer'))
    (published : Published p buffer ∨ p = pc) : Published p buffer' ∧ 0 < buffer'.nextFreeOffset := by
  obtain ⟨admits, ⟨rfl, rfl, found⟩ | ⟨-, b₁, allocated, rfl⟩⟩ := CodeBuffer.insert_cases positive inserted
  · refine ⟨?_, reserved⟩
    rcases published with published | rfl
    · exact published
    · exact ⟨admits, found⟩
  -- a fresh allocation starts behind the reserved bytes, so its offset is not 0
  · have behind := CodeBuffer.le_alignedOffset buffer.nextFreeOffset
    have start := allocated.start
    have next := allocated.next
    have new : offset ≠ 0 := by
      rintro rfl
      simp at start
      omega
    have admitted : ∀ {a}, buffer.Admits a → CodeBuffer.Admits { b₁ with
        blockToOffset := fun block => if block = pc.toNat / 4 then offset else b₁.blockToOffset block } a := by
      intro a admits
      unfold CodeBuffer.Admits
      rw [allocated.maxBlocks]
      exact admits
    refine ⟨?_, by dsimp only; omega⟩
    rcases published with ⟨admits', present⟩ | rfl
    · refine ⟨admitted admits', ?_⟩
      dsimp only
      rw [allocated.blocks]
      split
      · exact new
      · exact present
    · refine ⟨admitted admits, ?_⟩
      dsimp only
      rw [if_pos rfl]
      exact new

/-! ### What holds all the time -/

variable {build} {be : BackEnd} {refines : arch.Refines be} {size : Word}

/-- A place of an executor's life: a sound one, also behind a return. The buffer never gives
away its first bytes, so no block has the offset that stands for none. -/
structure Held (refines : arch.Refines be) (build : Build) (size : Word) (c : Config arch) : Prop where
  sound : Sound refines build size c
  returned : ∀ vm buffer, c = .stopped vm buffer →
    GenuineBuffer build.singleStep size buffer ∧ build.Serves size buffer (guestOf vm)
  missing : ∀ vm buffer, c = .compile vm buffer → buffer.get vm.cpu.pc = .ok none
  reserved : 0 < c.buffer.nextFreeOffset

theorem Constructed.held {vm : VmState} {buffer : Buffer arch} (constructed : Constructed build vm buffer) :
    Held refines build vm.memory.size (.lookup vm buffer) := by
  obtain ⟨⟨flags, bytes, size_le, limit, length, offset, positive, made⟩, zero, layout⟩ := constructed
  have genuine := (genuine_create build.singleStep vm.memory.size flags size_le limit).insertStandalone
    positive made
  have allocated := CodeBuffer.allocated positive made
  refine ⟨Starts.sound refines ⟨genuine, zero, layout⟩, fun _ _ same => (by cases same),
    fun _ _ same => (by cases same), ?_⟩
  show 0 < buffer.nextFreeOffset
  have next := allocated.next
  omega

/-- Behind a compilation the block is published, and what was published before still is. -/
theorem Next.published {c c' : Config arch} (reserved : 0 < c.buffer.nextFreeOffset)
    (next : Next arch build c c') : 0 < c'.buffer.nextFreeOffset ∧
      ∀ p, Published p c.buffer ∨ CompilesAt p c → Published p c'.buffer := by
  cases next with
  | compiled leftover generated inserted here =>
    have positive := arch.codeSize_pos
    refine ⟨(Published.insert reserved (positive _) inserted (.inr rfl)).2, fun p published => ?_⟩
    exact (Published.insert reserved (positive _) inserted (published.imp_right Eq.symm)).1
  | hit | miss | chain | again | fallsBack | leaves | resumed | refused =>
    exact ⟨reserved, fun p published => published.resolve_right fun compiles => compiles.elim⟩

theorem Held.lifeStep {c c' : Config arch} (held : Held refines build size c)
    (step : LifeStep build c c') : Held refines build size c' := by
  cases step with
  | called zero sized =>
    -- a new call finds the buffer as the last one left it
    obtain ⟨genuine, serves⟩ := held.returned _ _ rfl
    refine ⟨⟨genuine, serves.congr ?_ sized⟩, fun _ _ same => (by cases same),
      fun _ _ same => (by cases same), held.reserved⟩
    exact zero.trans serves.zero.symm
  | step next =>
    refine ⟨held.sound.next next, fun vm buffer same => ?_, fun vm buffer same => ?_,
      (next.published held.reserved).1⟩
    · subst same
      cases next with
      -- only these two stop the run
      | leaves reason kind ran code =>
        obtain ⟨-, -, -, serves⟩ := held.sound.returned ran
        exact ⟨held.sound.1, serves.toVm _ _⟩
      | refused stepped =>
        obtain ⟨zero, sized⟩ := Interpreter.step_keeps stepped
        exact ⟨held.sound.1, held.sound.2.congr zero sized⟩
    · subst same
      cases next with
      | miss absent => exact absent

theorem Held.life {c c' : Config arch} (held : Held refines build size c)
    (life : Relation.ReflTransGen (LifeStep build) c c') : Held refines build size c' := by
  induction life with
  | refl => exact held
  | tail _ step ih => exact ih.lifeStep step

/-- A published block stays published for the rest of the executor's life. -/
theorem Held.published {c c' : Config arch} {p : Word} (held : Held refines build size c)
    (published : Published p c.buffer) (life : Relation.ReflTransGen (LifeStep build) c c') :
    Published p c'.buffer := by
  induction life with
  | refl => exact published
  | tail life step ih =>
    cases step with
    | step next => exact (next.published (held.life life).reserved).2 p (.inl ih)
    | called => exact ih

/-- What the code that is about to return was found to do. -/
theorem Held.returnsWith {exit : Exit} {buffer : Buffer arch} {block : CompiledBlock arch.Code}
    {s : arch.State} {reason : ArchExitReason} {p : Word}
    (held : Held refines build size (.inside exit buffer block s))
    (returns : ReturnsWith build reason p (.inside exit buffer block s)) :
    ∃ g, blockEffect be (build.setting buffer) block.memory (blockFuel block.memory) block.pc
      (arch.guest s) = .depart (.exit reason p) g := by
  obtain ⟨s', ran, code, rfl⟩ := returns
  obtain ⟨reason', outcome, code', -⟩ := held.sound.returned ran
  -- the block departs with some reason, and no two reasons share a code
  cases ArchExitReason.code_injective (code.symm.trans code')
  exact ⟨_, outcome⟩

/-- No code asks for a block that is published. -/
theorem Held.not_returnsWith {c : Config arch} {p : Word} (held : Held refines build size c)
    (published : Published p c.buffer) : ¬ReturnsWith build .blockNotGenerated p c := by
  intro returns
  cases c with
  | inside exit buffer block s =>
    obtain ⟨g, outcome⟩ := held.returnsWith returns
    exact published.2 (blockEffect_notGenerated _ outcome).2
  | _ => exact returns

/-- Nor does the executor compile it. -/
theorem Held.not_compilesAt {c : Config arch} {p : Word} (held : Held refines build size c)
    (published : Published p c.buffer) : ¬CompilesAt p c := by
  intro compiles
  cases c with
  | compile vm buffer =>
    obtain rfl : vm.cpu.pc = p := compiles
    have published : Published vm.cpu.pc buffer := published
    have absent := held.missing vm buffer rfl
    rw [CodeBuffer.get_of_admits published.1, if_pos published.2] at absent
    cases absent
  | _ => exact compiles

/-- A compiled block is published for the rest of the executor's life. -/
theorem Held.published_of_compilesAt {c c' : Config arch} {p : Word}
    (held : Held refines build size c) (compiles : CompilesAt p c)
    (later : Relation.TransGen (LifeStep build) c c') :
    Held refines build size c' ∧ Published p c'.buffer := by
  obtain ⟨c₁, first, rest⟩ := Relation.TransGen.head'_iff.mp later
  have held₁ := held.lifeStep first
  -- the first step is the compilation, and what is published stays so
  refine ⟨held₁.life rest, held₁.published ?_ rest⟩
  cases first with
  | step next => exact (next.published held.reserved).2 p (.inr compiles)
  | called => exact compiles.elim

/-- Behind a return for a missing block comes its compilation. -/
theorem Held.compiles {c c₁ c₂ : Config arch} {p : Word} (held : Held refines build size c)
    (returns : ReturnsWith build .blockNotGenerated p c) (first : Next arch build c c₁)
    (second : Next arch build c₁ c₂) : CompilesAt p c₂ := by
  cases c with
  | inside exit buffer block s =>
    obtain ⟨g, outcome⟩ := held.returnsWith returns
    obtain ⟨inside, absent⟩ := blockEffect_notGenerated _ outcome
    obtain ⟨s', ran, code, rfl⟩ := returns
    -- the step is the one of this return
    obtain ⟨vm, here, rfl⟩ : ∃ vm, vm.cpu.pc = arch.exitPc s' ∧ c₁ = .lookup vm buffer := by
      cases first with
      | again reason kind ran' code' =>
        cases ran.symm.trans ran'
        exact ⟨_, Guest.pc_toVm _ _ _, rfl⟩
      | chain ran' => cases ran.symm.trans ran'
      | fallsBack reason kind ran' code' =>
        cases ran.symm.trans ran'
        cases ArchExitReason.code_injective (code.symm.trans code')
        cases kind
      | leaves reason kind ran' code' =>
        cases ran.symm.trans ran'
        cases ArchExitReason.code_injective (code.symm.trans code')
        cases kind
    cases second with
    | miss => exact here
    | hit leftover found =>
      have published := CodeBuffer.get_eq_some found
      rw [here] at published
      exact absurd (published.1.trans absent) published.2
  | _ => exact returns.elim

/-- No code asks for a missing block twice. -/
theorem Held.returnsWith_once {c c' : Config arch} {p : Word} (held : Held refines build size c)
    (returns : ReturnsWith build .blockNotGenerated p c)
    (later : Relation.TransGen (LifeStep build) c c') :
    ¬ReturnsWith build .blockNotGenerated p c' := by
  obtain ⟨c₁, first, rest⟩ := Relation.TransGen.head'_iff.mp later
  have held₁ := held.lifeStep first
  cases first with
  | called => exact returns.elim
  | step first =>
    -- behind the return comes a lookup, then the compilation
    rcases rest.cases_head with rfl | ⟨c₂, second, rest⟩
    · cases first with
      | again | fallsBack | leaves => exact id
      | chain ran here =>
        obtain ⟨s', ran', -⟩ := returns
        cases ran.symm.trans ran'
      | _ => exact returns.elim
    · have held₂ := held₁.lifeStep second
      cases second with
      | called =>
        cases first with
        | leaves reason kind ran code =>
          obtain ⟨s', ran', code', -⟩ := returns
          cases ran.symm.trans ran'
          cases ArchExitReason.code_injective (code.symm.trans code')
          cases kind
        | refused => exact returns.elim
      | step second =>
        have compiles := held.compiles returns first second
        rcases Relation.reflTransGen_iff_eq_or_transGen.mp rest with rfl | later
        · cases c' with
          | compile => exact id
          | _ => exact compiles.elim
        · obtain ⟨held', published⟩ := held₂.published_of_compilesAt compiles later
          exact held'.not_returnsWith published

/-! ### What a run does -/

/-- The instructions that are carried out before control goes on from a place. -/
def Config.executed (be : BackEnd) (build : Build) : Config arch → Nat
  | .inside _ buffer block s =>
    executedIn be (build.setting buffer) block.memory (blockFuel block.memory) block.pc (arch.guest s)
  | .fallBack vm _ => match Interpreter.step vm with
    | .ok (true, _) => 1
    | _ => 0
  | _ => 0

/-- What a step of a run adds: the calls of the trampoline, the iterations of the run loop behind
the first one, and the instructions. -/
structure Work where
  calls : Nat
  iterations : Nat
  instructions : Nat
deriving DecidableEq, Repr

def work (be : BackEnd) (build : Build) (c c' : Config arch) : Work where
  calls := match c, c' with
    | .lookup _ _, .inside _ _ _ _ | .compile _ _, .inside _ _ _ _ => 1
    | _, _ => 0
  iterations := match c, c' with
    | .fallBack _ _, .lookup _ _ => 1
    | _, _ => 0
  instructions := c.executed be build

/-- The steps of a run with what they add. -/
def Works (be : BackEnd) (build : Build) (c : Config arch) (w : Work) (c' : Config arch) : Prop :=
  Next arch build c c' ∧ w = work be build c c'

def total (f : Work → Nat) (es : List Work) : Nat := (es.map f).sum

@[simp] theorem total_nil (f : Work → Nat) : total f [] = 0 := rfl

@[simp] theorem total_append (f : Work → Nat) (es : List Work) (w : Work) :
    total f (es ++ [w]) = total f es + f w := by
  simp [total]

/-- How far a run is ahead of the instructions, by where it is: before an instruction the
trampoline was called once more, and at most four steps were made. -/
def Ahead (es : List Work) : Config arch → Prop
  | .lookup _ _ => total Work.calls es ≤ total Work.instructions es ∧
      total Work.iterations es ≤ total Work.instructions es ∧ es.length ≤ 4 * total Work.instructions es
  | .compile _ _ => total Work.calls es ≤ total Work.instructions es ∧
      total Work.iterations es ≤ total Work.instructions es ∧
      es.length ≤ 4 * total Work.instructions es + 1
  | .inside _ _ _ _ => total Work.calls es ≤ total Work.instructions es + 1 ∧
      total Work.iterations es ≤ total Work.instructions es ∧
      es.length ≤ 4 * total Work.instructions es + 2
  | .fallBack _ _ => total Work.calls es ≤ total Work.instructions es + 1 ∧
      total Work.iterations es ≤ total Work.instructions es ∧
      es.length ≤ 4 * total Work.instructions es + 3
  | .stopped _ _ => total Work.calls es ≤ total Work.instructions es + 1 ∧
      total Work.iterations es ≤ total Work.instructions es ∧
      es.length ≤ 4 * total Work.instructions es + 4

/-- Wherever the run is. -/
theorem Ahead.bounds {es : List Work} {c : Config arch} (ahead : Ahead es c) :
    total Work.calls es ≤ total Work.instructions es + 1 ∧
      total Work.iterations es ≤ total Work.instructions es ∧
      es.length ≤ 4 * total Work.instructions es + 4 := by
  cases c <;> simp only [Ahead] at ahead <;> omega

theorem Ahead.works {es : List Work} {c c' : Config arch} {w : Work} (held : Held refines build size c)
    (ahead : Ahead es c) (works : Works be build c w c') : Ahead (es ++ [w]) c' := by
  obtain ⟨next, rfl⟩ := works
  cases next with
  | hit | miss | compiled | refused =>
    simp only [Ahead, total_append, work, List.length_append, List.length_singleton] at ahead ⊢
    omega
  | @chain exit buffer block s s' offset block' ran here =>
    -- control went on with another block, so this one has executed an instruction
    have executed : 0 < (Config.inside exit buffer block s).executed be build :=
      executedIn_pos (held.sound.jumped ran).1 rfl
    simp only [Ahead, total_append, work, List.length_append, List.length_singleton] at ahead ⊢
    omega
  | @again exit buffer block s s' reason kind ran code =>
    obtain ⟨reason', outcome, code', -⟩ := held.sound.returned ran
    cases ArchExitReason.code_injective (code.symm.trans code')
    have executed : 0 < (Config.inside exit buffer block s).executed be build :=
      executedIn_pos outcome kind
    simp only [Ahead, total_append, work, List.length_append, List.length_singleton] at ahead ⊢
    omega
  | fallsBack | leaves =>
    simp only [Ahead, total_append, work, List.length_append, List.length_singleton] at ahead ⊢
    omega
  | @resumed vm buffer vm' stepped =>
    -- the interpreter's step is the instruction that pays for the iteration
    have executed : (Config.fallBack vm buffer : Config arch).executed be build = 1 := by
      simp only [Config.executed, stepped]
    simp only [Ahead, total_append, work, List.length_append, List.length_singleton, executed] at ahead ⊢
    omega

theorem Held.ahead {es : List Work} {c c' : Config arch} {vm : VmState} {buffer : Buffer arch}
    (held : Held refines build size c) (start : c = .lookup vm buffer) (run : Run (Works be build) c es c') :
    Held refines build size c' ∧ Ahead es c' := by
  -- on the steps of the run; a lookup is where a run starts, with nothing done yet
  refine run.invariant (P := fun es c => Held refines build size c ∧ Ahead es c) ⟨held, ?_⟩
    fun holds works => ⟨holds.1.lifeStep (.step works.1), holds.2.works holds.1 works⟩
  subst start
  exact ⟨Nat.le_refl _, Nat.le_refl _, Nat.le_refl _⟩

/-! ### Every place goes on -/

theorem ArchExitReason.kinds (reason : ArchExitReason) : reason.again = true ∨ reason.fallsBack = true ∨
    ∃ reported, reason.exitReason = some reported := by
  cases reason <;> simp [ArchExitReason.again, ArchExitReason.fallsBack, ArchExitReason.exitReason]

/-- A run that has not returned makes another step, or ends at once. -/
theorem Sound.goesOn [leftover : Nonempty arch.Leftover] {c : Config arch}
    (sound : Sound refines build size c) : Returned c ∨ Aborts build c ∨ ∃ c', Next arch build c c' := by
  obtain ⟨leftover⟩ := leftover
  cases c with
  | stopped vm buffer => exact .inl trivial
  | lookup vm buffer =>
    refine .inr ?_
    cases got : buffer.get vm.cpu.pc with
    | error e => exact .inl ⟨e, got⟩
    | ok found =>
      cases found with
      | none => exact .inr ⟨_, .miss got⟩
      | some offset =>
        obtain ⟨block, here, -⟩ := sound.1.of_get got
        exact .inr ⟨_, .hit leftover got here⟩
  | compile vm buffer =>
    refine .inr ?_
    cases generated : arch.generateBlockCode buffer.flags buffer.maxBlocks vm.memory build.singleStep
        vm.cpu.pc with
    | error e => exact .inl (.inl ⟨e, generated⟩)
    | ok code =>
      cases inserted : buffer.insert vm.cpu.pc (arch.codeSize code)
          (.block ⟨code, vm.cpu.pc, vm.memory⟩) with
      | error e => exact .inl (.inr ⟨code, e, generated, inserted⟩)
      | ok result =>
        obtain ⟨offset, buffer'⟩ := result
        obtain ⟨-, -, -, block, here, -⟩ := sound.1.insert generated sound.2.size inserted
        exact .inr ⟨_, .compiled leftover generated inserted here⟩
  | inside exit buffer block s =>
    refine .inr ?_
    -- the code performs the block's effect, and that is never to run on behind it
    have performs := sound.performs
    cases outcome : blockEffect be (build.setting buffer) block.memory (blockFuel block.memory)
        block.pc (arch.guest s) with
    | next guest => exact (blockEffect_ne_next _ _ _ _ _ _ _ outcome).elim
    | fault =>
      rw [outcome] at performs
      exact .inl performs
    | depart d guest =>
      rw [outcome] at performs
      refine .inr ?_
      cases d with
      | enter offset =>
        obtain ⟨s', ran, -⟩ := performs
        -- a block that is jumped to is one of the table
        obtain ⟨index, inside, rfl, published⟩ := blockEffect_enter _ outcome
        obtain ⟨block', here, -⟩ := sound.1.published index inside published
        exact ⟨_, .chain ran here⟩
      | exit reason pc =>
        obtain ⟨s', ran, code, -⟩ := performs
        rcases reason.kinds with kind | kind | ⟨reported, kind⟩
        · exact ⟨_, .again reason kind ran code⟩
        · exact ⟨_, .fallsBack reason kind ran code⟩
        · exact ⟨_, .leaves reason kind ran code⟩
  | fallBack vm buffer =>
    refine .inr ?_
    cases stepped : Interpreter.step vm with
    | error e => exact .inl ⟨e, stepped⟩
    | ok result =>
      obtain ⟨ok, vm'⟩ := result
      cases ok with
      | true => exact .inr ⟨_, .resumed stepped⟩
      | false => exact .inr ⟨_, .refused stepped⟩

end Life

theorem Host.nonempty_leftover (host : Host) : Nonempty host.arch.Leftover := by
  cases host <;> exact ⟨fun _ => (0 : Word)⟩

/-- What holds at any place `c` of an executor's life. -/
structure MakesProgress (host : Host) (build : Build) (c : Config host.arch) : Prop where
  /-- Behind a return for a missing block the executor compiles it. -/
  compiles : ∀ p c₁ c₂, ReturnsWith build .blockNotGenerated p c → Next host.arch build c c₁ →
    Next host.arch build c₁ c₂ → CompilesAt p c₂
  /-- It does so once, and no code asks for the block again. -/
  once : ∀ p c', CompilesAt p c ∨ ReturnsWith build .blockNotGenerated p c →
    Relation.TransGen (LifeStep build) c c' →
    ¬ReturnsWith build .blockNotGenerated p c' ∧ (CompilesAt p c → ¬CompilesAt p c')
  /-- Code that returns for the executor to go on has executed an instruction. -/
  call : ∀ reason p, reason.again = true → ReturnsWith build reason p c →
    0 < c.executed host.backEnd build
  /-- An iteration of the run loop that does not return has, too. -/
  iteration : ∀ vm vm' buffer buffer', c = .fallBack vm buffer →
    Next host.arch build c (.lookup vm' buffer') →
    ∃ i, Interpreter.fetched vm = some i ∧ Interpreter.Retired vm i vm'
  /-- A run that has come anywhere is one call and one iteration ahead of the instructions at
  most, and does not go on without instructions. -/
  bounded : ∀ vm buffer es c', c = .lookup vm buffer → Run (Works host.backEnd build) c es c' →
    total Work.calls es ≤ total Work.instructions es + 1 ∧
      1 + total Work.iterations es ≤ total Work.instructions es + 1 ∧
      es.length ≤ 4 * total Work.instructions es + 4
  /-- A run in which the guest executes `n` instructions at most returns after as many calls and
  iterations, and one more, unless it aborts. -/
  returns : ∀ vm buffer n, c = .lookup vm buffer →
    (∀ es c', Run (Works host.backEnd build) c es c' → total Work.instructions es ≤ n) →
    ∃ es c', Run (Works host.backEnd build) c es c' ∧ (Returned c' ∨ Aborts build c') ∧
      total Work.calls es ≤ n + 1 ∧ 1 + total Work.iterations es ≤ n + 1

/-- The loops make progress, however often `Vm::run` is called. -/
theorem runLoop_makesProgress (host : Host) (build : Build) {vm : VmState} {buffer : Buffer host.arch}
    {c : Config host.arch} (constructed : Constructed build vm buffer)
    (life : Relation.ReflTransGen (LifeStep build) (.lookup vm buffer) c) :
    MakesProgress host build c := by
  have held : Held host.refines build vm.memory.size c := constructed.held.life life
  have leftover := host.nonempty_leftover
  refine ⟨fun p c₁ c₂ returns first second => held.compiles returns first second, ?_, ?_, ?_, ?_, ?_⟩
  · rintro p c' (compiles | returns) later
    · obtain ⟨held', published⟩ := held.published_of_compilesAt compiles later
      exact ⟨held'.not_returnsWith published, fun _ => held'.not_compilesAt published⟩
    · refine ⟨held.returnsWith_once returns later, fun compiles => ?_⟩
      cases c with
      | inside => exact compiles.elim
      | _ => exact returns.elim
  · intro reason p kind returns
    cases c with
    -- generated code does what `blockEffect` says, and that decides which step comes
    | inside exit buffer block s =>
      obtain ⟨g, outcome⟩ := held.returnsWith returns
      exact executedIn_pos outcome kind
    | _ => exact returns.elim
  · rintro vm₁ vm₂ buffer₁ buffer₂ rfl next
    cases next with
    | resumed stepped =>
      have after := Interpreter.step_cases vm₁
      rw [stepped] at after
      cases after with
      | executed fetch after =>
        cases after with
        | retired after => exact ⟨_, fetch, after⟩
  · intro vm₁ buffer₁ es c' start run
    obtain ⟨-, ahead⟩ := held.ahead start run
    have bounds := ahead.bounds
    omega
  · intro vm₁ buffer₁ n start few
    have short : ∀ es c', Run (Works host.backEnd build) c es c' → es.length ≤ 4 * n + 4 := by
      intro es c' run
      have bounds := (held.ahead start run).2.bounds
      have few := few es c' run
      omega
    -- runs of bounded length have one that cannot be extended, and only an end stops a run
    obtain ⟨es, c', run, ends⟩ := Run.exists_end short
    obtain ⟨held', ahead⟩ := held.ahead start run
    have bounds := ahead.bounds
    have few := few es c' run
    refine ⟨es, c', run, ?_, by omega, by omega⟩
    rcases held'.sound.goesOn with returned | aborts | ⟨c'', next⟩
    · exact .inl returned
    · exact .inr aborts
    · exact absurd ⟨next, rfl⟩ (ends _ c'')

namespace Forward

/-- `jal x0, 8`. -/
def memory : Memory := Memory.ofImage 16 Overwrite.size_lt [0x6f, 0x00, 0x80, 0x00]
  (MemoryFlags.read ||| MemoryFlags.execute)

def vm : VmState := ⟨memory, ⟨fun _ => 0⟩, {}⟩

end Forward

/-- The program asks for the block at 8. -/
-- the host's run need not be evaluated: the block's effect says what it comes back with
theorem runLoop_makesProgress_jal : ∃ (buffer : Buffer Overwrite.host.arch)
    (c : Config Overwrite.host.arch), Constructed Overwrite.build Forward.vm buffer ∧
      ReturnsWith Overwrite.build .blockNotGenerated 8 c ∧
      MakesProgress Overwrite.host Overwrite.build c := by
  obtain ⟨code, generated⟩ : ∃ code,
      Overwrite.host.arch.generateBlockCode {} 4 Forward.memory false 0 = .ok code := ⟨_, rfl⟩
  let block : CompiledBlock Overwrite.host.arch.Code := ⟨code, 0, Forward.memory⟩
  -- the buffer behind the constructor of the executor, and behind the block
  obtain ⟨buffer, buffer', made, absent, limit, flags, inserted, here, limit', missing⟩ :
      ∃ buffer buffer' : Buffer Overwrite.host.arch,
        (CodeBuffer.create {} (2 ^ 20) (by decide) 16 : Buffer _).insertStandalone 1 .trampoline
          = .ok (16, buffer) ∧ buffer.get 0 = .ok none ∧ buffer.maxBlocks = 4 ∧ buffer.flags = {} ∧
        buffer.insert 0 1 (.block block) = .ok (32, buffer') ∧
        buffer'.written 32 = some (.block block) ∧ buffer'.maxBlocks = 4 ∧ buffer'.blockToOffset 2 = 0 :=
    ⟨_, _, rfl, rfl, rfl, rfl, rfl, rfl, rfl, rfl⟩
  have constructed : Constructed Overwrite.build Forward.vm buffer := by
    refine ⟨⟨_, _, _, _, _, _, by decide, made⟩, rfl, ?_⟩
    have extent : (guestOf Forward.vm).extent = 2 * Forward.memory.permissionsOffset := rfl
    rw [limit, extent]
    constructor <;> decide
  let s := Overwrite.host.arch.enter (Overwrite.build.env buffer') (guestOf Forward.vm)
    (fun _ => (0 : Word))
  have generated : Overwrite.host.arch.generateBlockCode buffer.flags buffer.maxBlocks
      Forward.vm.memory Overwrite.build.singleStep Forward.vm.cpu.pc = .ok code := by
    rw [flags, limit]
    exact generated
  -- the block is compiled and entered
  have life : Relation.ReflTransGen (LifeStep Overwrite.build) (.lookup Forward.vm buffer)
      (.inside {} buffer' block s) :=
    (Relation.ReflTransGen.single (.step (.miss absent))).tail
      (.step (.compiled _ generated inserted here))
  have held : Held Overwrite.host.refines Overwrite.build Forward.vm.memory.size
      (.inside {} buffer' block s) := constructed.held.life life
  have outcome : blockEffect Overwrite.host.backEnd (Overwrite.build.setting buffer') Forward.memory
      (blockFuel Forward.memory) 0 (guestOf Forward.vm)
        = .depart (.exit .blockNotGenerated 8) (guestOf Forward.vm) := by
    have first : codeAt Forward.memory 0 = some (.ofWord 0x0080006f) := by decide
    have fuel : blockFuel Forward.memory = 6 := by decide
    have jump : effect Overwrite.host.backEnd (Overwrite.build.setting buffer') 0 (.ofWord 0x0080006f)
        (guestOf Forward.vm) = .depart (.exit .blockNotGenerated 8) (guestOf Forward.vm) := by
      show (Overwrite.build.setting buffer').staticBranch 0 8 (guestOf Forward.vm) = _
      unfold Setting.staticBranch Setting.branchTo
      rw [show (Overwrite.build.setting buffer').maxBlockCount = 4 from limit']
      exact if_pos missing
    rw [fuel]
    simp only [blockEffect, first, jump]
  have performs := held.sound.performs
  rw [show blockEffect _ _ block.memory _ block.pc (Overwrite.host.arch.guest s) = _ from outcome]
    at performs
  obtain ⟨s', ran, reason, at_pc, -⟩ := performs
  exact ⟨buffer, .inside {} buffer' block s, constructed, ⟨s', ran, reason, at_pc⟩,
    runLoop_makesProgress Overwrite.host Overwrite.build constructed life⟩

end Riscv64Emulator.Jit
