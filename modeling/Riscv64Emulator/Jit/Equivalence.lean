import Riscv64Emulator.Lib.RankedSimulation
import Riscv64Emulator.Jit.Agreement
import Riscv64Emulator.Jit.ClosedCode
import Riscv64Emulator.Jit.Execution

/-!
# The two engines

`Vm::run` with an executor next to `Vm::run_interpreter`: where the interpreter returns, the
run with generated code does, with the same result, as long as the program comes to none of
the instructions the engines treat differently.
-/
namespace Riscv64Emulator

namespace Interpreter

/-- `Vm::run_interpreter` returns, and leaves `final` behind. -/
def Returns (vm final : VmState) : Prop := ∃ u, Run vm u ∧ step u = .ok (false, final)

/-- The run comes to `final` in `n` more steps. -/
abbrev EndsIn (final : VmState) : Nat → VmState → Prop :=
  RankedSimulation.Ends Steps fun u => step u = .ok (false, final)

section EndsIn

variable {vm v v' final : VmState} {n : Nat}

theorem Returns.endsIn (returns : Returns vm final) : ∃ n, EndsIn final n vm := by
  obtain ⟨u, run, stops⟩ := returns
  exact RankedSimulation.Ends.of_run run stops

theorem EndsIn.stepped (ends : EndsIn final n v) : ∃ result, step v = .ok result := by
  cases ends with
  | here stops => exact ⟨_, stops⟩
  | next steps => exact ⟨_, steps⟩

theorem EndsIn.steps (ends : EndsIn final n v) (steps : Steps v v') :
    ∃ n', n = n' + 1 ∧ EndsIn final n' v' := by
  refine RankedSimulation.Ends.step ends (fun here there => ?_) (fun stops b goes => ?_) steps
  · cases here.symm.trans there
    rfl
  · cases stops.symm.trans goes

theorem EndsIn.stops {result : VmState} (ends : EndsIn final n v) (stops : step v = .ok (false, result)) :
    result = final := by
  cases ends with
  | here stops' =>
    cases stops.symm.trans stops'
    rfl
  | next steps => cases stops.symm.trans steps

/-- A step that goes on does not touch the exit. -/
theorem run_exit (run : Run vm v) : v.exit = vm.exit := by
  induction run with
  | refl => rfl
  | tail _ steps ih =>
    obtain ⟨i, -, after⟩ := steps_retired steps
    cases after <;> exact ih

end EndsIn

end Interpreter

namespace Jit

open Interpreter (Run Steps step EndsIn)

/-! ### Programs -/

/-- Where the run from `vm` fetches, `m` has the same code. -/
def HoldsCode (vm : VmState) (m : Memory) : Prop :=
  ∀ v, Run vm v → v.cpu.pc &&& 3 = 0 → codeAt m v.cpu.pc = codeAt v.memory v.cpu.pc

/-- The run from `vm` comes to nothing the engines treat differently in the setting `st`. -/
structure Unremarkable (host : Host) (st : Setting) (vm : VmState) : Prop where
  checks : st.flags.skipPermissionChecks = false
  padding : ∀ v, Run vm v → v.memory.PaddingClear
  bounds : ∀ v, Run vm v → ∀ pc : Word, st.maxBlockCount.toNat ≤ pc.toNat / 4 →
    codeAt v.memory pc = none
  regular : ∀ v i, Run vm v → Interpreter.fetched v = some i →
    Regular host st.singleStep st.maxBlockCount v i

/-! ### Blocks -/

/-- Generated code departs where the interpreter comes to in its run from `vm` to `final`, of
which it had `n` steps left. A departure to other code makes up for one of them at least. -/
inductive Catches (st : Setting) (vm final : VmState) (n : Nat) (d : Departure) (g : Guest) : Prop
  | intro {u : VmState} {n' : Nat} (run : Run vm u) (ends : EndsIn final n' u) (fewer : n' ≤ n)
      (further : d.goesOn = true → n' < n) (mirrors : Mirrors g u) (leads : Leads st u d)

section Blocks

variable {host : Host} {st : Setting} {vm v final : VmState} {m : Memory} {g : Guest} {n : Nat}

/-- Less was left before. -/
theorem Catches.mono {n' : Nat} {d : Departure} (catches : Catches st vm final n d g) (fewer : n ≤ n') :
    Catches st vm final n' d g := by
  obtain ⟨run, ends, le, further, mirrors, leads⟩ := catches
  exact ⟨run, ends, Nat.le_trans le fewer, fun goes => Nat.lt_of_lt_of_le (further goes) fewer,
    mirrors, leads⟩

/-- Code the interpreter can not fetch either. -/
theorem catches_unfetchable (run : Run vm v) (ends : EndsIn final n v) (mirrors : Mirrors g v)
    (aligned : v.cpu.pc &&& 3 = 0) (absent : codeAt v.memory v.cpu.pc = none) :
    Catches st vm final n (.exit .instructionFetchFault v.cpu.pc) g :=
  ⟨run, ends, Nat.le_refl n, fun goes => (by cases goes), mirrors,
    .leaves rfl (.inl rfl) (step_unfetchable aligned absent)⟩

/-- A block is a number of the interpreter's steps. -/
theorem blockEffect_follows (same : Unremarkable host st vm) (holds : HoldsCode vm m) {k fuel : Nat}
    (run : Run vm v) (ends : EndsIn final n v) (mirrors : Mirrors g v) (aligned : v.cpu.pc &&& 3 = 0)
    (absent : codeAt m (v.cpu.pc + BitVec.ofNat 64 (4 * k)) = none) (enough : k < fuel) :
    ∃ d g', blockEffect host.backEnd st m fuel v.cpu.pc g = .depart d g' ∧
      Catches st vm final n d g' := by
  -- on the number of words before the code ends, which the fuel exceeds
  induction k generalizing fuel v n g with
  | zero =>
    obtain ⟨fuel, rfl⟩ := Nat.exists_eq_add_of_lt enough
    rw [Nat.mul_zero, BitVec.add_zero] at absent
    refine ⟨.exit .instructionFetchFault v.cpu.pc, g, by simp only [blockEffect, absent], ?_⟩
    exact catches_unfetchable run ends mirrors aligned ((holds v run aligned).symm.trans absent)
  | succ k ih =>
    obtain ⟨fuel, rfl⟩ : ∃ f, fuel = f + 1 := ⟨fuel - 1, by omega⟩
    rw [← add_four] at absent
    have code := holds v run aligned
    cases fetched : codeAt m v.cpu.pc with
    | none =>
      refine ⟨.exit .instructionFetchFault v.cpu.pc, g, by simp only [blockEffect, fetched], ?_⟩
      exact catches_unfetchable run ends mirrors aligned (code.symm.trans fetched)
    | some i =>
      have fetch : Interpreter.fetched v = some i := by
        rw [fetched_of_codeAt aligned, ← code, fetched]
      obtain ⟨result, stepped⟩ := ends.stepped
      have regular := same.regular v i run fetch
      have follows : Follows st v (effect host.backEnd st v.cpu.pc i g) :=
        follows_effect mirrors fetch stepped same.checks (same.padding v run) (same.bounds v run) regular
      cases outcome : effect host.backEnd st v.cpu.pc i g with
      -- an ordinary instruction never makes the host fault
      | fault =>
        rw [outcome] at follows
        exact follows.elim
      | depart d g' =>
        rw [outcome] at follows
        obtain ⟨u, reached, mirrors', leads⟩ := follows
        refine ⟨d, g', by simp only [blockEffect, fetched, outcome], ?_⟩
        -- the block leaves before the instruction, to be interpreted, or behind it
        rcases reached with ⟨rfl, stays⟩ | steps
        · exact ⟨run, ends, Nat.le_refl n, fun goes => (by cases stays.symm.trans goes), mirrors', leads⟩
        · obtain ⟨n', rfl, ends'⟩ := ends.steps steps
          exact ⟨run.tail steps, ends', Nat.le_succ n', fun _ => Nat.lt_succ_self n', mirrors', leads⟩
      | next g' =>
        rw [outcome] at follows
        obtain ⟨v', steps, mirrors', here⟩ := follows
        obtain ⟨n', rfl, ends'⟩ := ends.steps steps
        cases stepping : st.singleStep with
        | true =>
          -- single stepping looks the successor up in the table
          have table := regular.behind (.inl stepping) v' steps here
          refine ⟨.exit .singleStep v'.cpu.pc, g', ?_, ?_⟩
          · simp only [blockEffect, fetched, outcome, stepping, if_true, here]
          rw [← here] at table
          exact ⟨run.tail steps, ends', Nat.le_succ n', fun _ => Nat.lt_succ_self n', mirrors',
            .again rfl table⟩
        | false =>
          have aligned' : v'.cpu.pc &&& 3 = 0 := by
            rw [here]
            exact aligned_add aligned 1
          rw [← here] at absent
          obtain ⟨d, g'', departs, catches⟩ :=
            ih (run.tail steps) ends' mirrors' aligned' absent (Nat.lt_of_succ_lt_succ enough)
          refine ⟨d, g'', ?_, catches.mono (Nat.le_succ n')⟩
          rw [← departs, here]
          simp only [blockEffect, fetched, outcome, stepping, Bool.false_eq_true, if_false]

theorem Leads.of_exit {u : VmState} {reason : ArchExitReason} {pc : Word}
    (leads : Leads st u (.exit reason pc)) : pc = u.cpu.pc ∧
      ((reason.again = true ∧ InTable st.maxBlockCount u.cpu.pc) ∨
        (reason.fallsBack = true ∧ ∀ u', Steps u u' → InTable st.maxBlockCount u'.cpu.pc) ∨
        ∃ reported e, reason.exitReason = some reported ∧ Counted reported e ∧
          step u = .ok (false, { u with exit := { u.exit with reason := e } })) := by
  cases leads with
  | again kind table => exact ⟨rfl, .inl ⟨kind, table⟩⟩
  | fallsBack kind table => exact ⟨rfl, .inr (.inl ⟨kind, table⟩)⟩
  | leaves kind counted stops => exact ⟨rfl, .inr (.inr ⟨_, _, kind, counted, stops⟩)⟩

theorem Leads.of_enter {u : VmState} {offset : BitVec 32} (leads : Leads st u (.enter offset)) :
    InTable st.maxBlockCount u.cpu.pc ∧ offset = st.blockToOffset (u.cpu.pc.toNat / 4) ∧ offset ≠ 0 := by
  cases leads with
  | enter table published => exact ⟨table, rfl, published⟩

end Blocks

theorem Unremarkable.transfer {host : Host} {st st' : Setting} {vm : VmState}
    (same : Unremarkable host st vm) (flags : st'.flags = st.flags)
    (limit : st'.maxBlockCount = st.maxBlockCount) (stepping : st'.singleStep = st.singleStep) :
    Unremarkable host st' vm := by
  obtain ⟨checks, padding, bounds, regular⟩ := same
  refine ⟨?_, padding, ?_, ?_⟩
  · rw [flags]
    exact checks
  · rw [limit]
    exact bounds
  · rw [limit, stepping]
    exact regular

/-! ### Buffers -/

section Buffers

variable {arch : Arch} {vm : VmState} {size : Word} {singleStep : Bool} {buffer buffer' : Buffer arch}

/-- The published blocks were compiled from the code that the run from `vm` executes. -/
def Current (vm : VmState) (buffer : Buffer arch) : Prop :=
  ∀ index < buffer.maxBlocks.toNat, buffer.blockToOffset index ≠ 0 → ∀ block,
    buffer.written (buffer.blockToOffset index) = some (.block block) → HoldsCode vm block.memory

theorem Current.insert (current : Current vm buffer) (genuine : GenuineBuffer singleStep size buffer)
    {pc : Word} {memory : Memory} (holds : HoldsCode vm memory) {code : arch.Code} {offset : BitVec 32}
    (inserted : buffer.insert pc (arch.codeSize code) (.block ⟨code, pc, memory⟩) = .ok (offset, buffer')) :
    Current vm buffer' ∧ ∀ block, buffer'.written offset = some (.block block) → HoldsCode vm block.memory :=
  genuine.insert_compiledFrom current holds inserted

end Buffers

/-! ### Runs -/

/-- A result of `Vm::run` next to one of `Vm::run_interpreter`. -/
structure SameResult (vm final : VmState) : Prop where
  memory : vm.memory = final.memory
  cpu : vm.cpu = final.cpu
  reason : Counted vm.exit.reason final.exit.reason
  faultyAddress : vm.exit.faultyAddress = final.exit.faultyAddress
  targetRegister : vm.exit.targetRegister = final.exit.targetRegister

/-- A place of a run next to the interpreter's run from `vm` to `final`, of which `n` steps are left. -/
inductive Beside {arch : Arch} (vm final : VmState) (n : Nat) : Config arch → Prop
  | lookup {v buffer} (run : Run vm v) (ends : EndsIn final n v) (table : buffer.Admits v.cpu.pc) :
      Beside vm final n (.lookup v buffer)
  | compile {v buffer} (run : Run vm v) (ends : EndsIn final n v) (table : buffer.Admits v.cpu.pc) :
      Beside vm final n (.compile v buffer)
  | inside {v buffer block s} (run : Run vm v) (ends : EndsIn final n v) (aligned : v.cpu.pc &&& 3 = 0)
      (mirrors : Mirrors (arch.guest s) v) (here : block.pc = v.cpu.pc) (holds : HoldsCode vm block.memory) :
      Beside vm final n (.inside vm.exit buffer block s)
  | fallBack {v buffer} (run : Run vm v) (ends : EndsIn final n v)
      (table : ∀ v', Steps v v' → buffer.Admits v'.cpu.pc) : Beside vm final n (.fallBack v buffer)
  | stopped {v buffer} (same : SameResult v final) : Beside vm final n (.stopped v buffer)

/-- What holds of a place next to the interpreter's run. -/
structure Tracks (host : Host) (build : Build) (vm final : VmState) (n : Nat) (c : Config host.arch) :
    Prop where
  sound : Sound host.refines build vm.memory.size c
  same : Unremarkable host (build.setting c.buffer) vm
  current : Current vm c.buffer
  beside : Beside vm final n c

/-- The places between two steps of the interpreter, in the order they are passed. -/
def Config.rank {arch : Arch} : Config arch → Nat
  | .lookup _ _ => 4
  | .compile _ _ => 3
  | .inside _ _ _ _ => 2
  | .fallBack _ _ => 1
  | .stopped _ _ => 0

/-- A reason has one of the three meanings for the run loop (`kinds`), and one only. -/
theorem ArchExitReason.again_fallsBack (reason : ArchExitReason) :
    ¬(reason.again = true ∧ reason.fallsBack = true) := by
  cases reason <;> decide

theorem ArchExitReason.again_exitReason (reason : ArchExitReason) (again : reason.again = true) :
    reason.exitReason = none := by
  revert again
  cases reason <;> decide

theorem ArchExitReason.fallsBack_exitReason (reason : ArchExitReason) (fallsBack : reason.fallsBack = true) :
    reason.exitReason = none := by
  revert fallsBack
  cases reason <;> decide

section Runs

variable {host : Host} {build : Build} {vm final : VmState} {n : Nat}

/-- The code that is entered does what the interpreter does next. -/
theorem Tracks.catches {exit : Exit} {buffer : Buffer host.arch} {block : CompiledBlock host.arch.Code}
    {s : host.arch.State} (tracks : Tracks host build vm final n (.inside exit buffer block s)) :
    exit = vm.exit ∧ ∃ d g, blockEffect host.backEnd (build.setting buffer) block.memory
      (blockFuel block.memory) block.pc (host.arch.guest s) = .depart d g ∧
        Catches (build.setting buffer) vm final n d g := by
  obtain ⟨sound, same, current, beside⟩ := tracks
  cases beside with
  | inside run ends aligned mirrors here holds =>
    obtain ⟨k, enough, absent⟩ := exists_unfetchable block.memory block.pc
    rw [here] at absent ⊢
    exact ⟨rfl, blockEffect_follows same holds run ends mirrors aligned absent enough⟩

/-- The guest behind generated code, as the run loop sees it, is the interpreter's. -/
theorem Mirrors.toVm {g : Guest} {u : VmState} (mirrors : Mirrors g u) (run : Run vm u) :
    g.toVm u.cpu.pc vm.exit = u := by
  rw [← Interpreter.run_exit run]
  exact mirrors

/-- Behind a return of generated code the run loop has a state of the interpreter. -/
theorem Tracks.returned {exit : Exit} {buffer : Buffer host.arch} {block : CompiledBlock host.arch.Code}
    {s s' : host.arch.State} {reason : ArchExitReason}
    (tracks : Tracks host build vm final n (.inside exit buffer block s))
    (ran : host.arch.run (build.env buffer) block.code s = some (none, s'))
    (code : host.arch.exitReason s' = reason.code) :
    ∃ u n', exit = u.exit ∧ (host.arch.guest s').toVm (host.arch.exitPc s') exit = u ∧ Run vm u ∧
      EndsIn final n' u ∧ n' ≤ n ∧ (reason.again = true → n' < n) ∧
      Leads (build.setting buffer) u (.exit reason u.cpu.pc) := by
  obtain ⟨rfl, d, g, outcome, catches⟩ := tracks.catches
  -- what the machine reports is what the block's effect says
  obtain ⟨reason', outcome', code', -⟩ := tracks.sound.returned ran
  cases ArchExitReason.code_injective (code.symm.trans code')
  cases outcome.symm.trans outcome'
  obtain ⟨run, ends, fewer, further, mirrors, leads⟩ := catches
  have at_pc := leads.of_exit.1
  rw [at_pc] at leads ⊢
  exact ⟨_, _, (Interpreter.run_exit run).symm, mirrors.toVm run, run, ends, fewer, further, leads⟩

/-- Every step of a run makes up for steps of the interpreter or comes closer to it. -/
theorem Tracks.descends {c c' : Config host.arch} (tracks : Tracks host build vm final n c)
    (unmodified : ∀ v, Run vm v → HoldsCode vm v.memory) (next : Next host.arch build c c') :
    ∃ n', Tracks host build vm final n' c' ∧ (n' < n ∨ n' = n ∧ c'.rank < c.rank) := by
  have sound' := tracks.sound.next next
  cases next with
  -- a lookup, a compilation and an entry take no guest step: the rank falls
  | @hit v buffer offset block leftover found here =>
    obtain ⟨⟨genuine, serves⟩, same, current, beside⟩ := tracks
    cases beside with
    | lookup run ends table =>
      obtain ⟨block', here', at_pc, -⟩ := genuine.of_get found
      cases here.symm.trans here'
      obtain ⟨rfl, published⟩ := CodeBuffer.get_eq_some found
      have holds := current _ table.2 published block here
      refine ⟨n, ⟨sound', same, current, ?_⟩, .inr ⟨rfl, (by decide : 2 < 4)⟩⟩
      rw [Interpreter.run_exit run]
      refine .inside run ends table.1 ?_ at_pc holds
      rw [(host.refines.enter leftover serves).2]
      exact mirrors_guestOf v
  | miss absent =>
    obtain ⟨-, same, current, beside⟩ := tracks
    cases beside with
    | lookup run ends table =>
      exact ⟨n, ⟨sound', same, current, .compile run ends table⟩, .inr ⟨rfl, Nat.lt_succ_self 3⟩⟩
  | @compiled v buffer code offset buffer' block leftover generated inserted here =>
    obtain ⟨⟨genuine, serves⟩, same, current, beside⟩ := tracks
    cases beside with
    | compile run ends table =>
      obtain ⟨-, maxBlocks, flags, block', here', at_pc, -⟩ := genuine.insert generated serves.size inserted
      cases here.symm.trans here'
      obtain ⟨current', holds⟩ := current.insert genuine (unmodified v run) inserted
      have same' : Unremarkable host (build.setting buffer') vm := same.transfer flags maxBlocks rfl
      refine ⟨n, ⟨sound', same', current', ?_⟩, .inr ⟨rfl, Nat.lt_succ_self 2⟩⟩
      rw [Interpreter.run_exit run]
      refine .inside run ends table.1 ?_ at_pc (holds block here)
      rw [(host.refines.enter leftover (serves.transfer maxBlocks)).2]
      exact mirrors_guestOf v
  -- a jump to another block comes behind at least one guest step: the steps left become fewer
  | @chain exit buffer block s s' offset block' ran here =>
    obtain ⟨rfl, d, g, outcome, catches⟩ := tracks.catches
    cases outcome.symm.trans (tracks.sound.jumped ran).1
    obtain ⟨⟨genuine, -⟩, same, current, -⟩ := tracks
    obtain ⟨run, ends, fewer, further, mirrors, leads⟩ := catches
    obtain ⟨table, rfl, published⟩ := leads.of_enter
    obtain ⟨block'', here', at_pc, -⟩ := genuine.published _ table.2 published
    cases here.symm.trans here'
    have at_pc : block'.pc = _ := BitVec.eq_of_toNat_eq (at_pc.trans (CodeBuffer.toNat_of_aligned table.1).symm)
    have holds := current _ table.2 published block' here
    exact ⟨_, ⟨sound', same, current, .inside run ends table.1 mirrors at_pc holds⟩, .inl (further rfl)⟩
  -- so does an exit the executor answers by a lookup
  | again reason kind ran code =>
    obtain ⟨u, n', -, place, run, ends, fewer, further, leads⟩ := tracks.returned ran code
    rw [place] at sound' ⊢
    rcases leads.of_exit with ⟨-, ⟨-, table⟩ | ⟨other, -⟩ | ⟨_, _, other, -⟩⟩
    · exact ⟨n', ⟨sound', tracks.same, tracks.current, .lookup run ends table⟩, .inl (further kind)⟩
    · exact absurd ⟨kind, other⟩ reason.again_fallsBack
    · cases (reason.again_exitReason kind).symm.trans other
  -- a fall back may come before any step, but the interpreter then takes one
  | fallsBack reason kind ran code =>
    obtain ⟨u, n', -, place, run, ends, fewer, further, leads⟩ := tracks.returned ran code
    rw [place] at sound' ⊢
    have lower : n' < n ∨ n' = n ∧ 1 < 2 := by omega
    rcases leads.of_exit with ⟨-, ⟨other, -⟩ | ⟨-, table⟩ | ⟨_, _, other, -⟩⟩
    · exact absurd ⟨other, kind⟩ reason.again_fallsBack
    · exact ⟨n', ⟨sound', tracks.same, tracks.current, .fallBack run ends table⟩, lower⟩
    · cases (reason.fallsBack_exitReason kind).symm.trans other
  | @leaves exit buffer block s s' reported reason kind ran code =>
    obtain ⟨u, n', rfl, place, run, ends, fewer, further, leads⟩ := tracks.returned ran code
    have lower : n' < n ∨ n' = n ∧ 0 < 2 := by omega
    rcases leads.of_exit with ⟨-, ⟨other, -⟩ | ⟨other, -⟩ | ⟨reported', e, same, counted, stops⟩⟩
    · cases (reason.again_exitReason other).symm.trans kind
    · cases (reason.fallsBack_exitReason other).symm.trans kind
    · cases kind.symm.trans same
      -- the interpreter stops in the same state, as its last step is the one reported
      cases ends.stops stops
      refine ⟨n', ⟨sound', tracks.same, tracks.current, .stopped ?_⟩, lower⟩
      have memory : (host.arch.guest s').memory = u.memory := congrArg VmState.memory place
      have cpu : (host.arch.guest s').registers.set Register.pc (host.arch.exitPc s') = u.cpu :=
        congrArg VmState.cpu place
      exact ⟨memory, cpu, counted, rfl, rfl⟩
  | resumed stepped =>
    obtain ⟨-, same, current, beside⟩ := tracks
    cases beside with
    | fallBack run ends table =>
      obtain ⟨n', rfl, ends'⟩ := ends.steps stepped
      exact ⟨n', ⟨sound', same, current, .lookup (run.tail stepped) ends' (table _ stepped)⟩,
        .inl (Nat.lt_succ_self n')⟩
  | refused stepped =>
    obtain ⟨-, same, current, beside⟩ := tracks
    cases beside with
    | fallBack run ends table =>
      cases ends.stops stepped
      exact ⟨n, ⟨sound', same, current, .stopped ⟨rfl, rfl, .inl rfl, rfl, rfl⟩⟩,
        .inr ⟨rfl, Nat.zero_lt_one⟩⟩

/-! ### Where the executor gives up -/

/-- The x64 generator finds no code for an instruction of the block at `pc`. -/
def Host.Lacks (host : Host) (flags : CodeBufferFlags) (limit : Word) (memory : Memory) (singleStep : Bool)
    (pc : Word) : Prop :=
  match host with
  | .x64 .. => ∃ is e, Stretch memory (Terminates X64.CompilesToUnsupported) singleStep pc is e ∧
      ∃ i ∈ is, ¬X64.Compilable ⟨memory, flags, limit, singleStep, pc⟩ i
  | .aarch64 .. => False

/-- The executor can not compile a block, or has no room for its code in the buffer. -/
def GivesUp (host : Host) (build : Build) : Config host.arch → Prop
  | .compile vm buffer =>
    host.Lacks buffer.flags buffer.maxBlocks vm.memory build.singleStep vm.cpu.pc ∨
      ∃ code, host.arch.generateBlockCode buffer.flags buffer.maxBlocks vm.memory build.singleStep
          vm.cpu.pc = .ok code ∧
        buffer.size < CodeBuffer.alignedOffset buffer.nextFreeOffset + host.arch.codeSize code
  | _ => False

theorem lacks_of_error {flags : CodeBufferFlags} {limit : Word} {memory : Memory} {singleStep : Bool}
    {pc : Word} {e : Abort}
    (failed : host.arch.generateBlockCode flags limit memory singleStep pc = .error e) :
    host.Lacks flags limit memory singleStep pc := by
  cases host with
  | x64 codeSize codeSize_pos => exact X64.CodeGenerator.generateCode_fails _ failed
  | aarch64 platform codeSize codeSize_pos =>
    obtain ⟨code, generated⟩ :=
      Aarch64.arch_generates platform codeSize codeSize_pos flags limit memory singleStep pc
    cases failed.symm.trans generated

/-- Insertion at an address of the table fails for want of room only. -/
theorem full_of_error {ρ : Type} {buffer : CodeBuffer ρ} {pc : Word} {length : Nat} {code : ρ} {e : Abort}
    (admits : buffer.Admits pc) (failed : buffer.insert pc length code = .error e) :
    buffer.size < CodeBuffer.alignedOffset buffer.nextFreeOffset + length := by
  unfold CodeBuffer.insert at failed
  rw [if_neg (fun misaligned => misaligned admits.1), CodeBuffer.get_of_admits admits] at failed
  by_contra room
  by_cases published : buffer.blockToOffset (pc.toNat / 4) ≠ 0
  · rw [if_pos published] at failed
    cases failed
  · rw [if_neg published] at failed
    simp only [bind, Except.bind, CodeBuffer.allocateExecutableMemory, Nat.le_of_not_lt room, if_true] at failed
    cases failed

/-- A run that tracks the interpreter has returned, gives up or goes on. -/
theorem Tracks.goesOn {c : Config host.arch} (tracks : Tracks host build vm final n c) :
    (∃ c', Next host.arch build c c') ∨ Returned c ∨ GivesUp host build c := by
  have leftover := host.nonempty_leftover
  rcases tracks.sound.goesOn with returned | aborts | next
  · exact .inr (.inl returned)
  · refine .inr (.inr ?_)
    cases c with
    -- the address is in the table
    | lookup v buffer =>
      obtain ⟨e, failed⟩ := aborts
      cases tracks.beside with
      | lookup run ends table => cases failed.symm.trans (CodeBuffer.get_of_admits table)
    -- no code for a block, or no room for it: the two ways to give up
    | compile v buffer =>
      cases tracks.beside with
      | compile run ends table =>
        rcases aborts with ⟨e, failed⟩ | ⟨code, e, generated, failed⟩
        · exact .inl (lacks_of_error failed)
        · exact .inr ⟨code, generated, full_of_error table failed⟩
    -- the block departs, so the machine does not fault in it
    | inside exit buffer block s =>
      obtain ⟨-, d, g, outcome, -⟩ := tracks.catches
      have performs := tracks.sound.performs
      rw [outcome] at performs
      cases d with
      | exit reason pc =>
        obtain ⟨s', ran, -⟩ := performs
        cases ran.symm.trans aborts
      | enter offset =>
        obtain ⟨s', ran, -⟩ := performs
        cases ran.symm.trans aborts
    | fallBack v buffer =>
      obtain ⟨e, failed⟩ := aborts
      cases tracks.beside with
      | fallBack run ends table =>
        obtain ⟨result, stepped⟩ := ends.stepped
        cases failed.symm.trans stepped
    | stopped v buffer => exact aborts.elim
  · exact .inl next

end Runs

/-! ### The engines agree -/

/-- A run that returned the interpreter's result. -/
def ReturnsAs {arch : Arch} (final : VmState) : Config arch → Prop
  | .stopped vm _ => SameResult vm final
  | _ => False

/-- `Vm::run` comes to an end however it goes on, and where it ends it has returned the result
of the interpreter, or the end is `excused`. -/
structure Agrees (host : Host) (build : Build) (vm final : VmState) (buffer : Buffer host.arch)
    (excused : Config host.arch → Prop) : Prop where
  terminates : Acc (fun c' c => Next host.arch build c c') (.lookup vm buffer)
  returns : ∀ c, Runs host.arch build (.lookup vm buffer) c →
    (∃ c', Next host.arch build c c') ∨ ReturnsAs final c ∨ excused c

/-- What the two engines are compared on: the executor's objects lie where they do not overlap,
the buffer is new or holds blocks of this program, all executable bytes lie below its limit, and
the program does not change the code it executes. -/
structure Comparable (host : Host) (build : Build) (vm : VmState) (buffer : Buffer host.arch) : Prop where
  starts : Starts build vm buffer
  admitted : buffer.Admits vm.cpu.pc
  reached : vm.memory.Reachable
  covered : ∀ j, Interpreter.Grants vm.memory MemoryFlags.execute j → j < 4 * buffer.maxBlocks.toNat
  current : Current vm buffer
  unmodified : ∀ v, Run vm v → HoldsCode vm v.memory

section Comparable

variable {host : Host} {build : Build} {vm final v : VmState} {buffer : Buffer host.arch}

theorem Comparable.moderate (comparable : Comparable host build vm buffer) :
    vm.memory.size.toNat ≤ 2 ^ 63 := comparable.starts.moderate

theorem Comparable.isolated (comparable : Comparable host build vm buffer) (run : Run vm v) :
    Interpreter.Isolated vm v := by
  have aligned := CodeBuffer.toNat_of_aligned comparable.admitted.1
  have even : vm.cpu.pc.toNat % 2 = 0 := by omega
  exact (Interpreter.Isolated.refl comparable.starts.zero even).run comparable.moderate run

/-- The permissions stay, and with them what can be fetched. -/
theorem Comparable.unremarkable (comparable : Comparable host build vm buffer)
    (checks : buffer.flags.skipPermissionChecks = false)
    (regular : ∀ v i, Run vm v → Interpreter.fetched v = some i →
      Regular host build.singleStep buffer.maxBlocks v i) :
    Unremarkable host (build.setting buffer) vm where
  checks := checks
  padding v run i behind := by
    have isolated := comparable.isolated run
    rw [isolated.permissions]
    exact comparable.reached.paddingClear i (by rwa [← isolated.size])
  bounds v run pc outside := by
    have isolated := comparable.isolated run
    have moderate := comparable.moderate
    rw [← isolated.size] at moderate
    cases read : v.memory.readT 4 pc MemoryFlags.execute with
    | none =>
      unfold codeAt
      rw [read, Option.map_none]
    | some w =>
      obtain ⟨inside, granted⟩ := (Interpreter.grants_of_readT moderate (by decide) read).1 0 (by decide)
      rw [isolated.size] at inside
      rw [isolated.permissions] at granted
      -- executable memory ends before the table does
      have below := comparable.covered _ ⟨inside, granted⟩
      have outside : buffer.maxBlocks.toNat ≤ pc.toNat / 4 := outside
      omega
  regular := regular

/-- The run with generated code starts next to the interpreter's. -/
theorem Comparable.tracks {vm final : VmState} {buffer : Buffer host.arch}
    (comparable : Comparable host build vm buffer) (checks : buffer.flags.skipPermissionChecks = false)
    (regular : ∀ v i, Run vm v → Interpreter.fetched v = some i →
      Regular host build.singleStep buffer.maxBlocks v i)
    (returns : Interpreter.Returns vm final) : ∃ n, Tracks host build vm final n (.lookup vm buffer) := by
  obtain ⟨n, ends⟩ := returns.endsIn
  exact ⟨n, comparable.starts.sound host.refines, comparable.unremarkable checks regular, comparable.current,
    .lookup .refl ends comparable.admitted⟩

/-- What starts next to the interpreter's run ends like it. -/
theorem Tracks.agrees {vm final : VmState} {buffer : Buffer host.arch} {n : Nat}
    (start : Tracks host build vm final n (.lookup vm buffer))
    (unmodified : ∀ v, Run vm v → HoldsCode vm v.memory) :
    Agrees host build vm final buffer (GivesUp host build) := by
  have descends : RankedSimulation.Descends (Next host.arch build) Config.rank
      (Tracks host build vm final) := fun tracks next => tracks.descends unmodified next
  -- the pair of guest steps left and rank descends, so every run ends
  refine ⟨descends.acc start, fun c run => ?_⟩
  obtain ⟨n', tracks⟩ := descends.run start run
  rcases tracks.goesOn with next | returned | gives
  · exact .inl next
  · cases c with
    | stopped vm' buffer' =>
      cases tracks.beside with
      | stopped same => exact .inr (.inl same)
    | _ => exact returned.elim
  · exact .inr (.inr gives)

/-- The engines agree as long as the program comes to none of the instructions they treat
differently. -/
theorem run_agrees (host : Host) (build : Build) {vm final : VmState} {buffer : Buffer host.arch}
    (comparable : Comparable host build vm buffer)
    (checks : buffer.flags.skipPermissionChecks = false)
    (regular : ∀ v i, Run vm v → Interpreter.fetched v = some i →
      Regular host build.singleStep buffer.maxBlocks v i)
    (returns : Interpreter.Returns vm final) : Agrees host build vm final buffer (GivesUp host build) := by
  obtain ⟨n, start⟩ := comparable.tracks checks regular returns
  exact start.agrees comparable.unmodified

end Comparable

/-- A run that stops at once comes to no other state. -/
theorem run_of_stops {vm v final : VmState} (stops : step vm = .ok (false, final)) (run : Run vm v) :
    v = vm := by
  rcases run.cases_head with rfl | ⟨w, steps, -⟩
  · rfl
  · cases stops.symm.trans steps

/-! ### A program the engines agree on -/

namespace Counting

theorem run_cases {v : VmState} (run : Run vm v) : v = vm ∨ v = counted := by
  rcases run.cases_head with rfl | ⟨w, first, rest⟩
  · exact .inl rfl
  · cases steps.symm.trans first
    exact .inr (run_of_stops stops rest)

theorem holdsCode {v : VmState} (run : Run vm v) : HoldsCode vm v.memory := by
  intro w run' aligned
  rcases run_cases run with rfl | rfl <;> rcases run_cases run' with rfl | rfl <;> rfl

theorem comparable (singleStep : Bool) : Comparable host (build singleStep) vm buffer where
  starts := starts singleStep
  admitted := by decide
  reached := .ofImage (by decide)
  covered j granted := by
    by_contra outside
    have behind : memory.permissions j = 0 :=
      Memory.permissions_ofImage 16 _ _ _ (Nat.le_of_not_lt outside)
    have granted : memory.permissions j &&& MemoryFlags.execute = MemoryFlags.execute := granted.2
    rw [behind] at granted
    exact absurd granted (by decide)
  current index inside published := absurd rfl published
  unmodified v run := holdsCode run

/-- An addition or a system call, with the word behind it in the table. -/
theorem regular_of_type {singleStep : Bool} {limit : Word} {v : VmState} {i : Instruction}
    (types : i.type = .addi ∨ i.type = .ecall) (behind : ∀ v', Steps v v' → InTable limit (v.cpu.pc + 4)) :
    Regular host singleStep limit v i := by
  have agrees : Interpreter.AgreesWithIsa i v.cpu := by
    unfold Interpreter.AgreesWithIsa
    rcases types with type | type <;> rw [type] <;> trivial
  obtain ⟨load, direct, product, indirect⟩ : isLoad i.type = false ∧ isDirect i.type = false ∧
      i.type ≠ .mulw ∧ i.type ≠ .jalr := by
    rcases types with type | type <;> rw [type] <;> decide
  exact ⟨fun _ => ⟨agrees, fun mulw => absurd mulw product, fun _ _ x64 => (by cases x64)⟩,
    fun kind => absurd (load.symm.trans kind) Bool.false_ne_true, fun jalr => absurd jalr indirect,
    fun kind => absurd (direct.symm.trans kind) Bool.false_ne_true, fun _ v' steps _ => behind v' steps⟩

theorem regular (singleStep : Bool) {v : VmState} {i : Instruction} (run : Run vm v)
    (fetch : Interpreter.fetched v = some i) : Regular host singleStep buffer.maxBlocks v i := by
  -- only the first instruction goes on, and the second one is in the table
  rcases run_cases run with rfl | rfl
  · cases fetch.symm.trans (show Interpreter.fetched vm = some (.ofWord 0x00500093) by decide)
    exact regular_of_type (.inl (by decide)) fun _ _ => ⟨rfl, by decide⟩
  · cases fetch.symm.trans (show Interpreter.fetched counted = some (.ofWord 0x00000073) by decide)
    exact regular_of_type (.inr (by decide)) fun v' steps => by cases stops.symm.trans steps

end Counting

/-- The engines agree on the program that counts to five. -/
theorem run_agrees_addi : ∃ (host : Host) (build : Build) (vm final : VmState) (buffer : Buffer host.arch),
    final.cpu.get 1 = 5 ∧ Agrees host build vm final buffer (GivesUp host build) :=
  ⟨Counting.host, Counting.build false, Counting.vm, _, Counting.buffer, rfl,
    run_agrees Counting.host (Counting.build false) (Counting.comparable false) rfl
      (fun _ _ run fetch => Counting.regular false run fetch) ⟨_, .single Counting.steps, Counting.stops⟩⟩

/-! ### A program in memory that is not readable -/

/-- The divisor of a division or remainder, in the width of the instruction. -/
def divisorIsZero (type : InstructionType) (b : Word) : Prop :=
  if type = .divw ∨ type = .divuw ∨ type = .remw ∨ type = .remuw then Isa.low b = 0 else b = 0

/-- No instruction for the upper half of a product lies in the code, and the run does not divide
by zero. -/
structure Ordinary (vm : VmState) : Prop where
  products : ∀ pc i, codeAt vm.memory pc = some i → i.type ∉ [.mulh, .mulhu, .mulhsu]
  divisors : ∀ v i, Run vm v → Interpreter.fetched v = some i → isDivision i.type = true →
    ¬divisorIsZero i.type (v.cpu.get i.rs2)

namespace Unreadable

/-- `lb x1, 0(x0)`, which loads its own first byte. -/
def memory : Memory := Memory.ofImage 16 Overwrite.size_lt [0x83, 0x00, 0x00, 0x00] MemoryFlags.execute

def vm : VmState := ⟨memory, ⟨fun _ => 0⟩, {}⟩

def buffer : Buffer Overwrite.host.arch := CodeBuffer.create ⟨false, true⟩ (2 ^ 20) Overwrite.capacity_le 16

/-- The interpreter reports the fault. -/
theorem stops : step vm = .ok (false, { vm with exit := ⟨.memoryReadFault, 0, 1⟩ }) := rfl

theorem executable {j : Nat} (granted : Interpreter.Grants memory MemoryFlags.execute j) : j < 4 := by
  by_contra outside
  have behind : memory.permissions j = 0 :=
    Memory.permissions_ofImage 16 _ _ _ (Nat.le_of_not_lt outside)
  have granted := granted.2
  rw [behind] at granted
  exact absurd granted (by decide)

theorem comparable : Comparable Overwrite.host Overwrite.build vm buffer where
  starts := by
    refine ⟨genuine_create _ _ _ _ _, rfl, ?_⟩
    have extent : (guestOf vm).extent = 2 * memory.permissionsOffset := rfl
    rw [extent]
    constructor <;> decide
  admitted := by decide
  reached := .ofImage (by decide)
  covered j granted := Nat.lt_of_lt_of_le (executable granted) (by decide)
  current index inside published := absurd rfl published
  unmodified v run := by
    cases run_of_stops stops run
    intro w run' aligned
    cases run_of_stops stops run'
    rfl

theorem ordinary : Ordinary vm where
  products pc i fetched := by
    obtain ⟨w, read, -⟩ := Option.map_eq_some_iff.mp fetched
    have last := (Interpreter.grants_of_readT (by decide) (by decide) read).1 3 (by decide)
    have below := executable last
    have first : pc = 0 := BitVec.eq_of_toNat_eq (show pc.toNat = 0 by omega)
    subst first
    cases fetched.symm.trans (show codeAt memory 0 = some (.ofWord 0x00000083) by decide)
    decide
  divisors v i run fetch division := by
    cases run_of_stops stops run
    cases fetch.symm.trans (show Interpreter.fetched vm = some (.ofWord 0x00000083) by decide)
    exact absurd division (by decide)

/-- The guest behind the load. -/
def loaded : Guest := (guestOf vm).setRegister 1 ((guestOf vm).loaded .lb 0)

theorem effect_lb (st : Setting) (skips : st.flags.skipPermissionChecks = true) :
    effect Overwrite.host.backEnd st 0 (.ofWord 0x00000083) (guestOf vm) = .next loaded := by
  have accepted : st.accessAllowed memory 0 MemoryFlags.read 0 = true := by
    unfold Setting.accessAllowed
    rw [skips]
    decide
  rw [effect_load _ _ _ _ (by decide), if_neg (by decide)]
  exact if_pos accepted

theorem outcome (st : Setting) (skips : st.flags.skipPermissionChecks = true) (running : st.singleStep = false) :
    blockEffect Overwrite.host.backEnd st memory (blockFuel memory) 0 (guestOf vm)
      = .depart (.exit .instructionFetchFault 4) loaded := by
  have fuel : blockFuel memory = 6 := by decide
  have first : codeAt memory 0 = some (.ofWord 0x00000083) := by decide
  have behind : codeAt memory (0 + 4) = none := by decide
  rw [fuel]
  simp only [blockEffect, first, effect_lb st skips, running, behind, Bool.false_eq_true, if_false]
  rfl

end Unreadable

/-- With `SkipPermissionChecks` the load the interpreter refuses is made. -/
theorem run_differs_unchecked : ¬∀ (host : Host) (build : Build) (vm final : VmState)
    (buffer : Buffer host.arch), Comparable host build vm buffer → Ordinary vm →
    Interpreter.Returns vm final → Agrees host build vm final buffer fun _ => False := fun claim => by
  have agrees := claim Overwrite.host Overwrite.build Unreadable.vm _ Unreadable.buffer
    Unreadable.comparable Unreadable.ordinary ⟨_, .refl, Unreadable.stops⟩
  obtain ⟨code, generated⟩ : ∃ code,
      Overwrite.host.arch.generateBlockCode ⟨false, true⟩ 4 Unreadable.memory false 0 = .ok code := ⟨_, rfl⟩
  have start := Unreadable.comparable.starts.sound Overwrite.host.refines
  obtain ⟨-, buffer', s, miss, compiled, -, -, before, flags, -⟩ := start.enters (fun _ => (0 : Word))
    (show Unreadable.buffer.Admits 0 by decide) rfl generated
    (show CodeBuffer.alignedOffset 16 + 1 ≤ 2 ^ 20 by decide)
  have run := (Relation.ReflTransGen.single miss).tail compiled
  -- without permission checks the emitted load reads what the interpreter refuses
  obtain ⟨s', ran, reason, -⟩ := (start.run run).exits (by
    rw [before]
    exact Unreadable.outcome _ (congrArg CodeBufferFlags.skipPermissionChecks flags) rfl)
  rcases agrees.returns _ (run.tail (.leaves .instructionFetchFault rfl ran reason)) with
    ⟨c, next⟩ | ⟨-, -, counted, -, -⟩ | excused
  · cases next
  · rcases counted with same | ⟨same, -⟩ <;> cases same
  · exact excused

end Jit

end Riscv64Emulator
