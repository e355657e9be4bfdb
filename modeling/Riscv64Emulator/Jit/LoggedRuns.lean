import Riscv64Emulator.Jit.Equivalence
import Riscv64Emulator.Jit.Execution
import Riscv64Emulator.Vm.ExecutionLog

/-!
# The log of the executor

With `PRINT_EXECUTION_LOG` the executor compiles block by single instruction, and prints a line
wherever the trampoline comes back. Its log next to the one of `run_interpreter`.
-/
namespace Riscv64Emulator.Jit

open Interpreter (Run Steps step accessAddress)
open ExecutionLog (printExecutionStep)

/-! ### The lines of a run -/

section Log

variable {arch : Arch} {build : Build}

/-- `previous_register_state`, which is saved in front of the trampoline. -/
def saved (previous : RegisterState) : Config arch → Config arch → RegisterState
  | .lookup vm _, .inside .. | .compile vm _, .inside .. => vm.cpu
  | _, _ => previous

/-- What is printed behind the trampoline. The steps of the interpreter are not logged here. -/
def printed (previous : RegisterState) : Config arch → Config arch → List String
  | .inside .., .lookup vm _ | .inside .., .fallBack vm _ | .inside .., .stopped vm _ =>
    [printExecutionStep previous vm.cpu]
  | _, _ => []

variable (arch build) in
/-- The runs of `Vm::run` with the lines they have printed. -/
inductive Logged (vm : VmState) (buffer : Buffer arch) : List String → RegisterState → Config arch → Prop
  | start : Logged vm buffer [] vm.cpu (.lookup vm buffer)
  | next {lines previous c c'} (logged : Logged vm buffer lines previous c) (next : Next arch build c c') :
      Logged vm buffer (lines ++ printed previous c c') (saved previous c c') c'

variable {vm : VmState} {buffer : Buffer arch}

/-- Every run has a log. -/
theorem exists_logged {c : Config arch} (run : Runs arch build (.lookup vm buffer) c) :
    ∃ lines previous, Logged arch build vm buffer lines previous c := by
  induction run with
  | refl => exact ⟨_, _, .start⟩
  | tail _ next ih =>
    obtain ⟨lines, previous, logged⟩ := ih
    exact ⟨_, _, logged.next next⟩

end Log

/-! ### Instructions that are handed back -/

section FallsBack

variable {be : BackEnd} {st : Setting} {pc pc' target : Word} {i : Instruction} {g g₁ g' : Guest}
  {reason : ArchExitReason}

theorem branchTo_goesOn (kind : reason.fallsBack = true) :
    st.branchTo target g ≠ .depart (.exit reason pc') g' := fun same => by
  rcases branchTo_cases same with ⟨-, same⟩ | ⟨-, -, same⟩ | ⟨-, -, same⟩ <;> cases same <;> cases kind

theorem staticBranch_goesOn (kind : reason.fallsBack = true) :
    st.staticBranch pc target g ≠ .depart (.exit reason pc') g' := fun same => by
  unfold Setting.staticBranch at same
  split at same
  · cases same
    cases kind
  · split at same
    · cases same
      cases kind
    · exact branchTo_goesOn kind same

theorem dynamicBranch_goesOn (kind : reason.fallsBack = true) :
    st.dynamicBranch target g ≠ .depart (.exit reason pc') g' := fun same => by
  unfold Setting.dynamicBranch at same
  split at same
  · cases same
    cases kind
  · split at same
    · cases same
      cases kind
    · exact branchTo_goesOn kind same

/-- The instructions there is no code for leave the guest alone. -/
theorem effect_unsupported
    (departs : effect be st pc i g = .depart (.exit .unsupportedInstruction pc') g') :
    pc' = pc ∧ g' = g ∧ (exitReason i.type = some .unsupportedInstruction ∨
      isComputation i.type = true ∧ be.supports i = false) := by
  rcases instruction_family i.type with kind | kind | kind | ⟨reason, kind⟩ | kind | kind | kind | kind
  · -- a load faults at most
    rw [effect_load be st pc g kind] at departs
    split at departs
    · cases departs
    · split at departs <;> cases departs
  · -- a store too
    rw [effect_store be st pc g kind] at departs
    split at departs <;> cases departs
  · -- a branch goes on at its target
    rw [effect_branch be st pc g kind] at departs
    split at departs
    · exact absurd departs (staticBranch_goesOn rfl)
    · cases departs
  · -- the exits name their reasons themselves
    rw [effect_exit be st pc g kind] at departs
    cases departs
    exact ⟨rfl, rfl, .inl kind⟩
  · simp only [effect, kind] at departs
    exact absurd departs (staticBranch_goesOn rfl)
  · simp only [effect, kind] at departs
    exact absurd departs (dynamicBranch_goesOn rfl)
  · simp only [effect, kind] at departs
    cases departs
  · -- a computation the back end has no code for
    rw [effect_computation be st pc g kind] at departs
    split at departs
    · next unsupported =>
      cases departs
      exact ⟨rfl, rfl, .inr ⟨kind, by simpa using unsupported⟩⟩
    · split at departs
      · cases departs
      · cases value : be.value i pc g.registers <;> rw [value] at departs <;> cases departs

end FallsBack

/-- Where the code of one instruction leaves the interpreter. -/
inductive Single (host : Host) (st : Setting) (v : VmState) : Departure → Guest → Prop
  | again {u : VmState} {reason : ArchExitReason} {g : Guest} (kind : reason.again = true)
      (steps : Steps v u) (mirrors : Mirrors g u) (table : InTable st.maxBlockCount u.cpu.pc) :
      Single host st v (.exit reason u.cpu.pc) g
  | fallsBack {reason : ArchExitReason} {g : Guest} (kind : reason.fallsBack = true) (mirrors : Mirrors g v)
      (handed : ∀ v', Steps v v' → InTable st.maxBlockCount v'.cpu.pc ∧
        ∃ i, Interpreter.fetched v = some i ∧ HandedBack host v i) :
      Single host st v (.exit reason v.cpu.pc) g
  | leaves {u : VmState} {reason : ArchExitReason} {g : Guest} {reported e : ExitReason}
      (kind : reason.exitReason = some reported) (counted : Counted reported e)
      (reached : u = v ∨ Steps v u) (mirrors : Mirrors g u)
      (stops : step u = .ok (false, { u with exit := { u.exit with reason := e } })) :
      Single host st v (.exit reason u.cpu.pc) g

section HandedBack

variable {host : Host} {st : Setting} {v v' : VmState} {i : Instruction} {g g' : Guest} {pc : Word}
  {reason : ArchExitReason}

/-- An access that is refused, and that the interpreter makes, is misaligned. -/
theorem misaligned_of_refused {flag : MemoryFlags} (nonzero : flag ≠ 0)
    (checks : st.flags.skipPermissionChecks = false) (clear : v.memory.PaddingClear)
    (refused : st.accessAllowed v.memory (accessLog2 i.type) flag (accessAddress v i) = false)
    (verified : v.memory.verifyPermissions (accessAddress v i) (BitVec.ofNat 64 (2 ^ accessLog2 i.type)) flag
      = true) : (accessAddress v i).toNat % 2 ^ accessLog2 i.type ≠ 0 := fun aligned => by
  have allowed := (Setting.accessAllowed_eq clear (accessLog2_le i.type) nonzero checks).mpr ⟨aligned, verified⟩
  exact Bool.false_ne_true (refused.symm.trans allowed)

theorem handedBack_of_refused (checks : st.flags.skipPermissionChecks = false) (clear : v.memory.PaddingClear)
    {write : Bool} (accessed : accesses write i.type = true)
    (refused : st.accessAllowed v.memory (accessLog2 i.type) (accessFlag write) (accessAddress v i) = false)
    (fetch : Interpreter.fetched v = some i) (steps : Steps v v') : HandedBack host v i := by
  cases write with
  | false =>
    have verified := ((steps_load_iff fetch accessed v').mp steps).1
    exact .inl ⟨.inl accessed, misaligned_of_refused (by decide) checks clear refused verified⟩
  | true =>
    have verified := ((steps_store_iff fetch accessed v').mp steps).1
    exact .inl ⟨.inr accessed, misaligned_of_refused (by decide) checks clear refused verified⟩

/-- What is left to the interpreter, and what it then executes. -/
theorem handedBack_of_fallsBack (mirrors : Mirrors g v) (fetch : Interpreter.fetched v = some i)
    (checks : st.flags.skipPermissionChecks = false) (clear : v.memory.PaddingClear)
    (departs : effect host.backEnd st v.cpu.pc i g = .depart (.exit reason pc) g')
    (kind : reason.fallsBack = true) :
    pc = v.cpu.pc ∧ g' = g ∧ ∀ v', Steps v v' → HandedBack host v i := by
  have access (write : Bool) (departs : effect host.backEnd st v.cpu.pc i g =
      .depart (.exit (accessFault write) pc) g') :
      pc = v.cpu.pc ∧ g' = g ∧ ∀ v', Steps v v' → HandedBack host v i := by
    obtain ⟨accessed, rfl, rfl, refused⟩ := effect_fault departs
    rw [mirrors.memory, mirrors.access] at refused
    exact ⟨rfl, rfl, fun v' steps => handedBack_of_refused checks clear accessed refused fetch steps⟩
  cases reason with
  | memoryReadFault => exact access false departs
  | memoryWriteFault => exact access true departs
  | unsupportedInstruction =>
    obtain ⟨rfl, rfl, product | unsupported⟩ := effect_unsupported departs
    · -- the interpreter gives up at the upper halves of products
      refine ⟨rfl, rfl, fun v' steps => ?_⟩
      have executed := (Interpreter.step_of_fetched fetch).symm.trans steps
      unfold Interpreter.execute at executed
      cases type : i.type <;> simp only [type, exitReason, reduceCtorEq, Option.some.injEq] at product executed
    · exact ⟨rfl, rfl, fun v' steps => .inr unsupported⟩
  | _ => cases kind

theorem Mirrors.eq {g : Guest} {u : VmState} (mirrors : Mirrors g u) (mirrors' : Mirrors g v)
    (pc : u.cpu.pc = v.cpu.pc) (exit : u.exit = v.exit) : u = v := by
  rw [← mirrors, ← mirrors', pc, exit]

/-- An instruction that departs. -/
theorem Single.of_effect (stepping : st.singleStep = true) (mirrors : Mirrors g v)
    (fetch : Interpreter.fetched v = some i) (checks : st.flags.skipPermissionChecks = false)
    (clear : v.memory.PaddingClear) {d : Departure}
    (departs : effect host.backEnd st v.cpu.pc i g = .depart d g') (follows : Follows st v (.depart d g')) :
    Single host st v d g' := by
  obtain ⟨u, reached, mirrors', leads⟩ := follows
  cases leads with
  | enter table published =>
    -- no block jumps to another one
    obtain ⟨target, branch, -⟩ := effect_goesOn departs rfl
    rcases branchTo_cases branch with ⟨-, same⟩ | ⟨-, -, same⟩ | ⟨running, -⟩
    · cases same
    · cases same
    · cases running.symm.trans stepping
  | again kind table =>
    rcases reached with ⟨-, stays⟩ | steps
    · cases kind.symm.trans stays
    · exact .again kind steps mirrors' table
  | fallsBack kind table =>
    obtain ⟨here, rfl, handed⟩ := handedBack_of_fallsBack mirrors fetch checks clear departs kind
    have exit : u.exit = v.exit := by
      rcases reached with ⟨rfl, -⟩ | steps
      · rfl
      · exact Interpreter.run_exit (.single steps)
    obtain rfl := mirrors'.eq mirrors here exit
    exact .fallsBack kind mirrors fun v' steps => ⟨table v' steps, i, fetch, handed v' steps⟩
  | leaves kind counted stops => exact .leaves kind counted (reached.imp And.left id) mirrors' stops

/-- A block is one instruction. -/
theorem single_of_blockEffect {vm : VmState} {m : Memory} (fuel : Nat) (stepping : st.singleStep = true)
    (same : Unremarkable host st vm) (holds : HoldsCode vm m) (run : Run vm v)
    (defined : ∃ result, step v = .ok result) (mirrors : Mirrors g v) (aligned : v.cpu.pc &&& 3 = 0) :
    ∃ d g', blockEffect host.backEnd st m (fuel + 1) v.cpu.pc g = .depart d g' ∧ Single host st v d g' := by
  have code := holds v run aligned
  cases fetched : codeAt m v.cpu.pc with
  | none =>
    -- nothing to fetch: the block is one exit
    refine ⟨.exit .instructionFetchFault v.cpu.pc, g, by simp only [blockEffect, fetched], ?_⟩
    exact .leaves rfl (.inl rfl) (.inl rfl) mirrors (step_unfetchable aligned (code.symm.trans fetched))
  | some i =>
    have fetch : Interpreter.fetched v = some i := by
      rw [fetched_of_codeAt aligned, ← code, fetched]
    -- one instruction, and behind it the exit of single-stepping
    obtain ⟨result, stepped⟩ := defined
    have clear := same.padding v run
    have regular := same.regular v i run fetch
    have follows : Follows st v (effect host.backEnd st v.cpu.pc i g) :=
      follows_effect mirrors fetch stepped same.checks clear (same.bounds v run) regular
    cases outcome : effect host.backEnd st v.cpu.pc i g with
    | fault =>
      rw [outcome] at follows
      exact follows.elim
    | depart d g' =>
      rw [outcome] at follows
      exact ⟨d, g', by simp only [blockEffect, fetched, outcome],
        .of_effect stepping mirrors fetch same.checks clear outcome follows⟩
    | next g' =>
      rw [outcome] at follows
      obtain ⟨v', steps, mirrors', here⟩ := follows
      have table := regular.behind (.inl stepping) v' steps here
      refine ⟨.exit .singleStep v'.cpu.pc, g', ?_, ?_⟩
      · simp only [blockEffect, fetched, outcome, stepping, if_true, here]
      · rw [← here] at table
        exact .again rfl steps mirrors' table

end HandedBack

/-! ### Both logs -/

/-- A step of the interpreter, with the lines of the executor and of `run_interpreter`. An instruction
that is handed back has changed nothing when the executor prints its line. -/
inductive Lines (host : Host) : VmState → String × String → VmState → Prop
  | same {v v'} (steps : Steps v v') :
      Lines host v (printExecutionStep v.cpu v'.cpu, printExecutionStep v.cpu v'.cpu) v'
  | handedBack {v v' i} (steps : Steps v v') (fetch : Interpreter.fetched v = some i)
      (handed : HandedBack host v i) :
      Lines host v (printExecutionStep v.cpu v.cpu, printExecutionStep v.cpu v'.cpu) v'

/-- A run of the interpreter with both logs. -/
abbrev Logs (host : Host) : VmState → List (String × String) → VmState → Prop := LabelledRuns.Run (Lines host)

theorem Lines.steps {host : Host} {v v' : VmState} {lines : String × String} (both : Lines host v lines v') :
    Steps v v' := by
  cases both with
  | same steps => exact steps
  | handedBack steps => exact steps

section Logs

variable {host : Host} {vm v : VmState} {log : List (String × String)}

theorem Logs.run (logs : Logs host vm log v) : Run vm v := by
  induction logs with
  | start => exact .refl
  | next _ both ih => exact ih.tail both.steps

/-- The second log is the one of the interpreter. -/
theorem Logs.logged (logs : Logs host vm log v) : Interpreter.Logged vm (log.map Prod.snd) v := by
  refine logs.map fun v lines v' both => ?_
  cases both with
  | same steps => exact ⟨steps, rfl⟩
  | handedBack steps => exact ⟨steps, rfl⟩

end Logs

/-- A place of a logged run next to the interpreter's, with the lines printed so far. -/
inductive Along (host : Host) (vm : VmState) (lines : List String) (previous : RegisterState) :
    Config host.arch → Prop
  | lookup {v buffer log} (logs : Logs host vm log v) (printed : lines = log.map Prod.fst)
      (table : buffer.Admits v.cpu.pc) : Along host vm lines previous (.lookup v buffer)
  | compile {v buffer log} (logs : Logs host vm log v) (printed : lines = log.map Prod.fst)
      (table : buffer.Admits v.cpu.pc) : Along host vm lines previous (.compile v buffer)
  | inside {v buffer block s log} (logs : Logs host vm log v) (printed : lines = log.map Prod.fst)
      (before : previous = v.cpu) (aligned : v.cpu.pc &&& 3 = 0) (mirrors : Mirrors (host.arch.guest s) v)
      (here : block.pc = v.cpu.pc) (holds : HoldsCode vm block.memory) :
      Along host vm lines previous (.inside v.exit buffer block s)
  | fallBack {v buffer log} (logs : Logs host vm log v)
      (printed : lines = log.map Prod.fst ++ [printExecutionStep v.cpu v.cpu])
      (handed : ∀ v', Steps v v' → buffer.Admits v'.cpu.pc ∧
        ∃ i, Interpreter.fetched v = some i ∧ HandedBack host v i) :
      Along host vm lines previous (.fallBack v buffer)
  | stopped {u v final buffer log} (logs : Logs host vm log u)
      (printed : lines = log.map Prod.fst ∨ lines = log.map Prod.fst ++ [printExecutionStep u.cpu u.cpu])
      (stops : step u = .ok (false, final)) (same : SameResult v final) :
      Along host vm lines previous (.stopped v buffer)

/-- What holds of a place of a logged run. -/
structure Accompanies (host : Host) (build : Build) (vm : VmState) (lines : List String)
    (previous : RegisterState) (c : Config host.arch) : Prop where
  sound : Sound host.refines build vm.memory.size c
  same : Unremarkable host (build.setting c.buffer) vm
  current : Current vm c.buffer
  along : Along host vm lines previous c

section Accompanies

variable {host : Host} {build : Build} {vm : VmState} {lines : List String} {previous : RegisterState}

/-- The code that is entered does what the interpreter does at one instruction. -/
theorem Accompanies.single {exit : Exit} {buffer : Buffer host.arch} {block : CompiledBlock host.arch.Code}
    {s : host.arch.State} (stepping : build.singleStep = true)
    (defined : ∀ v, Run vm v → ∃ result, step v = .ok result)
    (accompanies : Accompanies host build vm lines previous (.inside exit buffer block s)) :
    ∃ v log d g, exit = v.exit ∧ Logs host vm log v ∧ lines = log.map Prod.fst ∧ previous = v.cpu ∧
      blockEffect host.backEnd (build.setting buffer) block.memory (blockFuel block.memory) block.pc
        (host.arch.guest s) = .depart d g ∧ Single host (build.setting buffer) v d g := by
  obtain ⟨sound, same, current, along⟩ := accompanies
  cases along with
  | @inside v buffer block s log logs printed before aligned mirrors here holds =>
    obtain ⟨d, g, outcome, single⟩ := single_of_blockEffect (block.memory.size.toNat / 4 + 1) stepping same holds
      logs.run (defined v logs.run) mirrors aligned
    rw [← here] at outcome
    exact ⟨v, log, d, g, rfl, logs, printed, before, outcome, single⟩

/-- Behind a return of generated code. -/
theorem Accompanies.returned {exit : Exit} {buffer : Buffer host.arch} {block : CompiledBlock host.arch.Code}
    {s s' : host.arch.State} {reason : ArchExitReason} (stepping : build.singleStep = true)
    (defined : ∀ v, Run vm v → ∃ result, step v = .ok result)
    (accompanies : Accompanies host build vm lines previous (.inside exit buffer block s))
    (ran : host.arch.run (build.env buffer) block.code s = some (none, s'))
    (code : host.arch.exitReason s' = reason.code) :
    ∃ v log, exit = v.exit ∧ Logs host vm log v ∧ lines = log.map Prod.fst ∧ previous = v.cpu ∧
      Single host (build.setting buffer) v (.exit reason (host.arch.exitPc s')) (host.arch.guest s') := by
  obtain ⟨v, log, d, g, exit, logs, printed, before, outcome, single⟩ := accompanies.single stepping defined
  obtain ⟨reason', outcome', code', -⟩ := accompanies.sound.returned ran
  cases ArchExitReason.code_injective (code.symm.trans code')
  cases outcome.symm.trans outcome'
  exact ⟨v, log, exit, logs, printed, before, single⟩

/-- A step of the run loop keeps the logs together. -/
theorem Accompanies.step {c c' : Config host.arch} (stepping : build.singleStep = true)
    (defined : ∀ v, Run vm v → ∃ result, step v = .ok result)
    (unmodified : ∀ v, Run vm v → HoldsCode vm v.memory)
    (accompanies : Accompanies host build vm lines previous c) (next : Next host.arch build c c') :
    Accompanies host build vm (lines ++ printed previous c c') (saved previous c c') c' := by
  have sound' := accompanies.sound.next next
  cases next with
  | @hit v buffer offset block leftover found here =>
    obtain ⟨⟨genuine, serves⟩, same, current, along⟩ := accompanies
    cases along with
    | lookup logs printed table =>
      obtain ⟨block', here', at_pc, -⟩ := genuine.of_get found
      cases here.symm.trans here'
      obtain ⟨rfl, published⟩ := CodeBuffer.get_eq_some found
      have holds := current _ table.2 published block here
      refine ⟨sound', same, current,
        .inside logs ((List.append_nil lines).trans printed) rfl table.1 ?_ at_pc holds⟩
      rw [(host.refines.enter leftover serves).2]
      exact mirrors_guestOf v
  | miss absent =>
    obtain ⟨-, same, current, along⟩ := accompanies
    cases along with
    | lookup logs printed table =>
      exact ⟨sound', same, current, .compile logs ((List.append_nil lines).trans printed) table⟩
  | @compiled v buffer code offset buffer' block leftover generated inserted here =>
    obtain ⟨⟨genuine, serves⟩, same, current, along⟩ := accompanies
    cases along with
    | compile logs printed table =>
      obtain ⟨-, maxBlocks, flags, block', here', at_pc, -⟩ := genuine.insert generated serves.size inserted
      cases here.symm.trans here'
      obtain ⟨current', holds⟩ := current.insert genuine (unmodified v logs.run) inserted
      refine ⟨sound', same.transfer flags maxBlocks rfl, current',
        .inside logs ((List.append_nil lines).trans printed) rfl table.1 ?_ at_pc (holds block here)⟩
      rw [(host.refines.enter leftover (serves.transfer maxBlocks)).2]
      exact mirrors_guestOf v
  | @chain exit buffer block s s' offset block' ran here =>
    -- a block of one instruction jumps to no other
    obtain ⟨v, log, d, g, -, -, -, -, outcome, single⟩ := accompanies.single stepping defined
    cases outcome.symm.trans (accompanies.sound.jumped ran).1
    cases single
  | again reason kind ran code =>
    obtain ⟨v, log, rfl, logs, rfl, rfl, single⟩ := accompanies.returned stepping defined ran code
    obtain ⟨-, same, current, -⟩ := accompanies
    generalize host.arch.exitPc _ = pc at single sound' ⊢
    generalize host.arch.guest _ = g at single sound' ⊢
    cases single with
    | @again u _ _ _ steps mirrors table =>
      have place : g.toVm u.cpu.pc v.exit = u := by
        rw [← Interpreter.run_exit (.single steps)]
        exact mirrors
      rw [place] at sound' ⊢
      refine ⟨sound', same, current, .lookup (logs.next (.same steps)) ?_ table⟩
      rw [List.map_append]
      rfl
    | fallsBack other => exact absurd ⟨kind, other⟩ reason.again_fallsBack
    | leaves other => cases (reason.again_exitReason kind).symm.trans other
  | fallsBack reason kind ran code =>
    obtain ⟨v, log, rfl, logs, rfl, rfl, single⟩ := accompanies.returned stepping defined ran code
    obtain ⟨-, same, current, -⟩ := accompanies
    generalize host.arch.exitPc _ = pc at single sound' ⊢
    generalize host.arch.guest _ = g at single sound' ⊢
    cases single with
    | again other => exact absurd ⟨other, kind⟩ reason.again_fallsBack
    | fallsBack _ mirrors handed =>
      have place : g.toVm v.cpu.pc v.exit = v := mirrors
      rw [place] at sound' ⊢
      exact ⟨sound', same, current, .fallBack logs rfl handed⟩
    | leaves other => cases (reason.fallsBack_exitReason kind).symm.trans other
  | leaves reason kind ran code =>
    obtain ⟨v, log, rfl, logs, rfl, rfl, single⟩ := accompanies.returned stepping defined ran code
    obtain ⟨-, same, current, -⟩ := accompanies
    generalize host.arch.exitPc _ = pc at single sound' ⊢
    generalize host.arch.guest _ = g at single sound' ⊢
    cases single with
    | again other => cases (reason.again_exitReason other).symm.trans kind
    | fallsBack other => cases (reason.fallsBack_exitReason other).symm.trans kind
    | @leaves u _ _ _ e other counted reached mirrors stops =>
      cases kind.symm.trans other
      have memory : g.memory = u.memory := mirrors.memory
      have cpu : g.registers.set Register.pc u.cpu.pc = u.cpu := mirrors.cpu
      -- the interpreter has stopped at the instruction, or behind a jump
      rcases reached with rfl | steps
      · refine ⟨sound', same, current, .stopped logs (.inr ?_) stops ⟨memory, cpu, counted, rfl, rfl⟩⟩
        simp only [printed, Guest.toVm, cpu]
      · have exit := Interpreter.run_exit (.single steps)
        refine ⟨sound', same, current, .stopped (logs.next (.same steps)) (.inl ?_) stops
          ⟨memory, cpu, counted, ?_, ?_⟩⟩
        · simp only [printed, Guest.toVm, cpu, List.map_append, List.map_cons, List.map_nil]
        · rw [exit]
          rfl
        · rw [exit]
          rfl
  | resumed stepped =>
    obtain ⟨-, same, current, along⟩ := accompanies
    cases along with
    | fallBack logs printed handed =>
      obtain ⟨table, i, fetch, handed⟩ := handed _ stepped
      refine ⟨sound', same, current, .lookup (logs.next (.handedBack stepped fetch handed)) ?_ table⟩
      rw [printed, List.map_append]
      exact List.append_nil _
  | refused stepped =>
    obtain ⟨-, same, current, along⟩ := accompanies
    cases along with
    | fallBack logs printed handed =>
      refine ⟨sound', same, current, .stopped logs (.inr ?_) stepped ⟨rfl, rfl, .inl rfl, rfl, rfl⟩⟩
      rw [printed]
      exact List.append_nil _

end Accompanies

/-- With `PRINT_EXECUTION_LOG` the executor prints the lines of `run_interpreter`. Of an instruction that is
handed back its line has the pc alone, and it has one line more for the instruction the run stops at. -/
theorem executor_logs (host : Host) (build : Build) {vm : VmState} {buffer : Buffer host.arch}
    (stepping : build.singleStep = true) (comparable : Comparable host build vm buffer)
    (checks : buffer.flags.skipPermissionChecks = false)
    (regular : ∀ v i, Run vm v → Interpreter.fetched v = some i →
      Regular host build.singleStep buffer.maxBlocks v i)
    (defined : ∀ v, Run vm v → ∃ result, step v = .ok result) {lines : List String} {previous : RegisterState}
    {c : Config host.arch} (logged : Logged host.arch build vm buffer lines previous c) :
    ∃ log u, Logs host vm log u ∧ Interpreter.Logged vm (log.map Prod.snd) u ∧
      (lines = log.map Prod.fst ∨ lines = log.map Prod.fst ++ [printExecutionStep u.cpu u.cpu]) ∧
      ∀ v buffer', c = .stopped v buffer' → ∃ final, step u = .ok (false, final) ∧ SameResult v final := by
  -- the invariant along the run, and what it says at its end
  have accompanies : Accompanies host build vm lines previous c := by
    induction logged with
    | start =>
      exact ⟨comparable.starts.sound host.refines, comparable.unremarkable checks regular, comparable.current,
        .lookup .start rfl comparable.admitted⟩
    | next _ next ih => exact ih.step stepping defined comparable.unmodified next
  cases accompanies.along with
  | lookup logs printed | compile logs printed | inside logs printed =>
    exact ⟨_, _, logs, logs.logged, .inl printed, fun v buffer' same => (by cases same)⟩
  | fallBack logs printed =>
    exact ⟨_, _, logs, logs.logged, .inr printed, fun v buffer' same => (by cases same)⟩
  | stopped logs printed stops same =>
    refine ⟨_, _, logs, logs.logged, printed, fun v buffer' place => ?_⟩
    cases place
    exact ⟨_, stops, same⟩

/-! ### A program that counts to five -/

namespace Counting

theorem outcome_ecall (st : Setting) : blockEffect host.backEnd st memory (blockFuel memory) 4 (guestOf counted)
    = .depart (.exit .ecall 4) (guestOf counted) := by
  have fuel : blockFuel memory = 6 := by decide
  have code : codeAt memory 4 = some (.ofWord 0x00000073) := by decide
  rw [fuel]
  simp only [blockEffect, code]
  rfl

/-- Step by step the executor prints a line for the addition, and one where it stops. -/
theorem logged : ∃ (previous : RegisterState) (v : VmState) (buffer' : Buffer host.arch),
    Logged host.arch (build true) vm buffer
      [printExecutionStep vm.cpu counted.cpu, printExecutionStep counted.cpu counted.cpu] previous
      (.stopped v buffer') := by
  obtain ⟨_, buffer₁, block, s, s', miss, compiled, inserted, -, ran, reason, at_pc, guest⟩ := enters true
  have place : (host.arch.guest s').toVm (host.arch.exitPc s') {} = counted := by
    rw [guest, at_pc]
    rfl
  have back : Next host.arch (build true) (.inside {} buffer₁ block s) (.lookup counted buffer₁) :=
    place ▸ .again .singleStep rfl ran reason
  -- the system call is compiled on its own
  obtain ⟨code, generated⟩ := generates {} 2 memory true 4
  obtain ⟨flags, blocks, unpublished, next, size⟩ : buffer₁.flags = {} ∧ buffer₁.maxBlocks = 2 ∧
      buffer₁.blockToOffset 1 = 0 ∧ buffer₁.nextFreeOffset = 17 ∧ buffer₁.size = 2 ^ 20 := by
    cases inserted
    exact ⟨rfl, rfl, rfl, rfl, rfl⟩
  have sound := ((((starts true).sound host.refines).next miss).next compiled).next back
  obtain ⟨-, buffer₂, s₂, miss', compiled', -, -, entered, -⟩ := sound.enters (fun _ => (0 : Word))
    (⟨rfl, by rw [blocks]; decide⟩ : buffer₁.Admits 4) unpublished (by rw [flags, blocks]; exact generated)
    (by rw [next, size]; exact show CodeBuffer.alignedOffset 17 + 1 ≤ 2 ^ 20 by decide)
  have calls : blockEffect host.backEnd ((build true).setting buffer₂) memory (blockFuel memory) 4
      (host.arch.guest s₂) = .depart (.exit .ecall 4) (guestOf counted) := by
    rw [entered]
    exact outcome_ecall _
  obtain ⟨s'', ran', reason', at_pc', guest'⟩ := ((sound.next miss').next compiled').exits calls
  have last (exit : Exit) : ((host.arch.guest s'').toVm (host.arch.exitPc s'') exit).cpu = counted.cpu := by
    rw [guest', at_pc']
    exact (mirrors_guestOf counted).cpu
  have stopped := (((((Logged.start.next miss).next compiled).next back).next miss').next compiled').next
    (.leaves .ecall rfl ran' reason')
  simp only [printed, saved, List.nil_append, List.append_nil, List.cons_append, last] at stopped
  exact ⟨_, _, _, stopped⟩

end Counting

theorem executor_logs_addi : ∃ lines previous v buffer log,
    Logged Counting.host.arch (Counting.build true) Counting.vm Counting.buffer lines previous
        (.stopped v buffer) ∧
      lines = [printExecutionStep Counting.vm.cpu Counting.counted.cpu,
        printExecutionStep Counting.counted.cpu Counting.counted.cpu] ∧
      log ≠ [] ∧ Logs Counting.host Counting.vm log Counting.counted := by
  obtain ⟨previous, v, buffer', logged⟩ := Counting.logged
  have defined : ∀ v, Run Counting.vm v → ∃ result, step v = .ok result := by
    intro v run
    rcases Counting.run_cases run with rfl | rfl
    · exact ⟨_, Counting.steps⟩
    · exact ⟨_, Counting.stops⟩
  obtain ⟨log, u, logs, -, replays, ends⟩ := executor_logs Counting.host (Counting.build true) rfl
    (Counting.comparable true) rfl (fun v i run fetch => Counting.regular true run fetch) defined logged
  obtain ⟨final, stops, -⟩ := ends v buffer' rfl
  -- the interpreter goes on at the addition
  rcases Counting.run_cases logs.run with rfl | rfl
  · cases stops.symm.trans Counting.steps
  · refine ⟨_, previous, v, buffer', log, logged, rfl, ?_, logs⟩
    rintro rfl
    rcases replays with same | same <;> cases same

end Riscv64Emulator.Jit
