import Riscv64Emulator.Jit.X64.AccessCheck
import Riscv64Emulator.Lib.Emission

/-!
# Leaving x64 code

The exits and the branches of the x64 generator. `Realizes` says that emitted code, with
its pending exits behind it, has the outcome the abstract model gives the instruction.
-/
namespace Riscv64Emulator.Jit.X64

open LinearCode

/-- What `generateExit` emits. -/
def exitInstrs (reason : ArchExitReason) (pc : ExitPc) : List (Item Instr) :=
  let source : Operand := match pc with | .value pc => .imm pc | .register r => .reg r
  [.instr (.mov .bits64 (.reg RA.exitPc) source),
   .instr (.mov .bits64 (.reg RA.exitReason) (.imm reason.code)), .instr .ret]

/-- What `generatePendingExits` emits for one exit. -/
def exitCode (e : PendingExit) : List (Item Instr) := .label e.label :: exitInstrs e.reason e.pc

theorem bindsOwn_exitCode : BindsOwn exitCode PendingExit.label := fun _ => rfl

theorem run_generateExit (reason : ArchExitReason) (pc : ExitPc) (n : Nat) :
    (CodeGenerator.generateExit reason pc).run n = .ok ⟨(), exitInstrs reason pc, [], n⟩ := by
  cases pc <;> rfl

theorem run_generatePendingExits (exits : List PendingExit) (n : Nat) :
    (CodeGenerator.generatePendingExits exits).run n
      = .ok ⟨(), exits.flatMap exitCode, [], n⟩ := by
  induction exits with
  | nil => rfl
  | cons e rest ih =>
    simp [CodeGenerator.generatePendingExits, Emitter.run_bind, run_generateExit, ih, exitCode]

/-- The host leaves the code as the departure says. -/
def Delivers (env : Env) (s : State) : Departure → Exit → Prop
  | .exit reason pc, e =>
    e = .ret ∧ s.regs RA.exitReason = reason.code ∧ s.regs RA.exitPc = pc
  | .enter offset, e => e = .jump (env.layout.codeBase + offset.setWidth 64)

section Outcomes

variable (st : Setting) (size : Word) (env : Env)

/-- The machine is gone, with the guest and the departure of the abstract outcome. -/
structure Departs (d : Departure) (guest : Guest) (e : Exit) (s : State) : Prop where
  delivers : Delivers env s d e
  anchored : Anchored st size env s
  guest : s.guest = guest

/-- The way a fragment ends has the abstract outcome. -/
def Meets : Outcome → Ending State Exit → Prop
  | .next guest, .ran s' => Retires st size guest env s'
  | .depart d guest, .left e s' => Departs st size env d guest e s'
  | .fault, .faulted => True
  | _, _ => False

/-- Code with pending exits has an outcome, and stays in the sandbox until then. -/
abbrev Realizes (code : List (Item Instr)) (exits : List PendingExit) (s : State) (o : Outcome) :
    Prop :=
  LinearCode.Realizes (step env) (Sandboxed env) exitCode code exits s (Meets st size env o)

end Outcomes

variable {st : Setting} {size : Word} {env : Env} {s s₁ : State}

/-- The pc an exit carries. -/
def ExitPc.read (s : State) : ExitPc → Word
  | .value pc => pc
  | .register r => s.regs r

theorem quits_exitInstrs (anchored : Anchored st size env s) (reason : ArchExitReason)
    (pc : ExitPc) :
    ∃ s', Quits (step env) (Sandboxed env) (exitInstrs reason pc) s .ret s' ∧
      Departs st size env (.exit reason (pc.read s)) s.guest .ret s' := by
  -- the address is loaded before the reason, which goes to another register
  have moves : ∀ o, Sandboxed env (.mov .bits64 (.reg RA.exitPc) o) s ∧
      (∃ f, step env (.mov .bits64 (.reg RA.exitPc) o) s
        = .next (s.setReg RA.exitPc (pc.read s) f)) →
      ∃ s', Quits (step env) (Sandboxed env)
          [.instr (.mov .bits64 (.reg RA.exitPc) o),
            .instr (.mov .bits64 (.reg RA.exitReason) (.imm reason.code)), .instr .ret] s .ret s' ∧
        Departs st size env (.exit reason (pc.read s)) s.guest .ret s' := by
    rintro o ⟨safe, f, next⟩
    obtain ⟨safe₁, next₁⟩ := step_mov_reg RA.exitReason
      (yields_imm env (s.setReg RA.exitPc (pc.read s) f) reason.code)
    have safe₂ : ∀ t, Sandboxed env .ret t := by simp [Sandboxed, sandboxed, accesses, storesForeign]
    refine ⟨_, .cons safe next (.cons safe₁ next₁ (.leave (safe₂ _) rfl)), ⟨rfl, ?_, ?_⟩, ?_, rfl⟩
    · simp
    · simp
    · exact (anchored.setReg rfl _ _).setReg rfl _ _
  cases pc with
  | value pc =>
    obtain ⟨safe, next⟩ := step_mov_reg RA.exitPc (yields_imm env s pc)
    exact moves _ ⟨safe, _, next⟩
  | register r => exact moves _ (step_mov_regs env s RA.exitPc r)

/-- An exit at once. -/
theorem realizes_exit (anchored : Anchored st size env s) (reason : ArchExitReason) (pc : ExitPc) :
    Realizes st size env (exitInstrs reason pc) [] s
      (.depart (.exit reason (pc.read s)) s.guest) := by
  obtain ⟨s', quits, departs⟩ := quits_exitInstrs anchored reason pc
  exact ⟨.left .ret s', quits.leaves _ _, departs⟩

/-- A jump to a pending exit. -/
theorem leaves_pendingExit {code : List (Item Instr)} (exit : PendingExit)
    (seeks : Seeks (step env) (Sandboxed env) code exit.label s s₁)
    (anchored : Anchored st size env s₁) :
    ∃ s', Leaves (step env) (Sandboxed env) exitCode code [exit] s .ret s' ∧
      Departs st size env (.exit exit.reason (exit.pc.read s₁)) s₁.guest .ret s' := by
  obtain ⟨s', quits, departs⟩ := quits_exitInstrs anchored exit.reason exit.pc
  exact ⟨s', seeks.leaves rfl quits, departs⟩

theorem realizes_pendingExit {code : List (Item Instr)} (exit : PendingExit)
    (seeks : Seeks (step env) (Sandboxed env) code exit.label s s₁)
    (anchored : Anchored st size env s₁) :
    Realizes st size env code [exit] s (.depart (.exit exit.reason (exit.pc.read s₁)) s₁.guest) :=
  let ⟨s', leaves, departs⟩ := leaves_pendingExit exit seeks anchored
  ⟨.left .ret s', leaves, departs⟩

/-! ### Branches -/

/-- The instructions of `generateValidatedBranch` for the block index in `t`. -/
def validatedBranchInstrs (t : X64R) (l : Nat) : List (Item Instr) :=
  [.instr (.mov .bits32 (.reg t) (.mem (.baseIndex RA.blockBase t 4))),
   .instr (.test (.reg t) (.reg t)), .instr (.jcc .e l),
   .instr (.alu .add .bits64 (.reg t) (.reg RA.codeBase)), .instr (.jmpReg t)]

theorem run_generateValidatedBranch (t : X64R) (n : Nat) :
    (CodeGenerator.generateValidatedBranch t).run n
      = .ok ⟨n, validatedBranchInstrs t n, [], n + 1⟩ := rfl

theorem holds_e_testFlags_self (a : Word) :
    Condition.e.holds (testFlags a a) = decide (a = 0) := by
  simp only [Condition.holds, testFlags, BitVec.and_self]
  rfl

/-- The load of the table entry of the block whose index is in `t`. -/
private theorem step_load_block (anchored : Anchored st size env s) (t : X64R)
    (inside : (s.regs t).toNat < st.maxBlockCount.toNat) :
    Sandboxed env (.mov .bits32 (.reg t) (.mem (.baseIndex RA.blockBase t 4))) s ∧
      ∃ f, step env (.mov .bits32 (.reg t) (.mem (.baseIndex RA.blockBase t 4))) s
        = .next (s.setReg t ((st.blockToOffset (s.regs t).toNat).setWidth 64) f) := by
  have address : s.address (.baseIndex RA.blockBase t 4)
      = env.layout.blockBase + s.regs t * 4 := by
    rw [State.address, anchored.blockBase]
    rfl
  -- a four byte load clears the upper half of the register
  have narrow : lowBytes 4 ((st.blockToOffset (s.regs t).toNat).setWidth 64)
      = (st.blockToOffset (s.regs t).toNat).setWidth 64 := by
    apply BitVec.eq_of_toNat_eq
    have bound := (st.blockToOffset (s.regs t).toNat).isLt
    simp only [lowBytes, BitVec.toNat_ofNat, BitVec.toNat_setWidth]
    omega
  constructor
  · simp only [Sandboxed, sandboxed, accesses, Operand.access, storesForeign, Operand.isMem, OperandSize.bytes,
      address, anchored.serves.permits_block (s.regs t) inside, List.append_nil, List.all_cons,
      List.all_nil, Bool.false_and, Bool.not_false, Bool.and_self]
  · simp only [step, State.read, address, OperandSize.bytes,
      anchored.serves.load_block (s.regs t) inside, State.write, State.merge, narrow]
    exact ⟨_, rfl⟩

/-- A valid target is entered when its block is published; otherwise the code goes to the
exit. -/
theorem validatedBranch_runs (anchored : Anchored st size env s) {t : X64R}
    (scratch : isScratch t = true) (inside : (s.regs t).toNat < st.maxBlockCount.toNat) (l : Nat) :
    let offset := st.blockToOffset (s.regs t).toNat
    ∃ s₁, Disturbs [t] s s₁ ∧
      if offset = 0 then
        Seeks (step env) (Sandboxed env) (validatedBranchInstrs t l) l s s₁
      else Quits (step env) (Sandboxed env) (validatedBranchInstrs t l) s
        (.jump (env.layout.codeBase + offset.setWidth 64)) s₁ := by
  intro offset
  obtain ⟨safe, f, load⟩ := step_load_block anchored t inside
  let s₁ := s.setReg t (offset.setWidth 64) f
  obtain ⟨safe₁, test⟩ := step_test_self env s₁ t
  let s₂ := s₁.setFlags (some (testFlags (s₁.regs t) (s₁.regs t)))
  have value : s₂.regs t = offset.setWidth 64 := by simp [s₁, s₂]
  have disturbs : Disturbs [t] s s₂ :=
    (Disturbs.setReg (by simp) s _ f).trans (.setFlags _ _ _)
  have safe₂ : Sandboxed env (.jcc .e l) s₂ := by simp [Sandboxed, sandboxed, accesses, storesForeign]
  have jcc : step env (.jcc .e l) s₂ = if offset = 0 then .jump l s₂ else .next s₂ := by
    have zero : Condition.e.holds (testFlags (s₁.regs t) (s₁.regs t)) = decide (offset = 0) := by
      rw [holds_e_testFlags_self, show s₁.regs t = offset.setWidth 64 from value]
      exact decide_eq_decide.mpr (setWidth_eq_zero_iff offset)
    simp only [step, s₂, State.flags_setFlags, zero, decide_eq_true_eq]
  -- an offset of zero stands for a block that was not generated
  by_cases absent : offset = 0
  · refine ⟨s₂, disturbs, ?_⟩
    rw [if_pos absent] at jcc ⊢
    exact .cons safe load (.cons safe₁ test (.jump safe₂ jcc (by simp)))
  · rw [if_neg absent] at jcc
    obtain ⟨safe₃, f', add⟩ := step_alu_regs env s₂ .add t RA.codeBase
    let s₃ := (s₂.setReg t (s₂.regs t + s₂.regs RA.codeBase) f').setFlags none
    have safe₄ : Sandboxed env (.jmpReg t) s₃ := by simp [Sandboxed, sandboxed, accesses, storesForeign]
    have target : s₃.regs t = env.layout.codeBase + offset.setWidth 64 := by
      have base := (disturbs.anchored (by simpa using scratch) anchored).codeBase
      simp only [s₃, State.regs_setFlags, State.regs_setReg, if_true, value, base]
      exact BitVec.add_comm _ _
    refine ⟨s₃, disturbs.trans ((Disturbs.setReg (by simp) _ _ _).trans (.setFlags _ _ _)), ?_⟩
    rw [if_neg absent, ← target]
    exact .cons safe load (.cons safe₁ test (.cons safe₂ jcc (.cons safe₃ add (.leave safe₄ rfl))))

/-- The branch to a valid target whose block index is in `t`, with the exit for a block that
is not there. -/
theorem realizes_validatedBranch (anchored : Anchored st size env s) {t : X64R}
    (scratch : isScratch t = true) {target : Word} (block : (s.regs t).toNat = target.toNat / 4)
    (inside : target.toNat / 4 < st.maxBlockCount.toNat) (pc : ExitPc)
    (kept : ∀ s', Disturbs [t] s s' → pc.read s' = target) (l : Nat)
    (continues : st.singleStep = false) :
    Realizes st size env (validatedBranchInstrs t l) [⟨l, .blockNotGenerated, pc⟩] s
      (st.branchTo target s.guest) := by
  obtain ⟨s₁, disturbs, runs⟩ := validatedBranch_runs anchored scratch (by rw [block]; exact inside) l
  have anchored₁ := disturbs.anchored (by simpa using scratch) anchored
  rw [block] at runs
  rw [Setting.branchTo, continues]
  -- the exit reports the target, which the code that ran has kept
  by_cases absent : st.blockToOffset (target.toNat / 4) = 0
  · rw [if_pos absent] at runs
    have exit := realizes_pendingExit ⟨l, .blockNotGenerated, pc⟩ runs anchored₁
    rw [kept s₁ disturbs, disturbs.1] at exit
    simpa [absent] using exit
  · rw [if_neg absent] at runs
    simp only [Bool.false_eq_true, if_false, absent]
    exact ⟨.left _ s₁, runs.leaves _ _, rfl, anchored₁, disturbs.1⟩

/-- What the branches of the generator have been told. -/
structure CodeGenerator.Uses (g : CodeGenerator) (st : Setting) : Prop where
  flags : st.flags = g.flags
  maxBlockCount : st.maxBlockCount = g.maxBlockCount
  singleStep : st.singleStep = g.singleStep

theorem CodeGenerator.uses_setting (g : CodeGenerator) (env : Env) : g.Uses (g.setting env) :=
  ⟨rfl, rfl, rfl⟩

/-- Output of a generator for the end of an instruction: no labels in the code, the labels
of its exits fresh. -/
structure Terminal (n : Nat) (code : List (Item Instr)) (exits : List PendingExit) (n' : Nat) :
    Prop where
  grows : n ≤ n'
  free : binds code = []
  fresh : ∀ exit ∈ exits, n ≤ exit.label ∧ exit.label < n'

theorem Terminal.freshLabels {n n' : Nat} {code : List (Item Instr)} {exits : List PendingExit}
    (terminal : Terminal n code exits n') : FreshLabels PendingExit.label n code exits n' :=
  .unlabeled terminal.grows terminal.free terminal.fresh

theorem Terminal.exit (n : Nat) (reason : ArchExitReason) (pc : ExitPc) :
    Terminal n (exitInstrs reason pc) [] n :=
  ⟨Nat.le_refl n, rfl, fun _ member => absurd member List.not_mem_nil⟩

/-- `generate_static_branch`. -/
theorem staticBranch_realizes (g : CodeGenerator) (uses : g.Uses st) (target : Word) (n : Nat) :
    ∃ code exits n', (g.generateStaticBranch target RA.a).run n = .ok ⟨(), code, exits, n'⟩ ∧
      Terminal n code exits n' ∧ ∀ env s, Anchored st size env s →
        Realizes st size env code exits s (st.staticBranch g.currentPc target s.guest) := by
  have block : (target / 4).toNat = target.toNat / 4 := BitVec.toNat_udiv
  unfold CodeGenerator.generateStaticBranch Setting.staticBranch
  rw [uses.maxBlockCount]
  dsimp only
  -- the tests that need no registers are made at compile time, in the source's order
  by_cases unaligned : target &&& 3 ≠ 0
  · simp only [if_pos unaligned]
    exact ⟨_, _, _, run_generateExit _ _ n, .exit .., fun env s anchored =>
      realizes_exit anchored .unalignedPc (.value g.currentPc)⟩
  simp only [if_neg unaligned]
  by_cases outside : g.maxBlockCount ≤ target / 4
  · have above : g.maxBlockCount.toNat ≤ target.toNat / 4 := by rwa [BitVec.le_def, block] at outside
    simp only [if_pos outside, if_pos above]
    exact ⟨_, _, _, run_generateExit _ _ n, .exit .., fun env s anchored =>
      realizes_exit anchored .outOfBoundsPc (.value g.currentPc)⟩
  have below : ¬g.maxBlockCount.toNat ≤ target.toNat / 4 := by rwa [BitVec.le_def, block] at outside
  simp only [if_neg outside, if_neg below]
  cases stepping : g.singleStep with
  | true =>
    simp only [↓reduceIte]
    refine ⟨_, _, _, run_generateExit _ _ n, .exit .., fun env s anchored => ?_⟩
    rw [Setting.branchTo, uses.singleStep, stepping]
    exact realizes_exit anchored .singleStep (.value target)
  | false =>
    refine ⟨.instr (.mov .bits64 (.reg RA.a) (.imm (target / 4))) :: validatedBranchInstrs RA.a n,
      [⟨n, .blockNotGenerated, .value target⟩], n + 1, rfl, ?_, fun env s anchored => ?_⟩
    · exact ⟨Nat.le_succ n, rfl, by simp⟩
    · obtain ⟨safe, next⟩ := step_mov_reg RA.a (yields_imm env s (target / 4))
      have index : (s.setReg RA.a (target / 4) false).regs RA.a = target / 4 := by simp
      have branch := realizes_validatedBranch (anchored.setReg rfl (target / 4) false) (t := RA.a) rfl
        (by rw [index, block]) (by rw [uses.maxBlockCount]; omega) (.value target)
        (fun _ _ => rfl) n (by rw [uses.singleStep, stepping])
      exact branch.after bindsOwn_exitCode (.cons safe next (.nil _))

/-- The tests of `generate_dynamic_branch` for the target in `RA.a`. -/
def targetTests (g : CodeGenerator) (n : Nat) : List (Item Instr) :=
  [.instr (.test (.reg RA.a) (.imm 0b10)), .instr (.jcc .ne n),
   .instr (.mov .bits64 (.reg RA.b) (.reg RA.a)), .instr (.shift .shr (.reg RA.b) (.imm 2)),
   .instr (.cmp (.reg RA.b) (.imm g.maxBlockCount)), .instr (.jcc .ae (n + 1))]

/-- The tests lead to one of three places. -/
theorem targetTests_runs (g : CodeGenerator) (env : Env) (s : State) (n : Nat) :
    let target := s.regs RA.a
    ∃ s₁, Disturbs [RA.b] s s₁ ∧
      if target &&& 2 ≠ 0 then Seeks (step env) (Sandboxed env) (targetTests g n) n s s₁
      else if g.maxBlockCount.toNat ≤ target.toNat / 4 then
        Seeks (step env) (Sandboxed env) (targetTests g n) (n + 1) s s₁
      else Continues (step env) (Sandboxed env) (targetTests g n) s s₁ ∧
        (s₁.regs RA.b).toNat = target.toNat / 4 := by
  intro target
  have safeJcc : ∀ c l t, Sandboxed env (.jcc c l) t := by
    simp [Sandboxed, sandboxed, accesses, storesForeign]
  obtain ⟨safe₁, test⟩ := step_test_imm env s RA.a 0b10
  let s₁ := s.setFlags (some (testFlags target 0b10))
  have jcc₁ : step env (.jcc .ne n) s₁ = if target &&& 2 ≠ 0 then .jump n s₁ else .next s₁ := by
    simp only [step, s₁, State.flags_setFlags, holds_ne_testFlags_eq, decide_eq_true_eq]
  by_cases unaligned : target &&& 2 ≠ 0
  · rw [if_pos unaligned] at jcc₁
    refine ⟨s₁, .setFlags _ _ _, ?_⟩
    rw [if_pos unaligned]
    exact .cons safe₁ test (.jump (safeJcc ..) jcc₁ List.not_mem_nil)
  rw [if_neg unaligned] at jcc₁
  obtain ⟨safe₂, f₂, move⟩ := step_mov_regs env s₁ RA.b RA.a
  let s₂ := s₁.setReg RA.b (s₁.regs RA.a) f₂
  obtain ⟨safe₃, f₃, shift⟩ := step_shift_imm env s₂ .shr RA.b 2
  let s₃ := (s₂.setReg RA.b (ShiftOp.shr.apply (s₂.regs RA.b) 2) f₃).setFlags none
  -- the block's index is the target shifted right by two
  have index : (s₃.regs RA.b).toNat = target.toNat / 4 := by
    simp only [s₃, s₂, s₁, State.regs_setFlags, State.regs_setReg, if_true, ShiftOp.apply]
    rw [BitVec.toNat_ushiftRight, Nat.shiftRight_eq_div_pow]
    rfl
  obtain ⟨safe₄, compare⟩ := step_cmp_imm env s₃ RA.b g.maxBlockCount
  let s₄ := s₃.setFlags (some (compareFlags (s₃.regs RA.b) g.maxBlockCount))
  have disturbs : Disturbs [RA.b] s s₄ :=
    ((((Disturbs.setFlags _ s _).trans (.setReg (by decide) s₁ _ _)).trans
      (.setReg (by decide) s₂ _ _)).trans (.setFlags _ _ _)).trans (.setFlags _ _ _)
  have jcc₂ : step env (.jcc .ae (n + 1)) s₄
      = if g.maxBlockCount.toNat ≤ target.toNat / 4 then .jump (n + 1) s₄ else .next s₄ := by
    simp only [step, s₄, State.flags_setFlags, holds_ae_eq, decide_eq_true_eq, index]
  refine ⟨s₄, disturbs, ?_⟩
  rw [if_neg unaligned]
  by_cases outside : g.maxBlockCount.toNat ≤ target.toNat / 4
  · rw [if_pos outside] at jcc₂ ⊢
    exact .cons safe₁ test (.cons (safeJcc ..) jcc₁ (.cons safe₂ move (.cons safe₃ shift
      (.cons safe₄ compare (.jump (safeJcc ..) jcc₂ List.not_mem_nil)))))
  · rw [if_neg outside] at jcc₂ ⊢
    exact ⟨.cons safe₁ test (.cons (safeJcc ..) jcc₁ (.cons safe₂ move (.cons safe₃ shift
      (.cons safe₄ compare (.cons (safeJcc ..) jcc₂ (.nil _)))))), index⟩

/-- `generate_dynamic_branch`. -/
theorem dynamicBranch_realizes (g : CodeGenerator) (uses : g.Uses st)
    (fits : fitsImm32 g.maxBlockCount = true) (n : Nat) :
    ∃ code exits n', (g.generateDynamicBranch RA.a RA.b).run n = .ok ⟨(), code, exits, n'⟩ ∧
      Terminal n code exits n' ∧ ∀ env s, Anchored st size env s →
        Realizes st size env code exits s (st.dynamicBranch (s.regs RA.a) s.guest) := by
  let late : List PendingExit :=
    [⟨n, .unalignedPc, .register RA.a⟩, ⟨n + 1, .outOfBoundsPc, .register RA.a⟩]
  -- the branch behind the tests, with its own exits
  have tail : ∃ code exits n', n + 2 ≤ n' ∧ binds code = [] ∧
      (∀ exit ∈ exits, n + 2 ≤ exit.label ∧ exit.label < n') ∧
      (g.generateDynamicBranch RA.a RA.b).run n
        = .ok ⟨(), targetTests g n ++ code, exits ++ late, n'⟩ ∧
      ∀ env s target, Anchored st size env s → s.regs RA.a = target →
        (s.regs RA.b).toNat = target.toNat / 4 → target.toNat / 4 < st.maxBlockCount.toNat →
        Realizes st size env code exits s (st.branchTo target s.guest) := by
    have cmp : (Instr.cmp (.reg RA.b) (.imm g.maxBlockCount)).encodable = true :=
      encodable_cmp_imm rfl fits
    have test : (Instr.test (.reg RA.a) (.imm 2#64)).encodable = true := rfl
    have jcc : ∀ c l, (Instr.jcc c l).encodable = true := fun _ _ => rfl
    have mov : (Instr.mov .bits64 (.reg RA.b) (.reg RA.a)).encodable = true := rfl
    have shr : (Instr.shift .shr (.reg RA.b) (.imm 2#64)).encodable = true := rfl
    cases stepping : g.singleStep with
    | true =>
      refine ⟨exitInstrs .singleStep (.register RA.a), [], n + 2, Nat.le_refl _, rfl,
        fun _ member => absurd member List.not_mem_nil, ?_, ?_⟩
      · simp [CodeGenerator.generateDynamicBranch, Emitter.run_bind, run_ins, cmp, test, jcc, mov,
          shr, stepping, run_generateExit, CodeGenerator.addPendingExit, targetTests, late]
      · rintro env s target anchored rfl - -
        rw [Setting.branchTo, uses.singleStep, stepping]
        exact realizes_exit anchored .singleStep (.register RA.a)
    | false =>
      refine ⟨validatedBranchInstrs RA.b (n + 2), [⟨n + 2, .blockNotGenerated, .register RA.a⟩],
        n + 3, Nat.le_succ _, rfl, by simp, ?_, ?_⟩
      · simp [CodeGenerator.generateDynamicBranch, Emitter.run_bind, run_ins, cmp, test, jcc, mov,
          shr, stepping, run_generateValidatedBranch, CodeGenerator.addPendingExit, targetTests,
          late]
      · rintro env s target anchored rfl index inside
        exact realizes_validatedBranch anchored rfl index inside (.register RA.a)
          (fun s' disturbs => (disturbs.2 RA.a (by decide)).1) (n + 2)
          (by rw [uses.singleStep, stepping])
  obtain ⟨code, exits, n', grows, free, fresh, ran, branches⟩ := tail
  refine ⟨_, _, n', ran, ⟨by omega, by simp [free, targetTests], ?_⟩, fun env s anchored => ?_⟩
  · intro exit member
    rcases List.mem_append.mp member with own | own
    · have := fresh exit own
      omega
    · simp only [late, List.mem_cons, List.not_mem_nil, or_false] at own
      rcases own with rfl | rfl <;> exact ⟨by simp, by simp; omega⟩
  · obtain ⟨s₁, disturbs, place⟩ := targetTests_runs g env s n
    have anchored₁ := disturbs.anchored (by decide) anchored
    have target : s₁.regs RA.a = s.regs RA.a := (disturbs.2 RA.a (by decide)).1
    unfold Setting.dynamicBranch
    rw [uses.maxBlockCount]
    have skipped : ∀ l, l ∉ binds code := by rw [free]; exact fun _ => List.not_mem_nil
    have later : ∀ l, l < n + 2 → l ∉ exits.map PendingExit.label := by
      intro l low member
      obtain ⟨exit, listed, rfl⟩ := List.mem_map.mp member
      exact absurd (fresh exit listed).1 (by omega)
    by_cases unaligned : s.regs RA.a &&& 2 ≠ 0
    · rw [if_pos unaligned] at place ⊢
      have exit := realizes_pendingExit ⟨n, .unalignedPc, .register RA.a⟩
        (place.pass (skipped n)) anchored₁
      rw [ExitPc.read, target, disturbs.1] at exit
      refine exit.widen bindsOwn_exitCode exits [⟨n + 1, .outOfBoundsPc, .register RA.a⟩] ?_
      simp only [List.cons_append, List.nil_append, List.mem_cons, List.not_mem_nil, or_false]
      rintro exit (rfl | rfl)
      · exact later n (by omega)
      · exact later (n + 1) (by omega)
    rw [if_neg unaligned] at place ⊢
    by_cases outside : g.maxBlockCount.toNat ≤ (s.regs RA.a).toNat / 4
    · rw [if_pos outside] at place ⊢
      have exit := realizes_pendingExit ⟨n + 1, .outOfBoundsPc, .register RA.a⟩
        (place.pass (skipped (n + 1))) anchored₁
      rw [ExitPc.read, target, disturbs.1] at exit
      have both := exit.widen bindsOwn_exitCode (exits ++ [⟨n, .unalignedPc, .register RA.a⟩]) [] ?_
      · simpa only [late, List.append_assoc, List.cons_append, List.nil_append, List.append_nil]
          using both
      · simp only [List.append_nil, List.mem_singleton, List.map_append, List.map_cons,
          List.map_nil, List.mem_append]
        rintro exit rfl (member | member)
        · exact later (n + 1) (by omega) member
        · exact absurd member (Nat.succ_ne_self n)
    · rw [if_neg outside] at place ⊢
      have branch := branches env s₁ (s.regs RA.a) anchored₁ target place.2
        (by rw [uses.maxBlockCount]; omega)
      rw [disturbs.1] at branch
      exact (branch.widen bindsOwn_exitCode [] late fun _ _ => List.not_mem_nil).after
        bindsOwn_exitCode place.1

end Riscv64Emulator.Jit.X64
