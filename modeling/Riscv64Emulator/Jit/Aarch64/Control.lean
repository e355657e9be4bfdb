import Riscv64Emulator.Jit.Aarch64.Locking

/-!
# Leaving AArch64 code

The exits and the branches of the AArch64 generator. An exit stores the dirty registers
first, so the guest it leaves behind is the one of the abstract model.
-/
namespace Riscv64Emulator.Jit.Aarch64

open LinearCode WriteBack RegisterCache

/-! ### Immediates -/

theorem encodable_immediateInstr {p : Platform} {basePc : Word} {target : A64R} (v : Word)
    (real : target ≠ A64R.xzr) : (immediateInstr p basePc target v).encodable = true := by
  unfold immediateInstr
  dsimp only
  split
  · simp only [Instr.encodable, bne_iff_ne.mpr real, Bool.true_and]
    decide
  · rfl

/-- `load_immediate` sets a register, also where it counts from the pc of the block. -/
theorem step_immediateInstr {b : Block} {s : State} (based : b.Based s) (env : Env)
    (target : A64R) (v : Word) :
    Sandboxed env (immediateInstr b.platform b.basePc target v) s ∧
      step env (immediateInstr b.platform b.basePc target v) s
        = .next (s.setReg target v false) := by
  have native : s.getForeign RA.basePc = false := by
    rw [State.getForeign, based.native, Bool.and_false]
  have value : s.get RA.basePc = b.basePc := based.value
  unfold immediateInstr
  dsimp only
  split
  · refine ⟨rfl, ?_⟩
    simp only [step, native, value]
    rw [BitVec.add_comm, BitVec.sub_add_cancel]
  · exact ⟨rfl, rfl⟩

/-! ### Exits -/

/-- The pc an exit carries. -/
def PendingExit.pc (exit : PendingExit) (s : State) : Word :=
  if exit.pcRegister ≠ A64R.xzr then s.regs exit.pcRegister else exit.pcValue

/-- The end of an exit, behind the stores. -/
def exitTail (b : Block) (exit : PendingExit) : List (Item Instr) :=
  [.instr (if exit.pcRegister ≠ A64R.xzr then .mov RA.exitPc exit.pcRegister
    else immediateInstr b.platform b.basePc RA.exitPc exit.pcValue),
   .instr (immediateInstr b.platform b.basePc RA.exitReason exit.reason.code), .instr .ret]

def exitInstrs (b : Block) (exit : PendingExit) : List (Item Instr) :=
  storeItems exit.snapshot (List.finRange RA.cacheSize) ++ exitTail b exit

/-- What `generatePendingExits` emits for one exit. -/
def exitCode (b : Block) (exit : PendingExit) : List (Item Instr) :=
  .label exit.label :: exitInstrs b exit

theorem binds_exitInstrs (b : Block) (exit : PendingExit) : binds (exitInstrs b exit) = [] := by
  rw [exitInstrs, binds_append, binds_storeItems]
  rfl

theorem bindsOwn_exitCode (b : Block) : BindsOwn (exitCode b) PendingExit.label := fun exit => by
  rw [exitCode, binds_label, binds_exitInstrs]

/-- The generator emits the code of the block `b`. -/
structure CodeGenerator.Uses (g : CodeGenerator) (b : Block) : Prop where
  platform : b.platform = g.platform
  basePc : b.basePc = g.basePc
  size : b.size = g.memory.size
  flags : b.setting.flags = g.flags
  maxBlockCount : b.setting.maxBlockCount = g.maxBlockCount
  singleStep : b.setting.singleStep = g.singleStep

section Runs

variable {b : Block} {g : CodeGenerator} (uses : g.Uses b)
include uses

theorem run_loadImmediate (target : A64R) (real : target ≠ A64R.xzr) (v : Word) (c : GenState) :
    (g.loadImmediate target v).run c
      = .ok ⟨(), [.instr (immediateInstr b.platform b.basePc target v)], [], c⟩ := by
  rw [uses.platform, uses.basePc]
  exact run_ins (encodable_immediateInstr v real) c

private theorem run_exitTail (exit : PendingExit) (c : GenState) :
    (do
      if exit.pcRegister ≠ A64R.xzr then ins (.mov RA.exitPc exit.pcRegister)
      else g.loadImmediate RA.exitPc exit.pcValue
      g.loadImmediate RA.exitReason exit.reason.code
      ins .ret : Gen Unit).run c = .ok ⟨(), exitTail b exit, [], c⟩ := by
  have mov : (Instr.mov RA.exitPc exit.pcRegister).encodable = true := rfl
  have ret : Instr.ret.encodable = true := rfl
  by_cases known : exit.pcRegister = A64R.xzr <;>
    simp [Emitter.run_bind, run_ins mov, run_ins ret, known, exitTail,
      run_loadImmediate uses RA.exitPc (by decide),
      run_loadImmediate uses RA.exitReason (by decide)]

theorem run_generateExit (reason : ArchExitReason) (pc : Word) (c : GenState) :
    (g.generateExit reason pc).run c = .ok ⟨(), exitInstrs b
      { label := 0, reason := reason, pcValue := pc, snapshot := c.cache.takeStateSnapshot }, [], c⟩ := by
  have tail := run_exitTail uses
    { label := 0, reason := reason, pcValue := pc, snapshot := c.cache.takeStateSnapshot } c
  unfold CodeGenerator.generateExit
  rw [Emitter.run_bind_of_ok (run_flushCurrentRegisters c)]
  exact congrArg _ tail

theorem run_generateExitRegister (reason : ArchExitReason) {pc : A64R} (real : pc ≠ A64R.xzr)
    (c : GenState) :
    (g.generateExitRegister reason pc).run c = .ok ⟨(), exitInstrs b
      { label := 0, reason := reason, pcRegister := pc, snapshot := c.cache.takeStateSnapshot },
      [], c⟩ := by
  have tail := run_exitTail uses
    { label := 0, reason := reason, pcRegister := pc, snapshot := c.cache.takeStateSnapshot } c
  simp only [ne_eq, real, not_false_eq_true, if_true] at tail
  unfold CodeGenerator.generateExitRegister
  rw [Emitter.run_bind_of_ok (run_flushCurrentRegisters c)]
  exact congrArg _ tail

theorem run_generatePendingExits (exits : List PendingExit) (c : GenState) :
    (g.generatePendingExits exits).run c = .ok ⟨(), exits.flatMap (exitCode b), [], c⟩ := by
  induction exits with
  | nil => rfl
  | cons exit rest ih =>
    have mov : (Instr.mov RA.exitPc exit.pcRegister).encodable = true := rfl
    have ret : Instr.ret.encodable = true := rfl
    have label : (insertLabel exit.label).run c = .ok ⟨(), [.label exit.label], [], c⟩ := rfl
    by_cases known : exit.pcRegister = A64R.xzr <;>
      simp [CodeGenerator.generatePendingExits, Emitter.run_bind, label, run_flushRegisters,
        run_ins mov, run_ins ret, known, exitCode, exitInstrs, exitTail, ih,
        run_loadImmediate uses RA.exitPc (by decide),
        run_loadImmediate uses RA.exitReason (by decide)]

end Runs

/-- The host leaves the code as the departure says. -/
def Delivers (b : Block) (env : Env) (s : State) : Departure → Exit → Prop
  | .exit reason pc, e =>
    e = .ret ∧ s.regs RA.exitReason = reason.code ∧ s.regs RA.exitPc = pc
  | .enter offset, e =>
    e = .jump (env.layout.codeBase + offset.setWidth 64) ∧ Anchored b.setting b.size env s

section Outcomes

variable (b : Block) (c : RegisterCache) (env : Env)

/-- The machine is gone, with the guest and the departure of the abstract outcome. -/
structure Departs (d : Departure) (guest : Guest) (e : Exit) (s : State) : Prop where
  delivers : Delivers b env s d e
  serves : env.Serves b.setting b.size guest
  guest : s.guest = guest

/-- The way a fragment ends has the abstract outcome, with the cache `c` behind it. -/
def Meets : Outcome → Ending State Exit → Prop
  | .next guest, .ran s' => Mirrors b c settled (env, guest) s'
  | .depart d guest, .left e s' => Departs b env d guest e s'
  | .fault, .faulted => True
  | _, _ => False

/-- Code with pending exits has an outcome, and stays in the sandbox until then. -/
abbrev Realizes (code : List (Item Instr)) (exits : List PendingExit) (s : State) (o : Outcome) :
    Prop :=
  LinearCode.Realizes (step env) (Sandboxed env) (exitCode b) code exits s (Meets b c env o)

end Outcomes

section Exits

variable {b : Block} {c : RegisterCache} {k : Ghost} {s s₁ : State}

theorem quits_exitInstrs (exit : PendingExit) (restores : Restores b exit.snapshot k s) :
    ∃ s', Quits (step k.1) (Sandboxed k.1) (exitInstrs b exit) s .ret s' ∧
      Departs b k.1 (.exit exit.reason (exit.pc s)) k.2 .ret s' := by
  let s₁ := s.setGuest k.2
  have based : b.Based s₁ := ⟨restores.ready.based.value, restores.ready.based.native⟩
  -- the pc, from a register or as an immediate
  have moves : ∃ f, Sandboxed k.1 (if exit.pcRegister ≠ A64R.xzr then .mov RA.exitPc exit.pcRegister
        else immediateInstr b.platform b.basePc RA.exitPc exit.pcValue) s₁ ∧
      step k.1 (if exit.pcRegister ≠ A64R.xzr then .mov RA.exitPc exit.pcRegister
        else immediateInstr b.platform b.basePc RA.exitPc exit.pcValue) s₁
        = .next (s₁.setReg RA.exitPc (exit.pc s) f) := by
    unfold PendingExit.pc
    by_cases known : exit.pcRegister = A64R.xzr
    · simp only [known, ne_eq, not_true_eq_false, if_false]
      exact ⟨false, step_immediateInstr based k.1 RA.exitPc exit.pcValue⟩
    · simp only [ne_eq, known, not_false_eq_true, if_true]
      refine ⟨s₁.getForeign exit.pcRegister, rfl, ?_⟩
      simp only [step, State.get_of_ne s₁ known]
      rfl
  obtain ⟨f, safe, next⟩ := moves
  let s₂ := s₁.setReg RA.exitPc (exit.pc s) f
  have based₂ : b.Based s₂ :=
    based.disturb (show Disturbs [RA.exitPc] s₁ s₂ from .setReg (by simp) _ _ _) (by decide)
  obtain ⟨safe₂, next₂⟩ := step_immediateInstr based₂ k.1 RA.exitReason exit.reason.code
  let s₃ := s₂.setReg RA.exitReason exit.reason.code false
  have safe₃ : Sandboxed k.1 .ret s₃ := rfl
  have tail : Quits (step k.1) (Sandboxed k.1) (exitTail b exit) s₁ .ret s₃ :=
    .cons safe next (.cons safe₂ next₂ (.leave safe₃ rfl))
  refine ⟨s₃, ⟨?_, ?_⟩, ⟨rfl, ?_, ?_⟩, restores.serves, ?_⟩
  · rw [exitInstrs, exec_append, restores.runs.runs]
    exact tail.runs
  · rw [exitInstrs, always_append, restores.runs.runs]
    exact ⟨restores.runs.always, tail.always⟩
  · rfl
  · rfl
  · rfl

/-- An exit at once. -/
theorem realizes_exit (exit : PendingExit) (restores : Restores b exit.snapshot k s) :
    Realizes b c k.1 (exitInstrs b exit) [] s (.depart (.exit exit.reason (exit.pc s)) k.2) := by
  obtain ⟨s', quits, departs⟩ := quits_exitInstrs exit restores
  exact ⟨.left .ret s', quits.leaves _ _, departs⟩

/-- A jump to a pending exit. -/
theorem leaves_pendingExit {code : List (Item Instr)} (exit : PendingExit)
    (seeks : Seeks (step k.1) (Sandboxed k.1) code exit.label s s₁)
    (restores : Restores b exit.snapshot k s₁) :
    ∃ s', Leaves (step k.1) (Sandboxed k.1) (exitCode b) code [exit] s .ret s' ∧
      Departs b k.1 (.exit exit.reason (exit.pc s₁)) k.2 .ret s' := by
  obtain ⟨s', quits, departs⟩ := quits_exitInstrs exit restores
  exact ⟨s', seeks.leaves rfl quits, departs⟩

theorem realizes_pendingExit {code : List (Item Instr)} (exit : PendingExit)
    (seeks : Seeks (step k.1) (Sandboxed k.1) code exit.label s s₁)
    (restores : Restores b exit.snapshot k s₁) :
    Realizes b c k.1 code [exit] s (.depart (.exit exit.reason (exit.pc s₁)) k.2) :=
  let ⟨s', leaves, departs⟩ := leaves_pendingExit exit seeks restores
  ⟨.left .ret s', leaves, departs⟩

end Exits

/-! ### Branches -/

/-- The load of the entry of a block whose offset in the table is in `t`. -/
def blockLoadInstrs (flags : CodeBufferFlags) (t : A64R) : List (Item Instr) :=
  if flags.multithreaded then
    [.instr (.alu .add .w64 t RA.blockBase t), .instr (.ldar t t)]
  else [.instr (.ldr .word false t RA.blockBase (.reg t))]

/-- The instructions of `generateValidatedBranch`. -/
def validatedBranchInstrs (flags : CodeBufferFlags) (t : A64R) (l : Nat) : List (Item Instr) :=
  blockLoadInstrs flags t ++
    [.instr (.cbz t l), .instr (.alu .add .w64 t RA.codeBase t), .instr (.br t)]

theorem binds_validatedBranchInstrs (flags : CodeBufferFlags) (t : A64R) (l : Nat) :
    binds (validatedBranchInstrs flags t l) = [] := by
  unfold validatedBranchInstrs blockLoadInstrs
  split <;> rfl

theorem run_generateValidatedBranch (g : CodeGenerator) {t : A64R} (real : t ≠ A64R.xzr)
    (c : GenState) :
    (g.generateValidatedBranch t).run c
      = .ok ⟨c.nextLabel, validatedBranchInstrs g.flags t c.nextLabel, [],
        { c with nextLabel := c.nextLabel + 1 }⟩ := by
  have ldr : (Instr.ldr .word false t RA.blockBase (.reg t)).encodable = true := rfl
  have add : ∀ base, (Instr.alu .add .w64 t base t).encodable = true := fun _ => rfl
  have ldar : (Instr.ldar t t).encodable = true := bne_iff_ne.mpr real
  have cbz : ∀ l, (Instr.cbz t l).encodable = true := fun _ => rfl
  have br : (Instr.br t).encodable = true := rfl
  cases multithreaded : g.flags.multithreaded <;>
    simp [CodeGenerator.generateValidatedBranch, Emitter.run_bind, run_ins, ldr, add, ldar, cbz, br,
      multithreaded, run_allocateLabel, validatedBranchInstrs, blockLoadInstrs]

theorem isScratch_ne_xzr {t : A64R} (scratch : isScratch t = true) : t ≠ A64R.xzr := by
  rintro rfl
  exact absurd scratch (by decide)

section Branches

variable {b : Block} {k : Ghost} {s : State}

/-- Both ways to load the entry of a block. -/
theorem blockLoad_runs {st : Setting} {size : Word} {env : Env} (flags : CodeBufferFlags)
    {t : A64R} (scratch : isScratch t = true) (anchored : Anchored st size env s) {index : Word}
    (position : s.regs t = index * 4) (inside : index.toNat < st.maxBlockCount.toNat) :
    ∃ s₁, Continues (step env) (Sandboxed env) (blockLoadInstrs flags t) s s₁ ∧
      Disturbs [t] s s₁ ∧ s₁.regs t = (st.blockToOffset index.toNat).setWidth 64 := by
  have real := isScratch_ne_xzr scratch
  have load := anchored.serves.load_block index inside
  have permitted := anchored.serves.permits_block index inside
  unfold blockLoadInstrs
  split
  · -- the address is computed first
    let f := s.getForeign RA.blockBase || s.getForeign t
    let s₁ := s.setReg t (env.layout.blockBase + index * 4) f
    have address : s₁.regs t = env.layout.blockBase + index * 4 := by
      rw [State.regs_setReg s real, if_pos rfl]
    have add : step env (.alu .add .w64 t RA.blockBase t) s = .next s₁ := by
      simp only [step, Width.lift, AluOp.apply, State.get_of_ne s real, position]
      rw [State.get_of_ne s (by decide), anchored.blockBase]
    have guest : s₁.guest = s.guest := State.guest_setReg ..
    have next : ∃ f', step env (.ldar t t) s₁
        = .next (s₁.setReg t ((st.blockToOffset index.toNat).setWidth 64) f') := by
      simp only [step, guest, address, load]
      exact ⟨_, rfl⟩
    obtain ⟨f', next⟩ := next
    have safe : Sandboxed env (.ldar t t) s₁ := by
      simp only [Sandboxed, sandboxed, accesses, storesForeign, guest, address, permitted,
        List.all_cons, List.all_nil, Bool.not_false, Bool.and_self]
    have first : Sandboxed env (.alu .add .w64 t RA.blockBase t) s := rfl
    refine ⟨_, .cons first add (.cons safe next (.nil _)), ?_, ?_⟩
    · exact (Disturbs.setReg (by simp) s _ _).trans (.setReg (by simp) s₁ _ _)
    · rw [State.regs_setReg s₁ real, if_pos rfl]
  · have address : s.address RA.blockBase (.reg t) = env.layout.blockBase + index * 4 := by
      rw [State.address, anchored.blockBase, State.get_of_ne s real, position]
    have next : ∃ f, step env (.ldr .word false t RA.blockBase (.reg t)) s
        = .next (s.setReg t ((st.blockToOffset index.toNat).setWidth 64) f) := by
      simp only [step, address, AccessSize.bytes, load, AccessSize.extend, Bool.false_eq_true,
        if_false]
      exact ⟨_, rfl⟩
    obtain ⟨f, next⟩ := next
    have safe : Sandboxed env (.ldr .word false t RA.blockBase (.reg t)) s := by
      simp only [Sandboxed, sandboxed, accesses, storesForeign, address, AccessSize.bytes, permitted,
        List.all_cons, List.all_nil, Bool.not_false, Bool.and_self]
    refine ⟨_, .cons safe next (.nil _), .setReg (by simp) s _ _, ?_⟩
    rw [State.regs_setReg s real, if_pos rfl]

/-- A valid target is entered when its block is published; otherwise the code goes to the
exit. -/
theorem validatedBranch_runs {st : Setting} {size : Word} {env : Env} (flags : CodeBufferFlags)
    {t : A64R} (scratch : isScratch t = true) (anchored : Anchored st size env s) {index : Word}
    (position : s.regs t = index * 4) (inside : index.toNat < st.maxBlockCount.toNat) (l : Nat) :
    let offset := st.blockToOffset index.toNat
    ∃ s₁, Disturbs [t] s s₁ ∧
      if offset = 0 then
        Seeks (step env) (Sandboxed env) (validatedBranchInstrs flags t l) l s s₁
      else Quits (step env) (Sandboxed env) (validatedBranchInstrs flags t l) s
        (.jump (env.layout.codeBase + offset.setWidth 64)) s₁ := by
  intro offset
  have real := isScratch_ne_xzr scratch
  have free : isFree t = true := by
    have all : ∀ t, isScratch t = true → isFree t = true := by decide
    exact all t scratch
  obtain ⟨s₁, loads, disturbs, value⟩ := blockLoad_runs flags scratch anchored position inside
  have safe : Sandboxed env (.cbz t l) s₁ := rfl
  have zero : step env (.cbz t l) s₁ = if offset = 0 then .jump l s₁ else .next s₁ := by
    simp only [step, State.get_of_ne s₁ real, value, setWidth_eq_zero_iff, offset]
  -- an offset of zero stands for a block that was not generated
  by_cases absent : offset = 0
  · refine ⟨s₁, disturbs, ?_⟩
    rw [if_pos absent] at zero ⊢
    exact loads.seeks (.jump safe zero (by simp))
  · rw [if_neg absent] at zero
    let s₂ := s₁.setReg t (env.layout.codeBase + offset.setWidth 64)
      (s₁.getForeign RA.codeBase || s₁.getForeign t)
    have base := (disturbs.anchored (by simpa using free) anchored).codeBase
    have add : step env (.alu .add .w64 t RA.codeBase t) s₁ = .next s₂ := by
      simp only [step, Width.lift, AluOp.apply, State.get_of_ne s₁ real, value]
      rw [State.get_of_ne s₁ (by decide), base]
    have target : s₂.get t = env.layout.codeBase + offset.setWidth 64 := by
      rw [State.get_setReg s₁ real, if_pos rfl]
    have safe₁ : Sandboxed env (.alu .add .w64 t RA.codeBase t) s₁ := rfl
    have safe₂ : Sandboxed env (.br t) s₂ := rfl
    have jump : step env (.br t) s₂
        = .leave (.jump (env.layout.codeBase + offset.setWidth 64)) s₂ := by
      simp only [step, target]
    have rest : Quits (step env) (Sandboxed env)
        [.instr (.cbz t l), .instr (.alu .add .w64 t RA.codeBase t), .instr (.br t)] s₁
        (.jump (env.layout.codeBase + offset.setWidth 64)) s₂ :=
      .cons safe zero (.cons safe₁ add (.leave safe₂ jump))
    refine ⟨s₂, disturbs.trans (.setReg (by simp) s₁ _ _), ?_⟩
    rw [if_neg absent]
    refine ⟨?_, ?_⟩
    · rw [validatedBranchInstrs, exec_append, loads.runs]
      exact rest.runs
    · rw [validatedBranchInstrs, always_append, loads.runs]
      exact ⟨loads.always, rest.always⟩

/-- The branch to a valid target whose offset in the block table is in `t`, with the exit
for a block that is not there. The registers have been flushed. -/
theorem realizes_validatedBranch {c : RegisterCache} (flags : CodeBufferFlags)
    (ready : b.Ready k.1 s) (guest : s.guest = k.2) {t : A64R} (scratch : isScratch t = true)
    (target : Word) (position : s.regs t = target / 4 * 4)
    (inside : target.toNat / 4 < b.setting.maxBlockCount.toNat) (exit : PendingExit)
    (reason : exit.reason = .blockNotGenerated) (empty : exit.snapshot = fun _ => Register.zero)
    (kept : ∀ s', Disturbs [t] s s' → exit.pc s' = target)
    (continues : b.setting.singleStep = false) :
    Realizes b c k.1 (validatedBranchInstrs flags t exit.label) [exit] s
      (b.setting.branchTo target k.2) := by
  have index : (target / 4).toNat = target.toNat / 4 := BitVec.toNat_udiv
  have free : isFree t = true := by
    have all : ∀ t, isScratch t = true → isFree t = true := by decide
    exact all t scratch
  obtain ⟨s₁, disturbs, runs⟩ := validatedBranch_runs flags scratch ready.anchored position
    (by rw [index]; exact inside) exit.label
  have ready₁ := ready.disturb disturbs (by simpa using free)
  have guest₁ : s₁.guest = k.2 := disturbs.1.trans guest
  rw [index] at runs
  rw [Setting.branchTo, continues]
  -- the cache was flushed before, so the exit has nothing left to store
  by_cases absent : b.setting.blockToOffset (target.toNat / 4) = 0
  · rw [if_pos absent] at runs
    have leaves := realizes_pendingExit (c := c) exit runs
      (by rw [empty]; exact .empty ready₁ guest₁)
    rw [kept s₁ disturbs, reason] at leaves
    simpa [absent] using leaves
  · rw [if_neg absent] at runs
    simp only [Bool.false_eq_true, if_false, absent]
    refine ⟨.left _ s₁, runs.leaves _ _, ⟨rfl, ready₁.anchored⟩, ?_, guest₁⟩
    rw [← guest₁]
    exact ready₁.anchored.serves

end Branches

/-- Output of a generator for the end of an instruction: no labels in the code, the labels
of its exits fresh. -/
structure Terminal (n : Nat) (code : List (Item Instr)) (exits : List PendingExit) (n' : Nat) :
    Prop where
  grows : n ≤ n'
  free : binds code = []
  fresh : ∀ exit ∈ exits, n ≤ exit.label ∧ exit.label < n'

theorem Terminal.freshLabels {n n' : Nat} {code : List (Item Instr)} {exits : List PendingExit}
    (terminal : Terminal n code exits n') : FreshLabels PendingExit.label n code exits n' :=
  .unlabeled terminal.grows terminal.free terminal.fresh

theorem Terminal.exit (b : Block) (n : Nat) (exit : PendingExit) :
    Terminal n (exitInstrs b exit) [] n :=
  ⟨Nat.le_refl n, binds_exitInstrs b exit, fun _ member => absurd member List.not_mem_nil⟩

section Targets

variable {b : Block} {g : CodeGenerator} (uses : g.Uses b)
include uses

/-- `generate_static_branch`. -/
theorem staticBranch_realizes (target : Word) (c : GenState) (c' : RegisterCache) :
    ∃ code exits n', (g.generateStaticBranch target RA.a).run c
        = .ok ⟨(), code, exits, { c with nextLabel := n' }⟩ ∧
      Terminal c.nextLabel code exits n' ∧
      ∀ k s, Restores b c.cache.takeStateSnapshot k s →
        Realizes b c' k.1 code exits s (b.setting.staticBranch g.currentPc target k.2) := by
  have block : (target / 4).toNat = target.toNat / 4 := BitVec.toNat_udiv
  have exits : ∀ reason pc k s, Restores b c.cache.takeStateSnapshot k s →
      Realizes b c' k.1 (exitInstrs b
          { label := 0, reason := reason, pcValue := pc, snapshot := c.cache.takeStateSnapshot })
        [] s (.depart (.exit reason pc) k.2) := fun reason pc k s restores =>
    realizes_exit (c := c')
      { label := 0, reason := reason, pcValue := pc, snapshot := c.cache.takeStateSnapshot } restores
  unfold CodeGenerator.generateStaticBranch Setting.staticBranch
  rw [uses.maxBlockCount]
  dsimp only
  -- the tests that need no registers are made at compile time, in the source's order
  by_cases unaligned : target &&& 3 ≠ 0
  · simp only [if_pos unaligned]
    exact ⟨_, _, _, run_generateExit uses .unalignedPc g.currentPc c, .exit ..,
      fun k s restores => exits .unalignedPc g.currentPc k s restores⟩
  simp only [if_neg unaligned]
  by_cases outside : g.maxBlockCount ≤ target / 4
  · have above : g.maxBlockCount.toNat ≤ target.toNat / 4 := by rwa [BitVec.le_def, block] at outside
    simp only [if_pos outside, if_pos above]
    exact ⟨_, _, _, run_generateExit uses .outOfBoundsPc g.currentPc c, .exit ..,
      fun k s restores => exits .outOfBoundsPc g.currentPc k s restores⟩
  have below : ¬g.maxBlockCount.toNat ≤ target.toNat / 4 := by rwa [BitVec.le_def, block] at outside
  simp only [if_neg outside, if_neg below]
  cases stepping : g.singleStep with
  | true =>
    simp only [↓reduceIte]
    refine ⟨_, _, _, run_generateExit uses .singleStep target c, .exit .., fun k s restores => ?_⟩
    rw [Setting.branchTo, uses.singleStep, stepping]
    exact exits .singleStep target k s restores
  | false =>
    let exit : PendingExit := { label := c.nextLabel, reason := .blockNotGenerated, pcValue := target,
                                snapshot := fun _ => Register.zero }
    refine ⟨.instr (immediateInstr b.platform b.basePc RA.a (target / 4 * 4)) ::
        (storeItems c.cache.takeStateSnapshot (List.finRange RA.cacheSize) ++
          validatedBranchInstrs g.flags RA.a c.nextLabel), [exit], c.nextLabel + 1, ?_, ?_,
      fun k s restores => ?_⟩
    · simp [Emitter.run_bind, run_loadImmediate uses RA.a (by decide),
        run_flushCurrentRegisters, run_generateValidatedBranch g (t := RA.a) (by decide),
        CodeGenerator.addPendingExit, CodeGenerator.exitSnapshot, exit]
    · refine ⟨Nat.le_succ _, ?_, by simp [exit]⟩
      rw [binds_instr, binds_append, binds_storeItems, binds_validatedBranchInstrs]
      rfl
    · obtain ⟨safe, next⟩ := step_immediateInstr restores.ready.based k.1 RA.a (target / 4 * 4)
      let s₁ := s.setReg RA.a (target / 4 * 4) false
      have disturbs : Disturbs [RA.a] s s₁ := .setReg (by simp) s _ _
      -- loading the target does not touch the cached registers
      have restores₁ := restores.disturb disturbs (by decide) (by decide)
      have ready₂ := restores₁.ready.setGuest restores.serves
      have branch := realizes_validatedBranch (c := c') (k := k) (s := s₁.setGuest k.2) g.flags ready₂
        rfl (t := RA.a) rfl target rfl (by rw [uses.maxBlockCount]; omega) exit rfl rfl
        (fun _ _ => rfl) (by rw [uses.singleStep, stepping])
      have first : Continues (step k.1) (Sandboxed k.1)
          [.instr (immediateInstr b.platform b.basePc RA.a (target / 4 * 4))] s s₁ :=
        .cons safe next (.nil _)
      exact (branch.after (bindsOwn_exitCode b) restores₁.runs).after (bindsOwn_exitCode b) first

end Targets

/-! ### Dynamic branches -/

theorem holds_testFlags (a v : Word) :
    Condition.notEqual.holds (testFlags a v) = decide (a &&& v ≠ 0) := by
  simp only [Condition.holds, testFlags, ne_eq, decide_not]
  rfl

theorem holds_unsignedGreaterEqual {w : Nat} (a v : BitVec w) :
    Condition.unsignedGreaterEqual.holds (compareFlags a v) = decide (v.toNat ≤ a.toNat) := rfl

/-- Without bit 0 a target is aligned when bit 1 is clear. -/
theorem masked_and_three (t : Word) : (t &&& ~~~1) &&& 0b11 = t &&& 2 := by
  rw [BitVec.and_assoc]
  rfl

theorem masked_eq {t : Word} (aligned : t &&& 2 = 0) : t &&& ~~~1 = t / 4 * 4 := by
  have bit : t.getLsbD 1 = false := by
    have bits := congrArg (fun v : Word => v.getLsbD 1) aligned
    simpa using bits
  have shifted : (t / 4 * 4 : Word) = (t >>> 2) <<< 2 := by
    apply BitVec.eq_of_toNat_eq
    simp only [BitVec.toNat_mul, BitVec.toNat_udiv, BitVec.toNat_shiftLeft,
      BitVec.toNat_ushiftRight, Nat.shiftRight_eq_div_pow, Nat.shiftLeft_eq]
    rfl
  have mask : ∀ i < 64, (~~~(1 : Word)).getLsbD i = decide (i ≠ 0) := by decide
  rw [shifted]
  apply BitVec.eq_of_getLsbD_eq
  intro i low
  rw [BitVec.getLsbD_and, mask i low, BitVec.getLsbD_shiftLeft, BitVec.getLsbD_ushiftRight]
  -- bit 0 is masked, bit 1 is clear by assumption
  rcases (show i = 0 ∨ i = 1 ∨ 2 ≤ i by omega) with rfl | rfl | above
  · simp
  · simp only [bit, Bool.false_and, show (1 : Nat) < 2 by decide, decide_true, Bool.not_true,
      Bool.and_false]
  · simp [low, show 2 + (i - 2) = i by omega, show ¬i < 2 by omega, show i ≠ 0 by omega]

/-- The tests of `generate_dynamic_branch` for the masked target in `RA.b`. -/
def targetTests (oobLabel unalignedLabel : Nat) : List (Item Instr) :=
  [.instr (.tst RA.b 0b11), .instr (.b .notEqual unalignedLabel),
   .instr (.cmp .w64 RA.b RA.maxExecutablePc), .instr (.b .unsignedGreaterEqual oobLabel)]

/-- The tests lead to one of three places. -/
theorem targetTests_runs {st : Setting} {size : Word} {env : Env} {s : State} {target : Word}
    (anchored : Anchored st size env s) (masked : s.regs RA.b = target &&& ~~~1)
    (oobLabel unalignedLabel : Nat) :
    ∃ s₁, Disturbs [] s s₁ ∧
      if target &&& 2 ≠ 0 then
        Seeks (step env) (Sandboxed env) (targetTests oobLabel unalignedLabel) unalignedLabel s s₁
      else if st.maxBlockCount.toNat ≤ target.toNat / 4 then
        Seeks (step env) (Sandboxed env) (targetTests oobLabel unalignedLabel) oobLabel s s₁
      else Continues (step env) (Sandboxed env) (targetTests oobLabel unalignedLabel) s s₁ := by
  have value : s.get RA.b = target &&& ~~~1 := masked
  let s₁ := s.setFlags (some (testFlags (s.get RA.b) 0b11))
  have test : step env (.tst RA.b 0b11) s = .next s₁ := rfl
  have safe₁ : Sandboxed env (.tst RA.b 0b11) s := rfl
  have safe₂ : Sandboxed env (.b .notEqual unalignedLabel) s₁ := rfl
  have branch₁ : step env (.b .notEqual unalignedLabel) s₁
      = if target &&& 2 ≠ 0 then .jump unalignedLabel s₁ else .next s₁ := by
    simp only [step, s₁, State.flags_setFlags, holds_testFlags, value, masked_and_three,
      decide_eq_true_eq]
  by_cases unaligned : target &&& 2 ≠ 0
  · rw [if_pos unaligned] at branch₁
    refine ⟨s₁, .setFlags _ _ _, ?_⟩
    rw [if_pos unaligned]
    exact .cons safe₁ test (.jump safe₂ branch₁ List.not_mem_nil)
  rw [if_neg unaligned] at branch₁
  have aligned : target &&& 2 = 0 := by simpa using unaligned
  let s₂ := s₁.setFlags (some (compareFlags (s₁.get RA.b) (s₁.get RA.maxExecutablePc)))
  have compare : step env (.cmp .w64 RA.b RA.maxExecutablePc) s₁ = .next s₂ := rfl
  have safe₃ : Sandboxed env (.cmp .w64 RA.b RA.maxExecutablePc) s₁ := rfl
  have safe₄ : Sandboxed env (.b .unsignedGreaterEqual oobLabel) s₂ := rfl
  have bound : s₁.get RA.maxExecutablePc = st.maxBlockCount * 4 := anchored.maxExecutablePc
  have value₁ : s₁.get RA.b = target / 4 * 4 := by
    rw [← masked_eq aligned]
    exact masked
  -- the source compares byte addresses, the effect block numbers
  have limits : (st.maxBlockCount * 4).toNat ≤ (target / 4 * 4).toNat ↔
      st.maxBlockCount.toNat ≤ target.toNat / 4 := by
    have fit := anchored.serves.describes.blocks_fit
    rw [anchored.serves.maxBlocks] at fit
    have small := target.isLt
    simp only [BitVec.toNat_mul, BitVec.toNat_udiv, BitVec.reduceToNat, BitVec.ofNat_eq_ofNat]
    omega
  have branch₂ : step env (.b .unsignedGreaterEqual oobLabel) s₂
      = if st.maxBlockCount.toNat ≤ target.toNat / 4 then .jump oobLabel s₂ else .next s₂ := by
    simp only [step, s₂, State.flags_setFlags, holds_unsignedGreaterEqual, bound, value₁,
      decide_eq_true_eq, limits]
  refine ⟨s₂, (Disturbs.setFlags _ _ _).trans (.setFlags _ _ _), ?_⟩
  rw [if_neg unaligned]
  by_cases outside : st.maxBlockCount.toNat ≤ target.toNat / 4
  · rw [if_pos outside] at branch₂ ⊢
    exact .cons safe₁ test (.cons safe₂ branch₁ (.cons safe₃ compare
      (.jump safe₄ branch₂ List.not_mem_nil)))
  · rw [if_neg outside] at branch₂ ⊢
    exact .cons safe₁ test (.cons safe₂ branch₁ (.cons safe₃ compare
      (.cons safe₄ branch₂ (.nil _))))

section DynamicBranch

variable {b : Block} {g : CodeGenerator} (uses : g.Uses b)
include uses

/-- `generate_dynamic_branch`, behind the tests. -/
private theorem validTarget_realizes {t : A64R} (real : t ≠ A64R.xzr) (apart : t ≠ RA.b)
    (c : GenState) (c' : RegisterCache) :
    let late : List PendingExit :=
      [{ label := c.nextLabel, reason := .outOfBoundsPc, pcRegister := t,
         snapshot := fun _ => Register.zero },
       { label := c.nextLabel + 1, reason := .unalignedPc, pcRegister := t,
         snapshot := fun _ => Register.zero }]
    ∃ code exits n', c.nextLabel + 2 ≤ n' ∧ binds code = [] ∧
      (∀ exit ∈ exits, c.nextLabel + 2 ≤ exit.label ∧ exit.label < n') ∧
      (g.generateDynamicBranch t RA.b).run c = .ok ⟨(),
        .instr (.logicImm .and RA.b t (~~~1)) ::
          (storeItems c.cache.takeStateSnapshot (List.finRange RA.cacheSize) ++
            (targetTests c.nextLabel (c.nextLabel + 1) ++ code)), exits ++ late,
        { c with nextLabel := n' }⟩ ∧
      ∀ k s target, b.Ready k.1 s → s.guest = k.2 → s.regs t = target →
        s.regs RA.b = target &&& ~~~1 → target &&& 2 = 0 →
        target.toNat / 4 < b.setting.maxBlockCount.toNat →
        Restores b c.cache.takeStateSnapshot k s →
        Realizes b c' k.1 code exits s (b.setting.branchTo target k.2) := by
  intro late
  have logic : (Instr.logicImm .and RA.b t 18446744073709551614#64).encodable = true := rfl
  have tst : (Instr.tst RA.b 3#64).encodable = true := rfl
  have cmp : (Instr.cmp .w64 RA.b RA.maxExecutablePc).encodable = true := rfl
  have branch : ∀ condition l, (Instr.b condition l).encodable = true := fun _ _ => rfl
  -- single stepping leaves with the target, otherwise the table is asked
  cases stepping : g.singleStep with
  | true =>
    let exit : PendingExit := { label := 0, reason := .singleStep, pcRegister := t,
                                snapshot := c.cache.takeStateSnapshot }
    refine ⟨exitInstrs b exit, [], c.nextLabel + 2, Nat.le_refl _, binds_exitInstrs b exit,
      fun _ member => absurd member List.not_mem_nil, ?_, ?_⟩
    · simp [CodeGenerator.generateDynamicBranch, Emitter.run_bind, verify, apart, run_ins logic,
        run_ins tst, run_ins cmp, run_ins (branch _ _), run_allocateLabel, stepping,
        run_flushCurrentRegisters, run_generateExitRegister uses _ real,
        CodeGenerator.addPendingExitRegister, CodeGenerator.exitSnapshot, targetTests, late, exit]
    · rintro k s target - - value - - - restores
      rw [Setting.branchTo, uses.singleStep, stepping]
      have leaves := realizes_exit (c := c') exit restores
      have pc : exit.pc s = target := by rw [PendingExit.pc, if_pos real, value]
      rwa [pc] at leaves
  | false =>
    let exit : PendingExit := { label := c.nextLabel + 2, reason := .blockNotGenerated,
                                pcRegister := t, snapshot := fun _ => Register.zero }
    refine ⟨validatedBranchInstrs g.flags RA.b (c.nextLabel + 2), [exit], c.nextLabel + 3,
      Nat.le_succ _, binds_validatedBranchInstrs .., by simp [exit], ?_, ?_⟩
    · simp [CodeGenerator.generateDynamicBranch, Emitter.run_bind, verify, apart, run_ins logic,
        run_ins tst, run_ins cmp, run_ins (branch _ _), run_allocateLabel, stepping,
        run_flushCurrentRegisters, run_generateValidatedBranch g (t := RA.b) (by decide),
        CodeGenerator.addPendingExitRegister, CodeGenerator.exitSnapshot, targetTests, late, exit]
    · rintro k s target ready guest value masked aligned inside -
      refine realizes_validatedBranch g.flags ready guest (t := RA.b) rfl target
        (masked.trans (masked_eq aligned)) inside exit rfl rfl (fun s' disturbs => ?_)
        (by rw [uses.singleStep, stepping])
      rw [PendingExit.pc, if_pos real, ← value]
      exact (disturbs.2 t (by simpa using apart)).1

/-- `generate_dynamic_branch`. -/
theorem dynamicBranch_realizes {t : A64R} (real : t ≠ A64R.xzr) (apart : t ≠ RA.b)
    (c : GenState) (c' : RegisterCache) (wf : c.cache.WF) :
    ∃ code exits n', (g.generateDynamicBranch t RA.b).run c
        = .ok ⟨(), code, exits, { c with nextLabel := n' }⟩ ∧
      Terminal c.nextLabel code exits n' ∧
      ∀ k s, Mirrors b c.cache settled k s →
        Realizes b c' k.1 code exits s (b.setting.dynamicBranch (s.regs t) k.2) := by
  obtain ⟨code, exits, n', grows, free, fresh, ran, branches⟩ :=
    validTarget_realizes uses real apart c c'
  refine ⟨_, _, n', ran, ⟨by omega, ?_, ?_⟩, fun k s mirrors => ?_⟩
  · rw [binds_instr, binds_append, binds_append, binds_storeItems, free]
    rfl
  · intro exit member
    rcases List.mem_append.mp member with own | own
    · have := fresh exit own
      omega
    · simp only [List.mem_cons, List.not_mem_nil, or_false] at own
      rcases own with rfl | rfl <;> exact ⟨by simp, by simp; omega⟩
  -- the masked target, and the stores of the dirty registers
  let target := s.regs t
  let s₁ := s.setReg RA.b (target &&& ~~~1) (s.getForeign t)
  have mask : step k.1 (.logicImm .and RA.b t (~~~1)) s = .next s₁ := by
    simp only [step, AluOp.apply, State.get_of_ne s real]
    rfl
  have safe : Sandboxed k.1 (.logicImm .and RA.b t (~~~1)) s := rfl
  have disturbs₁ : Disturbs [RA.b] s s₁ := .setReg (by simp) s _ _
  have mirrors₁ := mirrors.disturb disturbs₁ (by decide)
  have mirrors₂ := mirrors₁.flushed wf
  have front : Continues (step k.1) (Sandboxed k.1)
      (.instr (.logicImm .and RA.b t (~~~1)) ::
        storeItems c.cache.takeStateSnapshot (List.finRange RA.cacheSize)) s (s₁.setGuest k.2) :=
    .cons safe mask (mirrors₁.restores wf).runs
  have masked : (s₁.setGuest k.2).regs RA.b = target &&& ~~~1 := rfl
  have same : (s₁.setGuest k.2).regs t = target :=
    (disturbs₁.2 t (by simpa using apart)).1
  obtain ⟨s₂, disturbs₂, place⟩ := targetTests_runs mirrors₂.ready.anchored masked c.nextLabel
    (c.nextLabel + 1)
  have mirrors₃ := mirrors₂.disturb disturbs₂ (by simp)
  have ready₃ := mirrors₃.ready
  have guest₃ : s₂.guest = k.2 := disturbs₂.1
  have value₃ : s₂.regs t = target := (disturbs₂.2 t List.not_mem_nil).1.trans same
  have masked₃ : s₂.regs RA.b = target &&& ~~~1 := (disturbs₂.2 _ List.not_mem_nil).1.trans masked
  have skipped : ∀ l, l ∉ binds code := by rw [free]; exact fun _ => List.not_mem_nil
  have later : ∀ l, l < c.nextLabel + 2 → l ∉ exits.map PendingExit.label := by
    intro l low member
    obtain ⟨exit, listed, rfl⟩ := List.mem_map.mp member
    exact absurd (fresh exit listed).1 (by omega)
  have pcs : ∀ exit : PendingExit, exit.pcRegister = t → exit.pc s₂ = target := by
    rintro exit rfl
    rw [PendingExit.pc, if_pos real, value₃]
  suffices behind : Realizes b c' k.1 (targetTests c.nextLabel (c.nextLabel + 1) ++ code) _
      (s₁.setGuest k.2) (b.setting.dynamicBranch target k.2) from
    behind.after (bindsOwn_exitCode b) front
  unfold Setting.dynamicBranch
  by_cases unaligned : target &&& 2 ≠ 0
  · rw [if_pos unaligned] at place ⊢
    let exit : PendingExit := { label := c.nextLabel + 1, reason := .unalignedPc, pcRegister := t,
                                snapshot := fun _ => Register.zero }
    have leaves := realizes_pendingExit (c := c') exit (place.pass (skipped _))
      (.empty ready₃ guest₃)
    rw [pcs exit rfl] at leaves
    have both := leaves.widen (bindsOwn_exitCode b)
      (exits ++ [{ exit with label := c.nextLabel, reason := .outOfBoundsPc }]) [] ?_
    · simpa only [List.append_assoc, List.cons_append, List.nil_append, List.append_nil] using both
    · simp only [List.append_nil, List.mem_singleton, List.map_append, List.map_cons, List.map_nil,
        List.mem_append]
      rintro e rfl (member | member)
      · exact later (c.nextLabel + 1) (by omega) member
      · exact absurd member (Nat.succ_ne_self _)
  rw [if_neg unaligned] at place ⊢
  by_cases outside : b.setting.maxBlockCount.toNat ≤ target.toNat / 4
  · rw [if_pos outside] at place ⊢
    let exit : PendingExit := { label := c.nextLabel, reason := .outOfBoundsPc, pcRegister := t,
                                snapshot := fun _ => Register.zero }
    have leaves := realizes_pendingExit (c := c') exit (place.pass (skipped _))
      (.empty ready₃ guest₃)
    rw [pcs exit rfl] at leaves
    refine leaves.widen (bindsOwn_exitCode b) exits
      [{ exit with label := c.nextLabel + 1, reason := .unalignedPc }] ?_
    simp only [List.cons_append, List.nil_append, List.mem_cons, List.not_mem_nil, or_false]
    rintro e (rfl | rfl)
    · exact later c.nextLabel (by omega)
    · exact later (c.nextLabel + 1) (by omega)
  · rw [if_neg outside] at place ⊢
    have branch := branches k s₂ target ready₃ guest₃ value₃ masked₃ (by simpa using unaligned)
      (by omega) (mirrors₃.restores wf)
    exact (branch.widen (bindsOwn_exitCode b) [] _ fun _ _ => List.not_mem_nil).after
      (bindsOwn_exitCode b) place

end DynamicBranch

end Riscv64Emulator.Jit.Aarch64
