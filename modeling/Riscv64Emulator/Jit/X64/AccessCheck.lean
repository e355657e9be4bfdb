import Riscv64Emulator.Jit.X64.Compute

/-!
# The access check of the x64 generator

`generate_validate_memory_access` checks alignment, the size of the memory and the
permission bytes. Its code goes on exactly for the accesses `Setting.accessAllowed` allows.
-/
namespace Riscv64Emulator.Jit.X64

open LinearCode

/-- Code without labels that goes on when `cond` holds and jumps to `l` otherwise. -/
abbrev Checks {α : Type} (x : Gen α) (n : Nat) (a : α) (exits : List PendingExit) (l : Nat)
    (pre cond : Env → State → Prop) (post : Env → State → State → Prop) : Prop :=
  Emitter.Guards step Sandboxed x n a n exits l pre cond post

/-- Only the registers `ts` and the flags may differ. -/
def Disturbs (ts : List X64R) (s s' : State) : Prop :=
  s'.guest = s.guest ∧ ∀ q, q ∉ ts → s'.regs q = s.regs q ∧ s'.foreign q = s.foreign q

namespace Disturbs

variable {ts : List X64R} {s s' s'' : State}

theorem refl (ts : List X64R) (s : State) : Disturbs ts s s := ⟨rfl, fun _ _ => ⟨rfl, rfl⟩⟩

theorem trans (first : Disturbs ts s s') (second : Disturbs ts s' s'') : Disturbs ts s s'' :=
  ⟨second.1.trans first.1, fun q other =>
    ⟨(second.2 q other).1.trans (first.2 q other).1, (second.2 q other).2.trans (first.2 q other).2⟩⟩

theorem setFlags (ts : List X64R) (s : State) (f : Option Flags) : Disturbs ts s (s.setFlags f) :=
  ⟨rfl, fun _ _ => ⟨rfl, rfl⟩⟩

theorem setReg {t : X64R} (member : t ∈ ts) (s : State) (v : Word) (f : Bool) :
    Disturbs ts s (s.setReg t v f) := by
  refine ⟨rfl, fun q other => ?_⟩
  have apart : q ≠ t := fun h => other (h ▸ member)
  simp [apart]

theorem anchored {st : Setting} {size : Word} {env : Env} (disturbs : Disturbs ts s s')
    (scratch : ∀ t ∈ ts, isScratch t = true) (anchored : Anchored st size env s) :
    Anchored st size env s' := by
  have base : ∀ q, isScratch q = false → s'.regs q = s.regs q := fun q fixed =>
    (disturbs.2 q fun member => by simp [scratch q member] at fixed).1
  constructor
  · rw [disturbs.1]
    exact anchored.serves
  · rw [base _ rfl, anchored.registerState]
  · rw [base _ rfl, anchored.memoryBase]
  · rw [base _ rfl, anchored.permissionsBase]
  · rw [base _ rfl, anchored.codeBase]
  · rw [base _ rfl, anchored.blockBase]

end Disturbs

theorem checks_defer (exit : PendingExit) (l n : Nat) (ts : List X64R) :
    Checks (Emitter.defer exit) n () [exit] l (fun _ _ => True) (fun _ _ => True)
      (fun _ => Disturbs ts) := by
  refine (Emitter.Guards.defer exit n l).conseq (fun _ _ _ => trivial) (fun _ _ _ => Iff.rfl) ?_
  rintro env s s' - rfl
  exact .refl ts _

/-- A flag-setting instruction and the jump on its outcome, in front of further checks. -/
theorem checks_flags_jcc {j : Instr} (encodable : j.encodable = true) (c : Condition)
    (f : State → Flags) {rest : Gen Unit} {n l : Nat} {exits : List PendingExit}
    {pre pre' cond : Env → State → Prop} {ts : List X64R}
    (rests : Checks rest n () exits l pre' cond fun _ => Disturbs ts)
    (compares : ∀ env s, pre env s → Sandboxed env j s ∧
      step env j s = .next (s.setFlags (some (f s))))
    (enter : ∀ env s v, pre env s → c.holds (f s) = false → pre' env (s.setFlags v))
    (blind : ∀ env s v, pre env s → (cond env (s.setFlags v) ↔ cond env s)) :
    Checks (do ins j; ins (.jcc c l); rest) n () exits l pre
      (fun env s => c.holds (f s) = false ∧ cond env s) (fun _ => Disturbs ts) := by
  have safe : ∀ env s, Sandboxed env (.jcc c l) s := fun _ _ => rfl
  refine Emitter.Guards.tested (run_ins encodable n) (run_ins rfl n) rests compares ?_ ?_
    (fun env s holds => blind env s _ holds) (fun _ s _ => .setFlags ts s _)
    (fun _ s _ _ => (Disturbs.setFlags ts s _).trans)
  -- the condition fails, so control falls through
  · intro env s holds passes
    refine ⟨safe _ _, ?_, enter env s _ holds passes⟩
    simp only [step, State.flags_setFlags, passes, Bool.false_eq_true, if_false]
  · intro env s holds taken
    refine ⟨safe _ _, ?_⟩
    rw [Bool.not_eq_false] at taken
    simp only [step, State.flags_setFlags, taken, if_true]

/-! ### The mask -/

/-- The stale upper bits of a partially loaded register are masked off. -/
theorem merge_and_permissionMask (size : OperandSize) (old v : Word) (flag : MemoryFlags) :
    State.merge size old v &&& permissionMask flag size.bytes
      = v &&& permissionMask flag size.bytes := by
  apply BitVec.eq_of_getLsbD_eq
  intro k low
  simp only [BitVec.getLsbD_and, getLsbD_permissionMask flag low]
  -- what a narrow load leaves of the old value lies outside the mask
  by_cases inside : k < 8 * size.bytes
  · have kept : (State.merge size old v).getLsbD k = v.getLsbD k := by
      have byte : ∀ k < 64, (0xff : Word).getLsbD k = decide (k < 8) := by decide
      have half : ∀ k < 64, (0xffff : Word).getLsbD k = decide (k < 16) := by decide
      cases size <;> simp only [OperandSize.bytes] at inside <;>
        simp only [State.merge, BitVec.getLsbD_or, BitVec.getLsbD_and, BitVec.getLsbD_not,
          getLsbD_lowBytes _ _ low, byte k low, half k low, inside, low, decide_true, Bool.true_and,
          Bool.not_true, Bool.and_false, Bool.false_or]
    rw [kept]
  · simp [inside]

/-! ### The check -/

section Check

variable {st : Setting} {size : Word}

theorem operandSizeOf_bytes {k : Nat} (small : k ≤ 3) :
    (operandSizeOf k).bytes = 2 ^ k := by
  rcases (show k = 0 ∨ k = 1 ∨ k = 2 ∨ k = 3 by omega) with rfl | rfl | rfl | rfl <;> rfl

/-- The address of the permission byte of the guest address in `t`. -/
private theorem address_permissions {env : Env} {s : State} (anchored : Anchored st size env s)
    (t : X64R) :
    s.address (.baseIndex RA.permissionsBase t 1)
      = env.layout.memoryBase + BitVec.ofNat 64 s.guest.memory.permissionsOffset + s.regs t := by
  rw [State.address, anchored.permissionsBase, Memory.permissionsOffset, anchored.serves.size,
    BitVec.mul_one]

/-- The wide load of the permission bytes. -/
private theorem does_load_permissions (st : Setting) (size : Word) {t : X64R} {k : Nat} (small : k ≤ 3) (n : Nat) :
    Does (ins (.mov (operandSizeOf k) (.reg RA.b)
        (.mem (.baseIndex RA.permissionsBase t 1)))) n () n
      (fun env s => Anchored st size env s ∧
        (s.regs t).toNat + 2 ^ k ≤ s.guest.memory.permissionsOffset)
      (fun _ s s' => Disturbs [RA.b, RA.c] s s' ∧
        s'.regs RA.b = State.merge (operandSizeOf k) (s.regs RA.b)
          (leValue (bytesAt s.guest.memory.permissions (s.regs t).toNat (2 ^ k)))) := by
  refine .instr (run_ins ?_ n) fun env s ⟨anchored, inside⟩ => ?_
  · rcases (show k = 0 ∨ k = 1 ∨ k = 2 ∨ k = 3 by omega) with rfl | rfl | rfl | rfl <;> rfl
  · have positive : 0 < 2 ^ k := Nat.two_pow_pos k
    -- the permissions lie at the same index behind the contents
    have load := anchored.serves.load_permissions (s.regs t) positive inside
    have permitted := anchored.serves.permits_permissions (s.regs t) positive inside
    have next : ∃ f, step env (.mov (operandSizeOf k) (.reg RA.b)
          (.mem (.baseIndex RA.permissionsBase t 1))) s
        = .next (s.setReg RA.b (State.merge (operandSizeOf k) (s.regs RA.b)
          (leValue (bytesAt s.guest.memory.permissions (s.regs t).toNat (2 ^ k)))) f) := by
      simp only [step, State.read, address_permissions anchored, operandSizeOf_bytes small, load,
        State.write]
      exact ⟨_, rfl⟩
    obtain ⟨f, next⟩ := next
    refine ⟨?_, _, next, .setReg (by decide) s _ f, by simp⟩
    simp only [Sandboxed, sandboxed, accesses, Operand.access, storesForeign, Operand.isMem,
      address_permissions anchored, operandSizeOf_bytes small, List.append_nil, List.all_cons,
      permitted, List.all_nil, Bool.false_and, Bool.not_false, Bool.and_self]

/-- The permission half of the check: load, mask, compare. -/
private theorem checks_permissions {t : X64R} {k : Nat} (small : k ≤ 3)
    (flag : MemoryFlags) (exit : PendingExit) (l n : Nat) :
    Checks (do
        ins (.mov (operandSizeOf k) (.reg RA.b) (.mem (.baseIndex RA.permissionsBase t 1)))
        ins (.mov .bits64 (.reg RA.c) (.imm (permissionMask flag (2 ^ k))))
        ins (.alu .and .bits64 (.reg RA.b) (.reg RA.c))
        ins (.cmp (.reg RA.b) (.reg RA.c))
        ins (.jcc .ne l)
        Emitter.defer exit) n () [exit] l
      (fun env s => Anchored st size env s ∧
        (s.regs t).toNat + 2 ^ k ≤ s.guest.memory.permissionsOffset)
      (fun _ s => ∀ i < 2 ^ k,
        s.guest.memory.permissions ((s.regs t).toNat + i) &&& flag = flag)
      (fun _ => Disturbs [RA.b, RA.c]) := by
  let mask := permissionMask flag (2 ^ k)
  have load : Does (ins (.mov .bits64 (.reg RA.c) (.imm mask))) n () n (fun _ _ => True)
      (fun _ s s' => s' = s.setReg RA.c mask false) := by
    refine .instr (run_ins rfl n) fun env s _ => ?_
    obtain ⟨safe, next⟩ := step_mov_reg RA.c (yields_imm env s mask)
    exact ⟨safe, _, next, rfl⟩
  have both : Does (ins (.alu .and .bits64 (.reg RA.b) (.reg RA.c))) n () n (fun _ _ => True)
      (fun _ s s' => ∃ f, s' = (s.setReg RA.b (s.regs RA.b &&& s.regs RA.c) f).setFlags none) := by
    refine .instr (run_ins rfl n) fun env s _ => ?_
    obtain ⟨safe, f, next⟩ := step_alu_regs env s .and RA.b RA.c
    exact ⟨safe, _, next, f, rfl⟩
  have compare : Checks (do
        ins (.cmp (.reg RA.b) (.reg RA.c))
        ins (.jcc .ne l)
        Emitter.defer exit) n () [exit] l (fun _ _ => True)
      (fun _ s => s.regs RA.b = s.regs RA.c) (fun _ => Disturbs [RA.b, RA.c]) := by
    refine (checks_flags_jcc rfl .ne (fun s => compareFlags (s.regs RA.b) (s.regs RA.c))
      (checks_defer exit l n [RA.b, RA.c]) (fun env s _ => step_cmp_regs env s RA.b RA.c)
      (fun _ _ _ _ _ => trivial) (fun _ _ _ _ => Iff.rfl)).conseq
      (fun _ _ holds => holds) ?_ (fun _ _ _ _ post => post)
    intro env s _
    simp only [and_true, holds_ne, Bool.not_eq_eq_eq_not, Bool.not_false, beq_iff_eq]
  -- from the last part of the code to the first
  have masked : Checks (do
        ins (.alu .and .bits64 (.reg RA.b) (.reg RA.c))
        ins (.cmp (.reg RA.b) (.reg RA.c))
        ins (.jcc .ne l)
        Emitter.defer exit) n () [exit] l (fun _ _ => True)
      (fun _ s => s.regs RA.b &&& s.regs RA.c = s.regs RA.c) (fun _ => Disturbs [RA.b, RA.c]) := by
    refine both.seq_guards compare (fun _ _ _ => trivial) ?_
    rintro env s s₁ - ⟨f, rfl⟩
    refine ⟨trivial, by simp, fun s₂ => Disturbs.trans ?_⟩
    exact (Disturbs.setReg (by decide) s _ f).trans (.setFlags _ _ _)
  have loaded : Checks (do
        ins (.mov .bits64 (.reg RA.c) (.imm mask))
        ins (.alu .and .bits64 (.reg RA.b) (.reg RA.c))
        ins (.cmp (.reg RA.b) (.reg RA.c))
        ins (.jcc .ne l)
        Emitter.defer exit) n () [exit] l (fun _ _ => True)
      (fun _ s => s.regs RA.b &&& mask = mask) (fun _ => Disturbs [RA.b, RA.c]) := by
    refine load.seq_guards masked (fun _ _ _ => trivial) ?_
    rintro env s s₁ - rfl
    exact ⟨trivial, by simp, fun s₂ => (Disturbs.setReg (by decide) s _ _).trans⟩
  refine (does_load_permissions st size small n).seq_guards loaded
    (fun _ _ holds => holds) ?_
  rintro env s s₁ - ⟨disturbs, value⟩
  refine ⟨trivial, ?_, fun s₂ => disturbs.trans⟩
  have width : (bytesAt s.guest.memory.permissions (s.regs t).toNat (2 ^ k)).length = 2 ^ k :=
    length_bytesAt _ _ _
  have short : (2 : Nat) ^ k ≤ 8 := by
    rcases (show k = 0 ∨ k = 1 ∨ k = 2 ∨ k = 3 by omega) with rfl | rfl | rfl | rfl <;> decide
  have bytes := leValue_and_replicate
    (bytesAt s.guest.memory.permissions (s.regs t).toNat (2 ^ k)) flag (by rw [width]; exact short)
  rw [width, ← permissionMask_eq] at bytes
  have stale := merge_and_permissionMask (operandSizeOf k) (s.regs RA.b)
    (leValue (bytesAt s.guest.memory.permissions (s.regs t).toNat (2 ^ k))) flag
  rw [operandSizeOf_bytes small] at stale
  rw [value, stale, bytes]
  simp [bytesAt]

theorem holds_ae {a b : Word} :
    Condition.ae.holds (compareFlags a b) = false ↔ a.toNat < b.toNat := by
  simp [Condition.holds, compareFlags, BitVec.ult_iff_lt, BitVec.lt_def]

theorem holds_ae_eq (a b : Word) :
    Condition.ae.holds (compareFlags a b) = decide (b.toNat ≤ a.toNat) := by
  simp [Condition.holds, compareFlags, BitVec.ult, ← decide_not]

theorem holds_ne_testFlags_eq (a b : Word) :
    Condition.ne.holds (testFlags a b) = decide (a &&& b ≠ 0) := by
  simp only [Condition.holds, testFlags, ne_eq, decide_not]
  rfl

theorem encodable_test_mask (t : X64R) {k : Nat} (small : k ≤ 3) :
    (Instr.test (.reg t) (.imm (BitVec.ofNat 64 (2 ^ k - 1)))).encodable = true := by
  rcases (show k = 0 ∨ k = 1 ∨ k = 2 ∨ k = 3 by omega) with rfl | rfl | rfl | rfl <;> rfl

theorem holds_ne_testFlags (a b : Word) :
    Condition.ne.holds (testFlags a b) = false ↔ a &&& b = 0 := by
  simp [Condition.holds, testFlags]

/-- The bound and permission half of the check. -/
private theorem checks_bound (g : CodeGenerator) (t : X64R) {k : Nat}
    (small : k ≤ 3) (write : Bool) (flags : st.flags = g.flags) (bound : size = g.memory.size)
    (fits : fitsImm32 g.memory.size = true) (l n : Nat) :
    Checks (do
        ins (.cmp (.reg t) (.imm g.memory.size))
        ins (.jcc .ae l)
        if !g.flags.skipPermissionChecks then
          ins (.mov (operandSizeOf k) (.reg RA.b) (.mem (.baseIndex RA.permissionsBase t 1)))
          ins (.mov .bits64 (.reg RA.c)
            (.imm (permissionMask (accessFlag write) (2 ^ k))))
          ins (.alu .and .bits64 (.reg RA.b) (.reg RA.c))
          ins (.cmp (.reg RA.b) (.reg RA.c))
          ins (.jcc .ne l)
        CodeGenerator.addPendingExit l (accessFault write) (.value g.currentPc)) n ()
      [⟨l, accessFault write, .value g.currentPc⟩] l
      (fun env s => Anchored st size env s ∧ (s.regs t).toNat % 2 ^ k = 0)
      (fun _ s => st.accessAllowed s.guest.memory k (accessFlag write) (s.regs t) = true)
      (fun _ => Disturbs [RA.b, RA.c]) := by
  let exit : PendingExit := ⟨l, accessFault write, .value g.currentPc⟩
  have granted : Checks (do
        if !g.flags.skipPermissionChecks then
          ins (.mov (operandSizeOf k) (.reg RA.b) (.mem (.baseIndex RA.permissionsBase t 1)))
          ins (.mov .bits64 (.reg RA.c)
            (.imm (permissionMask (accessFlag write) (2 ^ k))))
          ins (.alu .and .bits64 (.reg RA.b) (.reg RA.c))
          ins (.cmp (.reg RA.b) (.reg RA.c))
          ins (.jcc .ne l)
        CodeGenerator.addPendingExit l (accessFault write) (.value g.currentPc)) n () [exit] l
      (fun env s => Anchored st size env s ∧
        (s.regs t).toNat + 2 ^ k ≤ s.guest.memory.permissionsOffset)
      (fun _ s => st.flags.skipPermissionChecks = true ∨ ∀ i < 2 ^ k,
        s.guest.memory.permissions ((s.regs t).toNat + i) &&& accessFlag write = accessFlag write)
      (fun _ => Disturbs [RA.b, RA.c]) := by
    rw [flags]
    -- without permission checks no code follows the bound
    cases skip : g.flags.skipPermissionChecks with
    | true =>
      exact (checks_defer exit l n [RA.b, RA.c]).conseq (fun _ _ _ => trivial)
        (fun _ _ _ => by simp) (fun _ _ _ _ post => post)
    | false =>
      exact (checks_permissions small (accessFlag write) exit l n).conseq
        (fun _ _ holds => holds) (fun _ _ _ => by simp) (fun _ _ _ _ post => post)
  refine (checks_flags_jcc (encodable_cmp_imm rfl fits) .ae
    (fun s => compareFlags (s.regs t) g.memory.size) granted
    (fun env s _ => step_cmp_imm env s t g.memory.size) ?_
    (fun _ _ _ _ => Iff.rfl)).conseq (fun _ _ holds => holds) ?_ (fun _ _ _ _ post => post)
  · rintro env s v ⟨anchored, aligned⟩ below
    have inBounds : (s.regs t).toNat < s.guest.memory.size.toNat := by
      rw [anchored.serves.size, bound]
      exact holds_ae.mp below
    -- the source compares the first byte only: the rest is inside because the access is aligned
    exact ⟨anchored.setFlags v, aligned_inside _ _ small aligned inBounds⟩
  · rintro env s ⟨anchored, aligned⟩
    rw [Setting.accessAllowed_iff, holds_ae, anchored.serves.size, bound]
    simp only [aligned, true_and]

/-- The whole check goes on for the accesses the guest may make, and leaves a pending exit
for the others. -/
theorem checks_validate (g : CodeGenerator) (t : X64R) {k : Nat}
    (small : k ≤ 3) (write : Bool) (flags : st.flags = g.flags) (bound : size = g.memory.size)
    (fits : fitsImm32 g.memory.size = true) (n : Nat) :
    Emitter.Guards step Sandboxed
      (g.generateValidateMemoryAccess t RA.b RA.c k write) n () (n + 1)
      [⟨n, accessFault write, .value g.currentPc⟩] n (Anchored st size)
      (fun _ s => st.accessAllowed s.guest.memory k (accessFlag write) (s.regs t) = true)
      (fun _ => Disturbs [RA.b, RA.c]) := by
  unfold CodeGenerator.generateValidateMemoryAccess
  refine .silent (run_allocateLabel n) ?_
  have bounds := checks_bound g t small write flags bound fits n (n + 1)
  -- a single byte is always aligned, and no alignment test is emitted
  by_cases positive : k > 0
  · simp only [positive, if_true]
    refine (checks_flags_jcc (encodable_test_mask t small) .ne
      (fun s => testFlags (s.regs t) (BitVec.ofNat 64 (2 ^ k - 1))) bounds
      (fun env s _ => step_test_imm env s t _) ?_
      (fun _ _ _ _ => Iff.rfl)).conseq (fun _ _ holds => holds) ?_ (fun _ _ _ _ post => post)
    · intro env s v anchored aligned
      exact ⟨anchored.setFlags v, (and_mask_eq_zero _ small).mp ((holds_ne_testFlags _ _).mp aligned)⟩
    · intro env s anchored
      rw [holds_ne_testFlags, and_mask_eq_zero _ small]
      exact ⟨fun both => both.2, fun allowed => ⟨(Setting.accessAllowed_iff.mp allowed).1, allowed⟩⟩
  · have byte : k = 0 := by omega
    subst byte
    exact bounds.conseq (fun env s anchored => ⟨anchored, Nat.mod_one _⟩) (fun _ _ _ => Iff.rfl)
      (fun _ _ _ _ post => post)

end Check

end Riscv64Emulator.Jit.X64
