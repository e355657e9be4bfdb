import Riscv64Emulator.Jit.Aarch64.Compute

/-!
# The access check of the AArch64 generator

`generate_validate_memory_access` checks alignment, the size of the memory and the
permission bytes. Its code goes on exactly for the accesses `Setting.accessAllowed` allows.
-/
namespace Riscv64Emulator.Jit.Aarch64

open LinearCode CodeGenerator

/-- Code without labels that goes on when `cond` holds and jumps to `l` otherwise. -/
abbrev Checks {α : Type} (x : Gen α) (c : GenState) (a : α) (c' : GenState)
    (exits : List PendingExit) (l : Nat) (pre cond : Ghost → State → Prop)
    (post : Ghost → State → State → Prop) : Prop :=
  Emitter.Guards (fun k : Ghost => step k.1) (fun k => Sandboxed k.1) x c a c' exits l pre cond post

/-- A flag-setting instruction and the jump on its outcome, in front of further checks. -/
theorem checks_flags_b {j : Instr} (encodable : j.encodable = true) (condition : Condition)
    (f : State → Flags) {rest : Gen Unit} {c c' : GenState} {l : Nat} {exits : List PendingExit}
    {pre pre' cond : Ghost → State → Prop} {ts : List A64R}
    (rests : Checks rest c () c' exits l pre' cond fun _ => Disturbs ts)
    (compares : ∀ env s, Sandboxed env j s ∧ step env j s = .next (s.setFlags (some (f s))))
    (enter : ∀ k s v, pre k s → condition.holds (f s) = false → pre' k (s.setFlags v))
    (blind : ∀ k s v, pre k s → (cond k (s.setFlags v) ↔ cond k s)) :
    Checks (do ins j; ins (.b condition l); rest) c () c' exits l pre
      (fun k s => condition.holds (f s) = false ∧ cond k s) (fun _ => Disturbs ts) := by
  have safe : ∀ env s, Sandboxed env (.b condition l) s := fun _ _ => rfl
  refine Emitter.Guards.tested (run_ins encodable c) (run_ins rfl c) rests
    (fun k s _ => compares k.1 s) ?_ ?_ (fun k s holds => blind k s _ holds)
    (fun _ s _ => .setFlags ts s _) (fun _ s _ _ => (Disturbs.setFlags ts s _).trans)
  -- the condition fails, so control falls through
  · intro k s holds passes
    refine ⟨safe _ _, ?_, enter k s _ holds passes⟩
    simp only [step, State.flags_setFlags, passes, Bool.false_eq_true, if_false]
  · intro k s holds taken
    rw [Bool.not_eq_false] at taken
    refine ⟨safe _ _, ?_⟩
    simp only [step, State.flags_setFlags, taken, if_true]

/-! ### The mask -/

/-- The host access of a guest access of `2 ^ k` bytes. -/
def accessSizeOf : Nat → AccessSize
  | 0 => .byte
  | 1 => .half
  | 2 => .word
  | _ => .double

theorem accessSizeOf_bytes {k : Nat} (small : k ≤ 3) : (accessSizeOf k).bytes = 2 ^ k := by
  rcases (show k = 0 ∨ k = 1 ∨ k = 2 ∨ k = 3 by omega) with rfl | rfl | rfl | rfl <;> rfl

/-- The width of the comparison, and the mask: an access of four bytes compares the lower
halves with the mask of eight. -/
def maskWidth (k : Nat) : Width := if k = 2 then .w32 else .w64

/-- The flags of the comparison. -/
def maskFlags (k : Nat) (v mask : Word) : Flags :=
  match maskWidth k with
  | .w64 => compareFlags v mask
  | .w32 => compareFlags (v.setWidth 32) (mask.setWidth 32)

def maskBytes (k : Nat) : Nat := if k = 2 then 8 else 2 ^ k

theorem permissionLoad_eq (target address : A64R) {k : Nat} (small : k ≤ 3) :
    permissionLoad target address k
      = .ok (.ldr (accessSizeOf k) false target RA.permissionsBase (.reg address)) := by
  rcases (show k = 0 ∨ k = 1 ∨ k = 2 ∨ k = 3 by omega) with rfl | rfl | rfl | rfl <;> rfl

theorem run_loadMemoryPermissionMask (target : A64R) (flag : MemoryFlags) {k : Nat} (small : k ≤ 3)
    (c : GenState) : (loadMemoryPermissionMask target flag k).run c
      = .ok ⟨decide (k = 2), [.instr (.movImm target (permissionMask flag (maskBytes k)))], [], c⟩ := by
  have one : permissionMask flag 1 = flag.setWidth 64 := by simp [permissionMask]
  have two : permissionMask flag 2 = (flag.setWidth 64 <<< 8) ||| flag.setWidth 64 := by
    rw [permissionMask, one, BitVec.or_comm]
  have mov : ∀ v, (ins (.movImm target v)).run c = .ok ⟨(), [.instr (.movImm target v)], [], c⟩ :=
    fun _ => run_ins rfl c
  rcases (show k = 0 ∨ k = 1 ∨ k = 2 ∨ k = 3 by omega) with rfl | rfl | rfl | rfl
  · simp [loadMemoryPermissionMask, Emitter.run_bind, mov, maskBytes, one]
  · simp [loadMemoryPermissionMask, Emitter.run_bind, mov, maskBytes, two]
  · simp [loadMemoryPermissionMask, Emitter.run_bind, mov, maskBytes]
  · simp [loadMemoryPermissionMask, Emitter.run_bind, mov, maskBytes]

/-- Masked bytes are their lower half when the mask is. -/
theorem lower_masked (v : Word) (flag : MemoryFlags) :
    ((v &&& permissionMask flag 4).setWidth 32).setWidth 64 = v &&& permissionMask flag 4 := by
  apply BitVec.eq_of_getLsbD_eq
  intro j low
  simp only [BitVec.getLsbD_setWidth, BitVec.getLsbD_and, getLsbD_permissionMask flag low, low]
  by_cases inside : j < 8 * 4 <;> simp [inside]

/-- The comparison of the masked bytes with the mask, in either width. -/
theorem holds_masked (v : Word) (flag : MemoryFlags) {k : Nat} (small : k ≤ 3) :
    Condition.notEqual.holds (maskFlags k (maskWidth k |>.lift AluOp.and.apply v
      (permissionMask flag (maskBytes k))) (permissionMask flag (maskBytes k))) = false ↔
      v &&& permissionMask flag (2 ^ k) = permissionMask flag (2 ^ k) := by
  -- a four byte mask is loaded as an eight byte one and compared in 32 bits
  by_cases word : k = 2
  · subst word
    have lower : (permissionMask flag 8).setWidth 32 = (permissionMask flag 4).setWidth 32 := by
      apply BitVec.eq_of_getLsbD_eq
      intro j low
      have wide : j < 64 := by omega
      simp only [BitVec.getLsbD_setWidth, getLsbD_permissionMask flag wide, low]
      simp [show j < 8 * 8 by omega]
    have mask : ((permissionMask flag 4).setWidth 32).setWidth 64 = permissionMask flag 4 := by
      have whole := lower_masked (BitVec.allOnes 64) flag
      rwa [BitVec.allOnes_and] at whole
    simp only [maskFlags, maskWidth, maskBytes, if_true, Width.lift, AluOp.apply, lower,
      Condition.holds, compareFlags, subtraction_zero, ← BitVec.setWidth_and, Bool.not_eq_false',
      beq_iff_eq]
    rw [BitVec.setWidth_setWidth_of_le _ (by decide), BitVec.setWidth_eq]
    refine ⟨fun same => ?_, fun same => by rw [show (2 : Nat) ^ 2 = 4 from rfl] at same; rw [same]⟩
    have widened := congrArg (BitVec.setWidth 64) same
    rwa [lower_masked, mask] at widened
  · simp only [maskFlags, maskWidth, maskBytes, if_neg word, Width.lift, AluOp.apply,
      Condition.holds, compareFlags, subtraction_zero]
    simp

/-! ### The check -/

section Check

variable {b : Block}

/-- The exit of a rejected access. -/
def lateExit (cache : RegisterCache) (l : Nat) (reason : ArchExitReason) (pc : Word) : PendingExit where
  label := l
  reason := reason
  pcValue := pc
  snapshot := cache.takeStateSnapshot

theorem checks_addPendingExit (l : Nat) (reason : ArchExitReason) (pc : Word) (c : GenState)
    (ts : List A64R) :
    Checks (addPendingExit l reason true pc) c () c [lateExit c.cache l reason pc] l
      (fun _ _ => True) (fun _ _ => True) (fun _ => Disturbs ts) := by
  refine ⟨[], rfl, rfl, fun k s _ => ⟨s, .refl ts s, trivial, Or.inl ⟨trivial, rfl⟩⟩⟩

/-- The wide load of the permission bytes. -/
private theorem does_load_permissions (b : Block) (t : A64R) {k : Nat} (small : k ≤ 3)
    (c : GenState) :
    Does (ins (.ldr (accessSizeOf k) false RA.b RA.permissionsBase (.reg t))) c () c
      (fun g s => Anchored b.setting b.size g.1 s ∧
        (s.get t).toNat + 2 ^ k ≤ s.guest.memory.permissionsOffset)
      (fun _ s s' => Disturbs [RA.b, RA.c] s s' ∧
        s'.regs RA.b = leValue (bytesAt s.guest.memory.permissions (s.get t).toNat (2 ^ k))) := by
  refine .instr (run_ins rfl c) fun g s ⟨anchored, inside⟩ => ?_
  have positive : 0 < 2 ^ k := Nat.two_pow_pos k
  have address : s.address RA.permissionsBase (.reg t) = g.1.layout.memoryBase
      + BitVec.ofNat 64 s.guest.memory.permissionsOffset + s.get t := by
    rw [State.address, anchored.permissionsBase, Memory.permissionsOffset, anchored.serves.size]
  -- the permissions lie at the same index behind the contents
  have load := anchored.serves.load_permissions (s.get t) positive inside
  have permitted := anchored.serves.permits_permissions (s.get t) positive inside
  have next : ∃ f, step g.1 (.ldr (accessSizeOf k) false RA.b RA.permissionsBase (.reg t)) s
      = .next (s.setReg RA.b
        (leValue (bytesAt s.guest.memory.permissions (s.get t).toNat (2 ^ k))) f) := by
    simp only [step, address, accessSizeOf_bytes small, load, AccessSize.extend,
      Bool.false_eq_true, if_false]
    exact ⟨_, rfl⟩
  obtain ⟨f, next⟩ := next
  refine ⟨?_, _, next, .setReg (by decide) s _ f, ?_⟩
  · simp only [Sandboxed, sandboxed, accesses, storesForeign, address, accessSizeOf_bytes small,
      permitted, List.all_cons, List.all_nil, Bool.not_false, Bool.and_self]
  · rw [State.regs_setReg s (r := RA.b) (by decide), if_pos rfl]

/-- The permission half of the check: load, mask, compare. -/
private theorem checks_permissions (b : Block) (t : A64R) {k : Nat} (small : k ≤ 3)
    (flag : MemoryFlags) (l : Nat) (reason : ArchExitReason) (pc : Word) (c : GenState) :
    Checks (do
        ins (.ldr (accessSizeOf k) false RA.b RA.permissionsBase (.reg t))
        let truncate ← loadMemoryPermissionMask RA.c flag k
        let width : Width := if truncate then .w32 else .w64
        ins (.alu .and width RA.b RA.b RA.c)
        ins (.cmp width RA.b RA.c)
        ins (.b .notEqual l)
        addPendingExit l reason true pc) c () c [lateExit c.cache l reason pc] l
      (fun g s => Anchored b.setting b.size g.1 s ∧
        (s.get t).toNat + 2 ^ k ≤ s.guest.memory.permissionsOffset)
      (fun _ s => ∀ j < 2 ^ k,
        s.guest.memory.permissions ((s.get t).toNat + j) &&& flag = flag)
      (fun _ => Disturbs [RA.b, RA.c]) := by
  let mask := permissionMask flag (maskBytes k)
  have widths : (if decide (k = 2) then Width.w32 else .w64) = maskWidth k := by
    simp only [decide_eq_true_eq, maskWidth]
  have load : Does (loadMemoryPermissionMask RA.c flag k) c (decide (k = 2)) c (fun _ _ => True)
      (fun _ s s' => s' = s.setReg RA.c mask false) :=
    .instr (run_loadMemoryPermissionMask RA.c flag small c) fun _ s _ => ⟨rfl, _, rfl, rfl⟩
  have both : Does (ins (.alu .and (maskWidth k) RA.b RA.b RA.c)) c () c (fun _ _ => True)
      (fun _ s s' => ∃ f, s' = s.setReg RA.b
        ((maskWidth k).lift AluOp.and.apply (s.regs RA.b) (s.regs RA.c)) f) :=
    .instr (run_ins rfl c) fun _ s _ => ⟨rfl, _, rfl, _, rfl⟩
  have compare : Checks (do
        ins (.cmp (maskWidth k) RA.b RA.c)
        ins (.b .notEqual l)
        addPendingExit l reason true pc) c () c [lateExit c.cache l reason pc] l (fun _ _ => True)
      (fun _ s => Condition.notEqual.holds (maskFlags k (s.regs RA.b) (s.regs RA.c)) = false ∧ True)
      (fun _ => Disturbs [RA.b, RA.c]) := by
    refine checks_flags_b rfl .notEqual (fun s => maskFlags k (s.regs RA.b) (s.regs RA.c))
      (checks_addPendingExit l reason pc c [RA.b, RA.c]) (fun env s => ⟨rfl, ?_⟩)
      (fun _ _ _ _ _ => trivial) (fun _ _ _ _ => Iff.rfl)
    unfold maskFlags
    simp only [step]
    cases maskWidth k <;> rfl
  -- from the last part of the code to the first
  have masked : Checks (do
        ins (.alu .and (maskWidth k) RA.b RA.b RA.c)
        ins (.cmp (maskWidth k) RA.b RA.c)
        ins (.b .notEqual l)
        addPendingExit l reason true pc) c () c [lateExit c.cache l reason pc] l
      (fun _ s => s.regs RA.c = mask)
      (fun _ s => s.regs RA.b &&& permissionMask flag (2 ^ k) = permissionMask flag (2 ^ k))
      (fun _ => Disturbs [RA.b, RA.c]) := by
    refine both.seq_guards compare (fun _ _ _ => trivial) ?_
    rintro g s s₁ here ⟨f, rfl⟩
    refine ⟨trivial, ?_, fun s₂ => Disturbs.trans (.setReg (by decide) s _ f)⟩
    have value := State.regs_setReg s (r := RA.b) (by decide)
    rw [value, value, if_pos rfl, if_neg (by decide), here, and_true]
    exact holds_masked (s.regs RA.b) flag small
  have loaded : Checks (do
        let truncate ← loadMemoryPermissionMask RA.c flag k
        let width : Width := if truncate then .w32 else .w64
        ins (.alu .and width RA.b RA.b RA.c)
        ins (.cmp width RA.b RA.c)
        ins (.b .notEqual l)
        addPendingExit l reason true pc) c () c [lateExit c.cache l reason pc] l (fun _ _ => True)
      (fun _ s => s.regs RA.b &&& permissionMask flag (2 ^ k) = permissionMask flag (2 ^ k))
      (fun _ => Disturbs [RA.b, RA.c]) := by
    rw [← widths] at masked
    refine load.seq_guards masked (fun _ _ _ => trivial) ?_
    rintro g s s₁ - rfl
    have value := State.regs_setReg s (r := RA.c) (by decide)
    refine ⟨by rw [value, if_pos rfl], ?_, fun s₂ => (Disturbs.setReg (by decide) s _ _).trans⟩
    rw [value, if_neg (by decide)]
  refine (does_load_permissions b t small c).seq_guards loaded (fun _ _ holds => holds) ?_
  rintro g s s₁ - ⟨disturbs, value⟩
  refine ⟨trivial, ?_, fun s₂ => disturbs.trans⟩
  have width : (bytesAt s.guest.memory.permissions (s.get t).toNat (2 ^ k)).length = 2 ^ k :=
    length_bytesAt _ _ _
  have short : (2 : Nat) ^ k ≤ 8 := by
    rcases (show k = 0 ∨ k = 1 ∨ k = 2 ∨ k = 3 by omega) with rfl | rfl | rfl | rfl <;> decide
  have bytes := leValue_and_replicate
    (bytesAt s.guest.memory.permissions (s.get t).toNat (2 ^ k)) flag (by rw [width]; exact short)
  rw [width, ← permissionMask_eq] at bytes
  rw [value, bytes]
  simp [bytesAt]

/-- The bound and permission half of the check. -/
private theorem checks_bound {g : CodeGenerator} (uses : g.Uses b) (t : A64R) {k : Nat}
    (small : k ≤ 3) (write : Bool) (l : Nat) (c : GenState) :
    Checks (do
        ins (.cmp .w64 t RA.memorySize)
        ins (.b .unsignedGreaterEqual l)
        if !g.flags.skipPermissionChecks then
          ins (.ldr (accessSizeOf k) false RA.b RA.permissionsBase (.reg t))
          let truncate ← loadMemoryPermissionMask RA.c (accessFlag write) k
          let width : Width := if truncate then .w32 else .w64
          ins (.alu .and width RA.b RA.b RA.c)
          ins (.cmp width RA.b RA.c)
          ins (.b .notEqual l)
        addPendingExit l (accessFault write) true g.currentPc) c () c
      [lateExit c.cache l (accessFault write) g.currentPc] l
      (fun k' s => Anchored b.setting b.size k'.1 s ∧ (s.get t).toNat % 2 ^ k = 0)
      (fun _ s => b.setting.accessAllowed s.guest.memory k (accessFlag write) (s.get t) = true)
      (fun _ => Disturbs [RA.b, RA.c]) := by
  have granted : Checks (do
        if !g.flags.skipPermissionChecks then
          ins (.ldr (accessSizeOf k) false RA.b RA.permissionsBase (.reg t))
          let truncate ← loadMemoryPermissionMask RA.c (accessFlag write) k
          let width : Width := if truncate then .w32 else .w64
          ins (.alu .and width RA.b RA.b RA.c)
          ins (.cmp width RA.b RA.c)
          ins (.b .notEqual l)
        addPendingExit l (accessFault write) true g.currentPc) c () c
      [lateExit c.cache l (accessFault write) g.currentPc] l
      (fun k' s => Anchored b.setting b.size k'.1 s ∧
        (s.get t).toNat + 2 ^ k ≤ s.guest.memory.permissionsOffset)
      (fun _ s => b.setting.flags.skipPermissionChecks = true ∨ ∀ i < 2 ^ k,
        s.guest.memory.permissions ((s.get t).toNat + i) &&& accessFlag write = accessFlag write)
      (fun _ => Disturbs [RA.b, RA.c]) := by
    rw [uses.flags]
    -- without permission checks no code follows the bound
    cases skip : g.flags.skipPermissionChecks with
    | true =>
      exact (checks_addPendingExit l (accessFault write) g.currentPc c [RA.b, RA.c]).conseq
        (fun _ _ _ => trivial) (fun _ _ _ => by simp) (fun _ _ _ _ post => post)
    | false =>
      exact (checks_permissions b t small (accessFlag write) l (accessFault write) g.currentPc c).conseq
        (fun _ _ holds => holds) (fun _ _ _ => by simp) (fun _ _ _ _ post => post)
  have below : ∀ env s, Anchored b.setting b.size env s →
      (Condition.unsignedGreaterEqual.holds (compareFlags (s.get t) (s.regs RA.memorySize)) = false ↔
        (s.get t).toNat < s.guest.memory.size.toNat) := by
    intro env s anchored
    rw [holds_unsignedGreaterEqual, anchored.memorySize, anchored.serves.size, decide_eq_false_iff_not,
      Nat.not_le]
  refine (checks_flags_b (j := .cmp .w64 t RA.memorySize) rfl .unsignedGreaterEqual
    (fun s => compareFlags (s.get t) (s.regs RA.memorySize)) granted (fun _ _ => ⟨rfl, rfl⟩) ?_
    (fun _ _ _ _ => Iff.rfl)).conseq (fun _ _ holds => holds) ?_ (fun _ _ _ _ post => post)
  · rintro k' s v ⟨anchored, aligned⟩ goes
    exact ⟨(Disturbs.setFlags [] s v).anchored (by simp) anchored,
      -- the first byte is compared, the rest is inside because the access is aligned
      aligned_inside _ _ small aligned ((below k'.1 s anchored).mp goes)⟩
  · rintro k' s ⟨anchored, aligned⟩
    rw [Setting.accessAllowed_iff, below k'.1 s anchored]
    simp only [aligned, true_and]

/-- The whole check goes on for the accesses the guest may make, and leaves a pending exit
for the others. -/
theorem checks_validate {g : CodeGenerator} (uses : g.Uses b) (t : A64R) {k : Nat}
    (small : k ≤ 3) (write : Bool) (c : GenState) :
    Checks (g.generateValidateMemoryAccess t RA.b RA.c k write) c ()
      { c with nextLabel := c.nextLabel + 1 }
      [lateExit c.cache c.nextLabel (accessFault write) g.currentPc] c.nextLabel
      (fun k' s => Anchored b.setting b.size k'.1 s)
      (fun _ s => b.setting.accessAllowed s.guest.memory k (accessFlag write) (s.get t) = true)
      (fun _ => Disturbs [RA.b, RA.c]) := by
  unfold CodeGenerator.generateValidateMemoryAccess
  refine .silent (run_allocateLabel c) ?_
  have bounds := checks_bound uses t small write c.nextLabel { c with nextLabel := c.nextLabel + 1 }
  rw [permissionLoad_eq RA.b t small]
  simp only [liftExcept_ok_bind]
  -- a single byte is always aligned, and no alignment test is emitted
  by_cases positive : k > 0
  · simp only [positive, if_true]
    refine (checks_flags_b (j := .tst t (BitVec.ofNat 64 (2 ^ k - 1))) rfl .notEqual
      (fun s => testFlags (s.get t) (BitVec.ofNat 64 (2 ^ k - 1))) bounds
      (fun _ _ => ⟨rfl, rfl⟩) ?_
      (fun _ _ _ _ => Iff.rfl)).conseq (fun _ _ holds => holds) ?_ (fun _ _ _ _ post => post)
    · intro k' s v anchored aligned
      rw [holds_testFlags, decide_eq_false_iff_not, not_not] at aligned
      exact ⟨(Disturbs.setFlags [] s v).anchored (by simp) anchored, (and_mask_eq_zero _ small).mp aligned⟩
    · intro k' s anchored
      rw [holds_testFlags, decide_eq_false_iff_not, not_not, and_mask_eq_zero _ small]
      exact ⟨fun both => both.2, fun allowed => ⟨(Setting.accessAllowed_iff.mp allowed).1, allowed⟩⟩
  · have byte : k = 0 := by omega
    subst byte
    exact bounds.conseq (fun _ s anchored => ⟨anchored, Nat.mod_one _⟩) (fun _ _ _ => Iff.rfl)
      (fun _ _ _ _ post => post)

end Check

end Riscv64Emulator.Jit.Aarch64
