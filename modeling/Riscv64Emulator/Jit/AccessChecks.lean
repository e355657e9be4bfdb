import Riscv64Emulator.Jit.X64.Refinement
import Riscv64Emulator.Jit.Aarch64.Refinement
import Riscv64Emulator.Jit.Aarch64.Results

/-!
# The fast path of loads and stores

The check in front of a load or store in generated code and `Memory::verify_permissions`
decide alike about aligned accesses, although the code never adds the size of the access to
its address: the permission bytes behind the end of a memory grant nothing.
-/
namespace Riscv64Emulator.Jit

open LinearCode

/-- The accesses `Memory` makes, among the aligned ones. -/
def AcceptsAccess (m : Memory) (k : Nat) (write : Bool) (address : Word) : Prop :=
  address.toNat % 2 ^ k = 0 ∧
    m.verifyPermissions address (BitVec.ofNat 64 (2 ^ k)) (accessFlag write) = true

theorem accessFlag_ne_zero (write : Bool) : accessFlag write ≠ 0 := by
  cases write <;> decide

theorem accessAllowed_iff_accepts {st : Setting} {m : Memory} (reached : m.Reachable) {k : Nat}
    (small : k ≤ 3) (write : Bool) (checks : st.flags.skipPermissionChecks = false) (address : Word) :
    st.accessAllowed m k (accessFlag write) address = true ↔ AcceptsAccess m k write address :=
  Setting.accessAllowed_eq reached.paddingClear small (accessFlag_ne_zero write) checks

/-- The code runs to its end for the accesses `Memory` makes, and jumps to `l` for the others. -/
def DecidesAccess {ι σ ε : Type} (step : ι → σ → Effect σ ε) (code : List (Item ι)) (s : σ) (l : Nat)
    (accepts : Prop) : Prop :=
  ((∃ s', exec step code (.running s) = .running s') ↔ accepts) ∧
    (¬accepts → ∃ s', exec step code (.running s) = .seeking l s')

/-- A check of `cond` decides by it. -/
theorem DecidesAccess.of_branch {ι σ ε : Type} {step : ι → σ → Effect σ ε} {code : List (Item ι)}
    {s s' : σ} {l : Nat} {cond accepts : Prop} (same : cond ↔ accepts)
    (branch : cond ∧ exec step code (.running s) = .running s' ∨
      ¬cond ∧ exec step code (.running s) = .seeking l s') : DecidesAccess step code s l accepts := by
  rcases branch with ⟨goes, run⟩ | ⟨stops, run⟩
  · exact ⟨⟨fun _ => same.mp goes, fun _ => ⟨s', run⟩⟩, fun refused => absurd (same.mp goes) refused⟩
  · refine ⟨⟨fun ⟨s'', ran⟩ => ?_, fun accepted => absurd (same.mpr accepted) stops⟩, fun _ => ⟨s', run⟩⟩
    cases run.symm.trans ran

/-- The check of the x64 generator, where it can be assembled. -/
theorem X64.decides_validate {g : X64.CodeGenerator} (t : X64.X64R) {k : Nat} (small : k ≤ 3)
    (write : Bool) {n : Nat} {o : Emitted X64.Instr X64.PendingExit Nat Unit}
    (ran : (g.generateValidateMemoryAccess t X64.RA.b X64.RA.c k write).run n = .ok o)
    (checks : g.flags.skipPermissionChecks = false) {env : Env} {s : X64.State}
    (anchored : X64.Anchored (g.setting env) g.memory.size env s) (reached : s.guest.memory.Reachable) :
    DecidesAccess (X64.step env) o.code s n (AcceptsAccess s.guest.memory k write (s.regs t)) := by
  have flags : (g.setting env).flags = g.flags := rfl
  have bound : g.memory.size = g.memory.size := rfl
  obtain ⟨code, ran', -, runs⟩ :=
    X64.checks_validate g t small write flags bound (X64.fitsImm32_of_validate ran) n
  rw [ran] at ran'
  cases ran'
  obtain ⟨s', -, -, branch⟩ := runs env s anchored
  exact .of_branch (accessAllowed_iff_accepts reached small write checks _) branch

/-- The check of the AArch64 generator. -/
theorem Aarch64.decides_validate {g : Aarch64.CodeGenerator} (t : Aarch64.A64R) {k : Nat}
    (small : k ≤ 3) (write : Bool) {c : Aarch64.GenState}
    {o : Emitted Aarch64.Instr Aarch64.PendingExit Aarch64.GenState Unit}
    (ran : (g.generateValidateMemoryAccess t Aarch64.RA.b Aarch64.RA.c k write).run c = .ok o)
    (checks : g.flags.skipPermissionChecks = false) {env : Env} {s : Aarch64.State}
    (anchored : Aarch64.Anchored (g.setting env) g.memory.size env s)
    (reached : s.guest.memory.Reachable) :
    DecidesAccess (Aarch64.step env) o.code s c.nextLabel
      (AcceptsAccess s.guest.memory k write (s.get t)) := by
  obtain ⟨code, ran', -, runs⟩ := Aarch64.checks_validate (g.uses_block env) t small write c
  rw [ran] at ran'
  cases ran'
  obtain ⟨s', -, -, branch⟩ := runs (env, s.guest) s anchored
  exact .of_branch (accessAllowed_iff_accepts reached small write checks _) branch

/-- Both generators' checks accept exactly the aligned accesses the memory accepts. -/
theorem validate_decides {k : Nat} (small : k ≤ 3) (write : Bool) (env : Env) :
    (∀ (g : X64.CodeGenerator) (t : X64.X64R) (n : Nat) (s : X64.State)
      (o : Emitted X64.Instr X64.PendingExit Nat Unit),
      (g.generateValidateMemoryAccess t X64.RA.b X64.RA.c k write).run n = .ok o →
      g.flags.skipPermissionChecks = false → X64.Anchored (g.setting env) g.memory.size env s →
      s.guest.memory.Reachable →
      DecidesAccess (X64.step env) o.code s n (AcceptsAccess s.guest.memory k write (s.regs t))) ∧
    (∀ (g : Aarch64.CodeGenerator) (t : Aarch64.A64R) (c : Aarch64.GenState) (s : Aarch64.State)
      (o : Emitted Aarch64.Instr Aarch64.PendingExit Aarch64.GenState Unit),
      (g.generateValidateMemoryAccess t Aarch64.RA.b Aarch64.RA.c k write).run c = .ok o →
      g.flags.skipPermissionChecks = false → Aarch64.Anchored (g.setting env) g.memory.size env s →
      s.guest.memory.Reachable →
      DecidesAccess (Aarch64.step env) o.code s c.nextLabel
        (AcceptsAccess s.guest.memory k write (s.get t))) :=
  ⟨fun _ t _ _ _ ran checks anchored reached =>
      X64.decides_validate t small write ran checks anchored reached,
    fun _ t _ _ _ ran checks anchored reached =>
      Aarch64.decides_validate t small write ran checks anchored reached⟩

/-- Writes of eight bytes to a new memory of twelve. -/
theorem validate_decides_write : ∃ (env : Env) (s : X64.State) (s' : Aarch64.State)
    (code : List (Item X64.Instr)) (code' : List (Item Aarch64.Instr)) (address : Word),
    DecidesAccess (X64.step env) code s 0 (AcceptsAccess s.guest.memory 3 true address) ∧
      DecidesAccess (Aarch64.step env) code' s' 0 (AcceptsAccess s'.guest.memory 3 true address) := by
  let memory := Memory.create 12 (by decide)
  let guest : Guest := ⟨⟨fun _ => 0⟩, memory⟩
  let g : X64.CodeGenerator := ⟨memory, {}, 4, false, 0⟩
  let g' : Aarch64.CodeGenerator := ⟨Aarch64.Platform.plain, memory, {}, 4, false, 0, 0⟩
  let st : Setting := ⟨{}, 4, false, fun _ => 0⟩
  have serves : (Env.placed st).Serves st 12 guest := Env.placed_serves st guest rfl (by decide) (by decide)
  have reached : memory.Reachable := .create 12 (by decide)
  obtain ⟨o, ran⟩ : ∃ o,
      (g.generateValidateMemoryAccess X64.RA.a X64.RA.b X64.RA.c 3 true).run 0 = .ok o := ⟨_, rfl⟩
  obtain ⟨o', ran'⟩ : ∃ o', (g'.generateValidateMemoryAccess Aarch64.RA.a Aarch64.RA.b Aarch64.RA.c 3
      true).run ⟨0, {}⟩ = .ok o' := ⟨_, rfl⟩
  obtain ⟨x64, aarch64⟩ := validate_decides (show 3 ≤ 3 by decide) true (Env.placed st)
  exact ⟨Env.placed st, _, _, o.code, o'.code, 4,
    x64 g X64.RA.a 0 _ o ran rfl (X64.anchored_enter serves fun _ => 4) reached,
    aarch64 g' Aarch64.RA.a ⟨0, {}⟩ _ o' ran' rfl (Aarch64.anchored_enter serves fun _ => 4) reached⟩

end Riscv64Emulator.Jit
