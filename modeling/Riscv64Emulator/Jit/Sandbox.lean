import Riscv64Emulator.Jit.FallBack
import Riscv64Emulator.Jit.Aarch64.Results

/-!
# The sandbox of generated code

Whatever the guest program, the code of its blocks touches the slots of `x1` to `x31`, the
contents of the memory, and, for its checks only, the permission bytes and the block table.
-/
namespace Riscv64Emulator.Jit

open LinearCode

/-! ### Permitted places -/

/-- The slot of a register that is neither `x0` nor the pc. -/
def Env.InSlot (env : Env) (g : Guest) (a : Access) : Prop :=
  ∃ r, 1 ≤ r ∧ r ≤ 31 ∧ a.size ≤ 8 ∧ env.resolve g a.address a.size = some (.registers (8 * r))

/-- Bytes of the contents, at an offset. -/
def Env.InContents (env : Env) (g : Guest) (a : Access) (offset : Nat) : Prop :=
  env.resolve g a.address a.size = some (.memory offset) ∧
    offset + a.size ≤ g.memory.permissionsOffset

/-- Permission bytes. -/
def Env.InPermissions (env : Env) (g : Guest) (a : Access) : Prop :=
  ∃ offset, env.resolve g a.address a.size = some (.memory offset) ∧
    g.memory.permissionsOffset ≤ offset ∧ offset + a.size ≤ g.extent

/-- The block table. -/
def Env.InBlocks (env : Env) (g : Guest) (a : Access) : Prop :=
  ∃ offset, env.resolve g a.address a.size = some (.blocks offset)

/-- What executed code may do: it stores to slots and, with the guest's permission where
permissions are checked, to the contents. What it loads from elsewhere are permission bytes
and the block table, and no stored value depends on these. -/
structure Confined (env : Env) (g : Guest) (accesses : List Access) (storesForeign : Bool) : Prop where
  stores : ∀ a ∈ accesses, a.write = true → env.InSlot g a ∨ ∃ offset, env.InContents g a offset ∧
    (env.skipPermissionChecks = false → ∀ i < a.size,
      g.memory.permissions (offset + i) &&& MemoryFlags.write = MemoryFlags.write)
  loads : ∀ a ∈ accesses, a.write = false →
    (env.InSlot g a ∨ ∃ offset, env.InContents g a offset) ∨
      (env.foreign g a.address a.size = true ∧ (env.InPermissions g a ∨ env.InBlocks g a))
  guestData : storesForeign = false

theorem Env.inSlot_of_permits {env : Env} {g : Guest} {a : Access} {offset : Nat}
    (here : env.resolve g a.address a.size = some (.registers offset))
    (permitted : env.permits g a = true) : env.InSlot g a := by
  unfold Env.permits at permitted
  rw [here] at permitted
  simp only [Bool.and_eq_true, beq_iff_eq, decide_eq_true_eq] at permitted
  obtain ⟨⟨⟨aligned, low⟩, high⟩, small⟩ := permitted
  refine ⟨offset / 8, by omega, by omega, small, ?_⟩
  rw [here, show 8 * (offset / 8) = offset by omega]

theorem Env.within_extent {env : Env} {g : Guest} {address : Word} {n offset : Nat}
    (here : env.resolve g address n = some (.memory offset)) : offset + n ≤ g.extent := by
  unfold Env.resolve at here
  split at here
  · cases here
  · split at here
    · next inside =>
      cases here
      unfold within at inside
      split at inside
      · cases inside
        omega
      · cases inside
    · simp at here

theorem Confined.of_permits {env : Env} {g : Guest} {accesses : List Access} {storesForeign : Bool}
    (permitted : accesses.all (env.permits g) = true) (guestData : storesForeign = false) :
    Confined env g accesses storesForeign where
  guestData := guestData
  stores a member write := by
    have permitted := List.all_eq_true.mp permitted a member
    cases here : env.resolve g a.address a.size with
    | none => simp [Env.permits, here] at permitted
    | some location =>
      cases location with
      | registers offset => exact .inl (Env.inSlot_of_permits here permitted)
      -- a store into the block table is never permitted
      | blocks offset => simp [Env.permits, here, write] at permitted
      | memory offset =>
        simp only [Env.permits, here, write, if_true, Bool.and_eq_true, Bool.or_eq_true,
          decide_eq_true_eq, List.all_eq_true, List.mem_range, beq_iff_eq] at permitted
        refine .inr ⟨offset, ⟨here, permitted.1⟩, fun checks i inside => ?_⟩
        rcases permitted.2 with skips | granted
        · rw [checks] at skips
          cases skips
        · exact granted i inside
  loads a member read := by
    have permitted := List.all_eq_true.mp permitted a member
    cases here : env.resolve g a.address a.size with
    | none => simp [Env.permits, here] at permitted
    | some location =>
      cases location with
      | registers offset => exact .inl (.inl (Env.inSlot_of_permits here permitted))
      | blocks offset => exact .inr ⟨by simp [Env.foreign, here], .inr ⟨offset, here⟩⟩
      | memory offset =>
        simp only [Env.permits, here, read, Bool.false_eq_true, if_false, Bool.or_eq_true,
          decide_eq_true_eq] at permitted
        -- a load reads the contents, or the permissions that lie behind them
        by_cases contents : offset + a.size ≤ g.memory.permissionsOffset
        · exact .inl (.inr ⟨offset, here, contents⟩)
        · have behind := permitted.resolve_left contents
          refine .inr ⟨?_, .inl ⟨offset, here, behind, Env.within_extent here⟩⟩
          simp only [Env.foreign, here, decide_eq_true_eq]
          omega

/-! ### Executed code -/

namespace X64

/-- Every instruction that is executed is confined. -/
def StaysConfined (env : Env) (code : List (Item Instr)) (s : State) : Prop :=
  Always (step env) (fun i s => Confined env s.guest (accesses i s) (storesForeign env i s))
    code (.running s)

theorem confined_of_sandboxed {env : Env} {i : Instr} {s : State} (safe : Sandboxed env i s) :
    Confined env s.guest (accesses i s) (storesForeign env i s) := by
  unfold Sandboxed sandboxed at safe
  rw [Bool.and_eq_true, Bool.not_eq_true'] at safe
  exact .of_permits safe.1 safe.2

theorem generateCode_confined (g : CodeGenerator) {fuel : Nat} {code : List (Item Instr)}
    (ran : g.generateCode fuel = .ok code) {env : Env} {s : State}
    (anchored : Anchored (g.setting env) g.memory.size env s) : StaysConfined env code s := by
  have performs := generateCode_performs g ran anchored
  refine Always.mono (fun _ _ => confined_of_sandboxed) ?_
  cases outcome : blockEffect x64BackEnd (g.setting env) g.memory fuel g.currentPc s.guest with
  | next guest => exact (blockEffect_ne_next _ _ _ _ _ _ _ outcome).elim
  | fault =>
    rw [outcome] at performs
    exact performs.always
  | depart d guest =>
    rw [outcome] at performs
    obtain ⟨e, s', quits, -⟩ := performs
    exact quits.always

end X64

namespace Aarch64

/-- Every instruction that is executed is confined. -/
def StaysConfined (env : Env) (code : List (Item Instr)) (s : State) : Prop :=
  Always (step env) (fun i s => Confined env s.guest (accesses i s) (storesForeign i s))
    code (.running s)

theorem confined_of_sandboxed {env : Env} {i : Instr} {s : State} (safe : Sandboxed env i s) :
    Confined env s.guest (accesses i s) (storesForeign i s) := by
  unfold Sandboxed sandboxed at safe
  rw [Bool.and_eq_true, Bool.not_eq_true'] at safe
  exact .of_permits safe.1 safe.2

theorem generateCode_confined (g : CodeGenerator) {fuel : Nat} {code : List (Item Instr)}
    (ran : g.generateCode fuel = .ok code) {env : Env} {s : State}
    (anchored : Anchored (g.setting env) g.memory.size env s) : StaysConfined env code s := by
  have performs := generateCode_performs g ran anchored
  refine Always.mono (fun _ _ => confined_of_sandboxed) ?_
  cases outcome : blockEffect a64BackEnd (g.setting env) g.memory fuel g.currentPc s.guest with
  | next guest => exact (blockEffect_ne_next _ _ _ _ _ _ _ outcome).elim
  | fault =>
    rw [outcome] at performs
    exact performs.always
  | depart d guest =>
    rw [outcome] at performs
    obtain ⟨e, s', quits, -⟩ := performs
    exact quits.always

end Aarch64

/-- The code of every block either generator compiles stays in the sandbox. -/
theorem generatedCode_confined (fuel : Nat) (env : Env) :
    (∀ (g : X64.CodeGenerator) (code : List (Item X64.Instr)) (s : X64.State),
      g.generateCode fuel = .ok code → X64.Anchored (g.setting env) g.memory.size env s →
      X64.StaysConfined env code s) ∧
    (∀ (g : Aarch64.CodeGenerator) (code : List (Item Aarch64.Instr)) (s : Aarch64.State),
      g.generateCode fuel = .ok code → Aarch64.Anchored (g.setting env) g.memory.size env s →
      Aarch64.StaysConfined env code s) :=
  ⟨fun g _ _ ran anchored => X64.generateCode_confined g ran anchored,
    fun g _ _ ran anchored => Aarch64.generateCode_confined g ran anchored⟩

/-- The code of a store and a load. -/
theorem generatedCode_confined_overwrite : ∃ (env : Env) (s : X64.State) (s' : Aarch64.State)
    (code : List (Item X64.Instr)) (code' : List (Item Aarch64.Instr)),
    X64.StaysConfined env code s ∧ Aarch64.StaysConfined env code' s' := by
  let g' : Aarch64.CodeGenerator := ⟨Aarch64.Platform.plain, Overwrite.memory, {}, 4, false, 0, 0⟩
  let st : Setting := ⟨{}, 4, false, fun _ => 0⟩
  have serves : (Env.placed st).Serves st 16 (guestOf (Overwrite.vm 0)) :=
    Env.placed_serves st (guestOf (Overwrite.vm 0)) rfl (by decide) (by decide)
  obtain ⟨code, ran⟩ : ∃ code,
      X64.CodeGenerator.generateCode ⟨Overwrite.memory, {}, 4, false, 0⟩ 4 = .ok code := ⟨_, rfl⟩
  obtain ⟨code', ran'⟩ := Aarch64.run_generateCode g' 4 ⟨2, by decide, by decide⟩
  obtain ⟨x64, aarch64⟩ := generatedCode_confined 4 (Env.placed st)
  exact ⟨Env.placed st, _, _, code, code', x64 _ _ _ ran (X64.anchored_enter serves fun _ => 0),
    aarch64 g' _ _ ran' (Aarch64.anchored_enter serves fun _ => 0)⟩

end Riscv64Emulator.Jit
