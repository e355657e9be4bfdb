import Riscv64Emulator.Vm.Steps

/-!
# Steps that write

What becomes of the memory when an instruction is executed, and what a step that was refused
reports.
-/
namespace Riscv64Emulator

open Interpreter

/-! ### Memory that was only written -/

/-- `m'` comes from `m` by writes; where they are checked, to writable bytes. -/
structure Memory.Undisturbed (checked : Prop) (m m' : Memory) : Prop where
  size : m'.size = m.size
  permissions : ∀ j, m'.permissions j = m.permissions j
  written : checked → ∀ j, m'.contents j ≠ m.contents j →
    m.permissions j &&& MemoryFlags.write = MemoryFlags.write

namespace Memory.Undisturbed

variable {checked : Prop} {m m₁ m₂ : Memory}

theorem refl (checked : Prop) (m : Memory) : Undisturbed checked m m :=
  ⟨rfl, fun _ => rfl, fun _ _ changed => absurd rfl changed⟩

theorem of_eq (same : m₁ = m) : Undisturbed checked m m₁ := same ▸ refl checked m

theorem trans (first : Undisturbed checked m m₁) (second : Undisturbed checked m₁ m₂) :
    Undisturbed checked m m₂ where
  size := second.size.trans first.size
  permissions j := (second.permissions j).trans (first.permissions j)
  written checks j changed := by
    by_cases fresh : m₂.contents j = m₁.contents j
    · exact first.written checks j (by rwa [← fresh])
    · rw [← first.permissions j]
      exact second.written checks j fresh

theorem mono {checked' : Prop} (undisturbed : Undisturbed checked m m₁) (weaker : checked' → checked) :
    Undisturbed checked' m m₁ :=
  ⟨undisturbed.size, undisturbed.permissions, fun checks => undisturbed.written (weaker checks)⟩

/-- A write to the contents half. -/
theorem overwrite {a : Nat} {data : List Byte} (inside : a + data.length ≤ m.permissionsOffset)
    (granted : checked → ∀ i < data.length, m.permissions (a + i) &&& MemoryFlags.write = MemoryFlags.write) :
    Undisturbed checked m { m with allocation := overwrite m.allocation a data } where
  size := rfl
  permissions j := overwrite_outside _ _ _ _ (.inr (Nat.le_trans inside (Nat.le_add_right _ j)))
  written checks j changed := by
    by_cases within : a ≤ j ∧ j < a + data.length
    · have place := granted checks (j - a) (by omega)
      rwa [Nat.add_sub_cancel' within.1] at place
    · exact absurd (overwrite_outside _ _ _ _ (by omega)) changed

end Memory.Undisturbed

namespace Interpreter

variable {vm vm' : VmState} {ok : Bool}

/-- The interpreter checks every write. -/
theorem step_undisturbed {checked : Prop} (moderate : vm.memory.size.toNat ≤ 2 ^ 63)
    (stepped : step vm = .ok (ok, vm')) : Memory.Undisturbed checked vm.memory vm'.memory := by
  have after := step_cases vm
  rw [stepped] at after
  cases after with
  | unalignedPc | fetchFault => exact .refl _ _
  | executed fetch after =>
    cases after with
    | stopped => exact .refl _ _
    | retired after =>
      cases after with
      | stored width written =>
        obtain ⟨size, permissions, changes⟩ := isolated_writeT moderate (storeWidth_le width).2 written
        exact ⟨size, permissions, fun _ j changed => (changes j changed).2⟩
      | computed | unchanged | loaded | branched | jumped | jumpedIndirect => exact .refl _ _

/-- A step that was refused is refused again, with the same report. -/
theorem step_refused_again (stepped : step vm = .ok (false, vm')) : step vm' = .ok (false, vm') := by
  have after := step_cases vm
  rw [stepped] at after
  cases after with
  | unalignedPc misaligned =>
    unfold step
    rw [if_pos misaligned]
  | fetchFault aligned refused =>
    unfold step
    simp only [refused, ne_eq, aligned, not_true_eq_false, if_false]
  | @executed i _ fetch after =>
    cases after with
    | stopped after =>
      -- the exit is no part of what the instruction looks at
      have fetch' : ∀ e : Exit, fetched { vm with exit := e } = some i := fun _ => fetch
      rw [step_of_fetched (fetch' _)]
      cases after with
      | readFault width refused =>
        unfold accessAddress at refused ⊢
        rw [execute_load _ width]
        unfold accessAddress
        simp only [refused]
      | writeFault width refused =>
        unfold accessAddress at refused ⊢
        rw [execute_store _ width]
        unfold accessAddress
        simp only [refused]
      | ecall kind | ebreak kind | undefined kind => simp only [execute, kind]

/-- A report names its reason. -/
theorem step_refused_reason (stepped : step vm = .ok (false, vm')) : vm'.exit.reason ≠ .none := by
  have after := step_cases vm
  rw [stepped] at after
  cases after with
  | unalignedPc | fetchFault => exact fun same => by cases same
  | executed fetch after =>
    cases after with
    | stopped after => cases after <;> exact fun same => by cases same

/-- A run of the interpreter. -/
theorem run_undisturbed {checked : Prop} {vm v : VmState} (moderate : vm.memory.size.toNat ≤ 2 ^ 63)
    (run : Run vm v) : Memory.Undisturbed checked vm.memory v.memory := by
  induction run with
  | refl => exact .refl _ _
  | tail _ next ih => exact ih.trans (step_undisturbed (by rw [ih.size]; exact moderate) next)

end Interpreter

/-- The reasons of accesses the memory refused. -/
def ExitReason.isFault : ExitReason → Bool
  | .memoryReadFault | .memoryWriteFault => true
  | _ => false

end Riscv64Emulator
