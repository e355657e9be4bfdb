import Mathlib.Logic.Relation
import Mathlib.Order.WellFounded

/-!
# Simulations of runs that end

A system is followed along a run of another one that comes to an end: each of its steps makes
up for some steps of the other run, or brings it closer to one that does. Then the system
has no infinite run either, and wherever it stops is where the other run is followed to.
-/
namespace RankedSimulation

/-! ### Runs that end -/

section Ends

variable {α : Type} {goes : α → α → Prop} {last : α → Prop} {a b : α} {n : Nat}

/-- After `n` steps from `a` the run is at its last state. -/
inductive Ends (goes : α → α → Prop) (last : α → Prop) : Nat → α → Prop
  | here {a : α} (stops : last a) : Ends goes last 0 a
  | next {a b : α} {n : Nat} (step : goes a b) (ends : Ends goes last n b) :
      Ends goes last (n + 1) a

theorem Ends.of_run (run : Relation.ReflTransGen goes a b) (stops : last b) :
    ∃ n, Ends goes last n a := by
  induction run using Relation.ReflTransGen.head_induction_on with
  | refl => exact ⟨0, .here stops⟩
  | head step _ ih =>
    obtain ⟨n, ends⟩ := ih
    exact ⟨n + 1, .next step ends⟩

/-- A step of a deterministic system is the one its run makes. -/
theorem Ends.step (ends : Ends goes last n a) (deterministic : ∀ {b b'}, goes a b → goes a b' → b = b')
    (final : last a → ∀ b, ¬goes a b) (step : goes a b) : ∃ n', n = n' + 1 ∧ Ends goes last n' b := by
  cases ends with
  | here stops => exact absurd step (final stops b)
  | next step' ends =>
    cases deterministic step step'
    exact ⟨_, rfl, ends⟩

end Ends

/-! ### Descending systems -/

section Descends

variable {γ : Type} {next : γ → γ → Prop} {rank : γ → Nat} {follows : Nat → γ → Prop} {c c' : γ} {n : Nat}

/-- A step uses up some of what is left of the other run, or none of it and lowers the rank. -/
def Descends (next : γ → γ → Prop) (rank : γ → Nat) (follows : Nat → γ → Prop) : Prop :=
  ∀ {n c c'}, follows n c → next c c' → ∃ n', follows n' c' ∧ (n' < n ∨ n' = n ∧ rank c' < rank c)

theorem Descends.run (descends : Descends next rank follows) (here : follows n c)
    (run : Relation.ReflTransGen next c c') : ∃ n', follows n' c' := by
  induction run with
  | refl => exact ⟨n, here⟩
  | tail _ step ih =>
    obtain ⟨n', there⟩ := ih
    obtain ⟨n'', further, -⟩ := descends there step
    exact ⟨n'', further⟩

/-- There is no infinite run. -/
theorem Descends.acc (descends : Descends next rank follows) (here : follows n c) :
    Acc (fun c' c => next c c') c := by
  induction n using Nat.strong_induction_on generalizing c with
  | _ n fewer =>
    -- among the places with as much left, by the rank
    induction level : rank c using Nat.strong_induction_on generalizing c with
    | _ r lower =>
      refine ⟨c, fun c' step => ?_⟩
      obtain ⟨n', there, less | ⟨rfl, less⟩⟩ := descends here step
      · exact fewer n' less there
      · exact lower (rank c') (level ▸ less) there rfl

end Descends

end RankedSimulation
