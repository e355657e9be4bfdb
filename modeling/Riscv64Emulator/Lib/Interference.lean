import Mathlib.Data.DFinsupp.WellFounded
import Mathlib.Logic.Relation

/-!
# Parties that share a state

Each party has a state of its own, and its steps may change a state that all of them share. What
holds of a party has to survive what the others do to the shared state: a party relies on their
steps, and guarantees as much to them. Then it holds however the steps interleave, and where every
step brings its party closer to an end, there is no infinite interleaving.
-/
namespace Interference

variable {Party Own Shared : Type}

/-- What the parties have of their own, and what they share. -/
structure System (Party Own Shared : Type) where
  own : Party → Own
  shared : Shared

section Steps

variable [DecidableEq Party]

/-- A step of one party. -/
inductive Step (acts : Party → Own × Shared → Own × Shared → Prop) (t : Party) :
    System Party Own Shared → System Party Own Shared → Prop
  | intro {s : System Party Own Shared} {o : Own} {g : Shared} (stepped : acts t (s.own t, s.shared) (o, g)) :
      Step acts t s ⟨Function.update s.own t o, g⟩

/-- A step of any party. -/
def Steps (acts : Party → Own × Shared → Own × Shared → Prop) (s s' : System Party Own Shared) : Prop :=
  ∃ t, Step acts t s s'

/-- The steps of a party that nobody disturbs. -/
theorem steps_of_party {acts : Party → Own × Shared → Own × Shared → Prop} {s : System Party Own Shared} {t : Party}
    {o : Own} {g : Shared} (run : Relation.ReflTransGen (acts t) (s.own t, s.shared) (o, g)) :
    Relation.ReflTransGen (Steps acts) s ⟨Function.update s.own t o, g⟩ := by
  suffices follows : ∀ place, Relation.ReflTransGen (acts t) (s.own t, s.shared) place →
      Relation.ReflTransGen (Steps acts) s ⟨Function.update s.own t place.1, place.2⟩ from follows (o, g) run
  intro place run
  induction run with
  | refl =>
    rw [Function.update_eq_self]
  | @tail between place _ stepped ih =>
    have here : acts t (Function.update s.own t between.1 t, between.2) place := by
      rwa [Function.update_self]
    have step : Step acts t ⟨Function.update s.own t between.1, between.2⟩
        ⟨Function.update (Function.update s.own t between.1) t place.1, place.2⟩ := .intro here
    rw [Function.update_idem] at step
    exact ih.tail ⟨t, step⟩

/-- `P t m o g` is kept by the steps of `t`, which make `m` lower, and by what `t` relies on. A step
guarantees to the other parties what they rely on. -/
structure Cooperates {μ : Type} (lower : μ → μ → Prop)
    (acts : Party → Own × Shared → Own × Shared → Prop) (P : Party → μ → Own → Shared → Prop)
    (rely : Party → Shared → Shared → Prop) : Prop where
  advances : ∀ {t m o g o' g'}, P t m o g → acts t (o, g) (o', g') → ∃ m', lower m' m ∧ P t m' o' g'
  guarantees : ∀ {t t' m o g o' g'}, P t m o g → acts t (o, g) (o', g') → t' ≠ t → rely t' g g'
  stable : ∀ {t m o g g'}, P t m o g → rely t g g' → P t m o g'

variable {μ : Type} {lower : μ → μ → Prop} {acts : Party → Own × Shared → Own × Shared → Prop}
  {P : Party → μ → Own → Shared → Prop} {rely : Party → Shared → Shared → Prop}
  {s s' : System Party Own Shared} {m : Party → μ}

/-- The party that steps advances, the others stay where they are. -/
theorem Cooperates.step (cooperates : Cooperates lower acts P rely)
    (holds : ∀ t, P t (m t) (s.own t) s.shared) (steps : Steps acts s s') :
    ∃ t m', lower m' (m t) ∧ ∀ t', P t' (Function.update m t m' t') (s'.own t') s'.shared := by
  obtain ⟨t, stepped⟩ := steps
  cases stepped with
  | @intro o g stepped =>
    obtain ⟨m', less, there⟩ := cooperates.advances (holds t) stepped
    refine ⟨t, m', less, fun t' => ?_⟩
    by_cases same : t' = t
    · subst same
      simpa only [Function.update_self] using there
    · simp only [Function.update_of_ne same]
      exact cooperates.stable (holds t') (cooperates.guarantees (holds t) stepped same)

theorem Cooperates.run (cooperates : Cooperates lower acts P rely) (holds : ∀ t, P t (m t) (s.own t) s.shared)
    (run : Relation.ReflTransGen (Steps acts) s s') :
    ∃ m' : Party → μ, ∀ t, P t (m' t) (s'.own t) s'.shared := by
  induction run with
  | refl => exact ⟨m, holds⟩
  | tail _ steps ih =>
    obtain ⟨m', there⟩ := ih
    obtain ⟨t, less, -, further⟩ := cooperates.step there steps
    exact ⟨_, further⟩

/-- There is no infinite interleaving. -/
theorem Cooperates.acc [Finite Party] [Preorder μ] [WellFoundedLT μ] (cooperates : Cooperates (· < ·) acts P rely)
    (holds : ∀ t, P t (m t) (s.own t) s.shared) : Acc (fun s' s => Steps acts s s') s := by
  induction m using WellFoundedLT.induction generalizing s with
  | ind m lower =>
    refine ⟨s, fun s' steps => ?_⟩
    obtain ⟨t, m', less, there⟩ := cooperates.step holds steps
    exact lower _ (update_lt_self_iff.mpr less) there

end Steps

end Interference
