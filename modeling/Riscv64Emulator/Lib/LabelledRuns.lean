import Mathlib.Data.List.Basic

/-!
# Runs of a labelled transition system

A run records the labels of its steps in the order they were taken, so that a property of
a history (what an earlier step implies for a later one) is a statement about the list.
Such a property is proved by cutting the run at the labels it speaks of and carrying a
state property from one cut to the next.
-/
namespace Riscv64Emulator.LabelledRuns

variable {σ ε : Type}

/-- The runs from `s₀` with the given labels. -/
inductive Run (step : σ → ε → σ → Prop) (s₀ : σ) : List ε → σ → Prop
  | start : Run step s₀ [] s₀
  | next {es : List ε} {s s' : σ} {e : ε} (run : Run step s₀ es s) (stepped : step s e s') :
      Run step s₀ (es ++ [e]) s'

namespace Run

variable {step : σ → ε → σ → Prop} {s₀ s s' : σ} {es es' : List ε} {e : ε}

/-- A property of labels and states that holds at the start and is kept by every step holds of
every run. -/
theorem invariant {P : List ε → σ → Prop} (init : P [] s₀)
    (kept : ∀ {es s e s'}, P es s → step s e s' → P (es ++ [e]) s') (run : Run step s₀ es s) :
    P es s := by
  induction run with
  | start => exact init
  | next run stepped ih => exact kept ih stepped

/-- A property of states is kept by a run whose steps keep it. -/
theorem keeps {P : σ → Prop} (init : P s₀) (run : Run step s₀ es s)
    (kept : ∀ {s e s'}, e ∈ es → P s → step s e s' → P s') : P s := by
  induction run with
  | start => exact init
  | next run stepped ih =>
    refine kept (List.mem_append_right _ (List.mem_singleton_self _)) (ih fun taken => ?_) stepped
    exact kept (List.mem_append_left _ taken)

theorem trans (run : Run step s₀ es s) (run' : Run step s es' s') : Run step s₀ (es ++ es') s' := by
  induction run' with
  | start => rwa [List.append_nil]
  | next run' stepped ih =>
    rw [← List.append_assoc]
    exact ih.next stepped

/-- A run whose labels are read as other labels. -/
theorem map {ε' : Type} {step' : σ → ε' → σ → Prop} {f : ε → ε'}
    (reads : ∀ s e s', step s e s' → step' s (f e) s') (run : Run step s₀ es s) :
    Run step' s₀ (es.map f) s := by
  induction run with
  | start => exact .start
  | next run stepped ih =>
    rw [List.map_append]
    exact ih.next (reads _ _ _ stepped)

/-- A run can be cut anywhere. -/
theorem cut (run : Run step s₀ (es ++ es') s') : ∃ s, Run step s₀ es s ∧ Run step s es' s' := by
  -- by induction on the run, whose last step is the last of `es'` unless that is empty
  generalize whole : es ++ es' = labels at run
  induction run generalizing es' with
  | start =>
    obtain ⟨rfl, rfl⟩ := List.append_eq_nil_iff.mp whole
    exact ⟨s₀, .start, .start⟩
  | @next before s₁ s₂ e run stepped ih =>
    rcases List.eq_nil_or_concat es' with rfl | ⟨es', e', rfl⟩
    · rw [List.append_nil] at whole
      exact ⟨s₂, whole ▸ run.next stepped, .start⟩
    · rw [List.concat_eq_append, ← List.append_assoc] at whole
      obtain ⟨rfl, last⟩ := List.append_inj' whole rfl
      cases last
      obtain ⟨s, first, rest⟩ := ih rfl
      exact ⟨s, first, by rw [List.concat_eq_append]; exact rest.next stepped⟩

/-- A run of one step. -/
theorem single (run : Run step s₀ [e] s) : step s₀ e s := by
  generalize whole : [e] = labels at run
  cases run with
  | start => cases whole
  | @next before s₁ s₂ e' run stepped =>
    obtain ⟨rfl, last⟩ := List.append_inj' ((List.nil_append [e]).trans whole) rfl
    cases last
    generalize none : ([] : List ε) = labels at run
    cases run with
    | start => exact stepped
    | next => exact absurd none.symm (List.append_ne_nil_of_right_ne_nil _ (List.cons_ne_nil _ _))

/-- The step of a label in the middle of a run. -/
theorem cut_cons (run : Run step s₀ (es ++ e :: es') s') :
    ∃ s s₁, Run step s₀ es s ∧ step s e s₁ ∧ Run step s₁ es' s' := by
  obtain ⟨s, first, rest⟩ := run.cut
  obtain ⟨s₁, here, rest⟩ := (show Run step s ([e] ++ es') s' from rest).cut
  exact ⟨s, s₁, first, here.single, rest⟩

/-- Where no run is longer than some bound, one comes to its end. -/
theorem exists_end {bound : Nat} (bounded : ∀ es s, Run step s₀ es s → es.length ≤ bound) :
    ∃ es s, Run step s₀ es s ∧ ∀ e s', ¬step s e s' := by
  -- by induction on how far the run is from the longest one there can be
  have further : ∀ left es s, Run step s₀ es s → bound ≤ es.length + left →
      ∃ es s, Run step s₀ es s ∧ ∀ e s', ¬step s e s' := by
    intro left
    induction left with
    | zero =>
      intro es s run long
      refine ⟨es, s, run, fun e s' stepped => ?_⟩
      have short := bounded _ _ (run.next stepped)
      rw [List.length_append, List.length_singleton] at short
      omega
    | succ left ih =>
      intro es s run long
      by_cases ends : ∀ e s', ¬step s e s'
      · exact ⟨es, s, run, ends⟩
      · simp only [not_forall, Classical.not_not] at ends
        obtain ⟨e, s', stepped⟩ := ends
        refine ih _ s' (run.next stepped) ?_
        rw [List.length_append, List.length_singleton]
        omega
  exact further bound [] s₀ .start (Nat.le_add_left _ _)

/-- A forward simulation takes every run to one with the same labels. -/
theorem simulates {τ : Type} {step' : τ → ε → τ → Prop} {R : σ → τ → Prop} {b₀ : τ} (init : R s₀ b₀)
    (simulated : ∀ {s e s' b}, R s b → step s e s' → ∃ b', step' b e b' ∧ R s' b')
    (run : Run step s₀ es s) : ∃ b, Run step' b₀ es b ∧ R s b := by
  induction run with
  | start => exact ⟨b₀, .start, init⟩
  | next run stepped ih =>
    obtain ⟨b, run', related⟩ := ih
    obtain ⟨b', stepped', related'⟩ := simulated related stepped
    exact ⟨b', run'.next stepped', related'⟩

/-- Runs with the same labels stay related where steps with the same label do. -/
theorem related {τ : Type} {step' : τ → ε → τ → Prop} {R : σ → τ → Prop} {b₀ b : τ} (init : R s₀ b₀)
    (kept : ∀ {s e s' b b'}, R s b → step s e s' → step' b e b' → R s' b') (run : Run step s₀ es s)
    (run' : Run step' b₀ es b) : R s b := by
  induction run generalizing b with
  | start =>
    generalize none : ([] : List ε) = labels at run'
    cases run' with
    | start => exact init
    | next => exact absurd none.symm (List.append_ne_nil_of_right_ne_nil _ (List.cons_ne_nil _ _))
  | next run stepped ih =>
    obtain ⟨b', before, last⟩ := run'.cut
    exact kept (ih before) stepped last.single

end Run

end Riscv64Emulator.LabelledRuns
