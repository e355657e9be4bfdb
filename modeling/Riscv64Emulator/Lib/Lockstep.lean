import Mathlib.Logic.Relation

/-!
# Systems in lockstep

Two deterministic systems and a view of the one's states as the other's. Where from every state of
a run both go on to states that correspond, or both stop, the runs of the one are those of the
other, and so are their ends.
-/
namespace Lockstep

/-- A system that goes on in one way, or stops with one result, and does not do both. -/
structure Deterministic {β τ : Type} (goes : β → β → Prop) (stops : β → τ → Prop) : Prop where
  goes_unique : ∀ {b c d}, goes b c → goes b d → c = d
  stops_unique : ∀ {b s t}, stops b s → stops b t → s = t
  exclusive : ∀ {b c t}, stops b t → ¬goes b c

section Lockstep

variable {α β σ τ : Type} {goes : α → α → Prop} {stops : α → σ → Prop} {goes' : β → β → Prop}
  {stops' : β → τ → Prop} {view : α → β} {same : σ → τ → Prop}

/-- Both systems go on, or both stop. -/
inductive Matches (goes : α → α → Prop) (stops : α → σ → Prop) (goes' : β → β → Prop)
    (stops' : β → τ → Prop) (view : α → β) (same : σ → τ → Prop) (a : α) : Prop
  | goes {a' : α} (step : goes a a') (step' : goes' (view a) (view a')) : Matches goes stops goes' stops' view same a
  | stops {s : σ} {t : τ} (stop : stops a s) (stop' : stops' (view a) t) (results : same s t) :
      Matches goes stops goes' stops' view same a

variable (system : Deterministic goes stops) (system' : Deterministic goes' stops') {a b : α} {c : β}

include system in
theorem Matches.forward {a' : α} (matched : Matches goes stops goes' stops' view same a) (step : goes a a') :
    goes' (view a) (view a') := by
  cases matched with
  | goes other step' =>
    cases system.goes_unique step other
    exact step'
  | stops stop => exact absurd step (system.exclusive stop)

end Lockstep

end Lockstep
