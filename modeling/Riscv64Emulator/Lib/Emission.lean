import Riscv64Emulator.Lib.DeferredExits

/-!
# Generators of code with deferred exits

`Realizes` says how a fragment with its exits ends, `Emits` that a generator emits such a
fragment under labels of its own. The rules put code, checks and labels around a fragment
and fragments one after the other.
-/
namespace LinearCode

variable {ι σ ε χ : Type} (step : ι → σ → Effect σ ε) (P : ι → σ → Prop)

/-- The four ways a fragment ends, seen from outside: a jump to one of its exits leaves. -/
inductive Ending (σ ε : Type) where
  | ran (s : σ)
  | left (e : ε) (s : σ)
  | faulted

/-- The fragment, with the code of its exits behind everything, ends like this. -/
def Ends (exitCode : χ → List (Item ι)) (code : List (Item ι)) (exits : List χ) (s : σ) :
    Ending σ ε → Prop
  | .ran s' => Continues step P code s s'
  | .left e s' => Leaves step P exitCode code exits s e s'
  | .faulted => Faults step P code s

/-- The fragment ends in a way `post` allows. -/
def Realizes (exitCode : χ → List (Item ι)) (code : List (Item ι)) (exits : List χ) (s : σ)
    (post : Ending σ ε → Prop) : Prop :=
  ∃ ending, Ends step P exitCode code exits s ending ∧ post ending

/-- The labels a fragment binds and leaves to its exits lie between two numbers. -/
structure FreshLabels (label : χ → Nat) (n : Nat) (code : List (Item ι)) (exits : List χ)
    (n' : Nat) : Prop where
  grows : n ≤ n'
  bound : ∀ l ∈ binds code, n ≤ l ∧ l < n'
  exits : ∀ exit ∈ exits, n ≤ label exit ∧ label exit < n'

variable {step P}

namespace FreshLabels

variable {label : χ → Nat} {n n₁ n' : Nat} {code₁ code₂ : List (Item ι)} {exits₁ exits₂ : List χ}

/-- Code without labels. -/
theorem unlabeled {code : List (Item ι)} {exits : List χ} (grows : n ≤ n') (free : binds code = [])
    (fresh : ∀ exit ∈ exits, n ≤ label exit ∧ label exit < n') :
    FreshLabels label n code exits n' where
  grows := grows
  bound := by
    rw [free]
    exact fun _ member => absurd member List.not_mem_nil
  exits := fresh

theorem append (first : FreshLabels label n code₁ exits₁ n₁)
    (second : FreshLabels label n₁ code₂ exits₂ n') :
    FreshLabels label n (code₁ ++ code₂) (exits₁ ++ exits₂) n' where
  grows := Nat.le_trans first.grows second.grows
  bound l member := by
    have grows₁ := first.grows
    have grows₂ := second.grows
    rw [binds_append] at member
    -- a label of either piece lies between that piece's two counters
    rcases List.mem_append.mp member with own | own
    · have := first.bound l own
      omega
    · have := second.bound l own
      omega
  exits exit member := by
    have grows₁ := first.grows
    have grows₂ := second.grows
    rcases List.mem_append.mp member with own | own
    · have := first.exits exit own
      omega
    · have := second.exits exit own
      omega

end FreshLabels

section Realizes

variable {exitCode : χ → List (Item ι)} {label : χ → Nat} {code code₁ code₂ : List (Item ι)}
  {exits exits₁ exits₂ : List χ} {s s₁ : σ} {post post₁ : Ending σ ε → Prop}

theorem Realizes.mono (realizes : Realizes step P exitCode code exits s post₁)
    (weaker : ∀ ending, post₁ ending → post ending) :
    Realizes step P exitCode code exits s post := by
  obtain ⟨ending, ends, holds⟩ := realizes
  exact ⟨ending, ends, weaker ending holds⟩

/-- A fragment without exits that is run through. -/
theorem Continues.realizes (continues : Continues step P code s s₁)
    (exitCode : χ → List (Item ι)) (exits : List χ) (holds : post (.ran s₁)) :
    Realizes step P exitCode code exits s post := ⟨.ran s₁, continues, holds⟩

variable (own : BindsOwn exitCode label)
include own

/-- Straight-line code in front. -/
theorem Realizes.after (first : Continues step P code₁ s s₁)
    (second : Realizes step P exitCode code₂ exits s₁ post) :
    Realizes step P exitCode (code₁ ++ code₂) exits s post := by
  obtain ⟨ending, ends, holds⟩ := second
  refine ⟨ending, ?_, holds⟩
  cases ending with
  | ran s' => exact first.append ends
  | left e s' => exact first.leaves own [] ends fun _ _ => List.not_mem_nil
  | faulted => exact first.faults ends

/-- Exits under other labels do not matter. -/
theorem Realizes.widen (realizes : Realizes step P exitCode code exits s post)
    (before after : List χ) (apart : ∀ exit ∈ exits ++ after, label exit ∉ before.map label) :
    Realizes step P exitCode code (before ++ (exits ++ after)) s post := by
  obtain ⟨ending, ends, holds⟩ := realizes
  refine ⟨ending, ?_, holds⟩
  cases ending with
  | ran s' => exact ends
  | left e s' =>
    -- the label it left for is in none of the exits written before its own
    have nothing : ∀ exit ∈ exits, label exit ∉ binds ([] : List (Item ι)) :=
      fun _ _ => List.not_mem_nil
    have behind := Leaves.append own ends after nothing
    rw [List.append_nil] at behind
    exact (Continues.nil s).leaves own before behind apart
  | faulted => exact ends

/-- Code behind a fragment that does not run to its end, and exits under other labels. -/
theorem Realizes.append (first : Realizes step P exitCode code₁ exits₁ s post)
    (departs : ∀ s', ¬post (.ran s')) (code₂ : List (Item ι)) (exits₂ : List χ)
    (apart : ∀ exit ∈ exits₁, label exit ∉ binds code₂) :
    Realizes step P exitCode (code₁ ++ code₂) (exits₁ ++ exits₂) s post := by
  obtain ⟨ending, ends, holds⟩ := first
  refine ⟨ending, ?_, holds⟩
  cases ending with
  | ran s' => exact absurd holds (departs s')
  | left e s' => exact Leaves.append own ends exits₂ apart
  | faulted => exact Faults.append ends

/-- A label behind the code. -/
theorem Realizes.labeled (realizes : Realizes step P exitCode code exits s post) {l : Nat}
    (apart : ∀ exit ∈ exits, label exit ≠ l) :
    Realizes step P exitCode (code ++ [.label l]) exits s post := by
  obtain ⟨ending, ends, holds⟩ := realizes
  refine ⟨ending, ?_, holds⟩
  cases ending with
  | ran s' => exact Continues.append ends (.label l s')
  | left e s' =>
    have outside : ∀ exit ∈ exits, label exit ∉ binds ([.label l] : List (Item ι)) :=
      fun exit member bound => apart exit member (List.mem_singleton.mp bound)
    have behind := Leaves.append own ends [] outside
    rwa [List.append_nil] at behind
  | faulted => exact Faults.append ends

/-- Two fragments with labels of their own, one after the other. -/
theorem Realizes.seq {n n₁ n' : Nat} (fresh₁ : FreshLabels label n code₁ exits₁ n₁)
    (fresh₂ : FreshLabels label n₁ code₂ exits₂ n')
    (first : Realizes step P exitCode code₁ exits₁ s post₁)
    (goes : ∀ s₁, post₁ (.ran s₁) → Realizes step P exitCode code₂ exits₂ s₁ post)
    (leaves : ∀ e s₁, post₁ (.left e s₁) → post (.left e s₁))
    (faults : post₁ .faulted → post .faulted) :
    Realizes step P exitCode (code₁ ++ code₂) (exits₁ ++ exits₂) s post := by
  -- only the first piece's normal end reaches the second piece
  obtain ⟨ending, ends, holds⟩ := first
  cases ending with
  | ran s₁ =>
    have rest := (goes s₁ holds).widen own exits₁ [] fun exit member clash => by
      rw [List.append_nil] at member
      obtain ⟨exit', member', same⟩ := List.mem_map.mp clash
      -- an exit of each piece under one label would have to lie on both sides of `n₁`
      have earlier := fresh₁.exits exit' member'
      have later := fresh₂.exits exit member
      omega
    rw [List.append_nil] at rest
    exact rest.after own ends
  -- the first piece left, and the second one binds later labels only: it is skipped
  | left e s₁ =>
    refine ⟨.left e s₁, Leaves.append own ends exits₂ fun exit member bound => ?_, leaves e s₁ holds⟩
    have earlier := fresh₁.exits exit member
    have later := fresh₂.bound _ bound
    omega
  | faulted => exact ⟨.faulted, Faults.append ends, faults holds⟩

end Realizes

end LinearCode

open LinearCode

namespace Emitter

variable {κ ι τ η χ σ ε α β : Type}

/-- In state `c`, `x` emits a fragment under labels of its own and returns `a` in state
`c'`. From every start state with `pre` the fragment ends in a way `post` allows. -/
def Emits (step : κ → ι → τ → Effect τ η) (P : κ → ι → τ → Prop) (exitCode : χ → List (Item ι))
    (label : χ → Nat) (next : σ → Nat) (x : Emitter ι χ σ ε α) (c : σ) (a : α) (c' : σ)
    (pre : κ → τ → Prop) (post : κ → τ → Ending τ η → Prop) : Prop :=
  ∃ code exits, x.run c = .ok ⟨a, code, exits, c'⟩ ∧
    FreshLabels label (next c) code exits (next c') ∧
    ∀ env s, pre env s → Realizes (step env) (P env) exitCode code exits s (post env s)

namespace Emits

variable {step : κ → ι → τ → Effect τ η} {P : κ → ι → τ → Prop} {exitCode : χ → List (Item ι)}
  {label : χ → Nat} {next : σ → Nat} {x : Emitter ι χ σ ε α} {f : α → Emitter ι χ σ ε β}
  {c c₁ c' : σ} {a : α} {b : β} {pre pre₁ pre₂ : κ → τ → Prop}
  {post post₂ : κ → τ → Ending τ η → Prop}

/-- No code. -/
theorem pure (a : α) (c : σ) :
    Emits step P exitCode label next (Pure.pure a : Emitter ι χ σ ε α) c a c (fun _ _ => True)
      (fun _ s ending => ending = .ran s) :=
  ⟨[], [], rfl, .unlabeled (Nat.le_refl _) rfl (fun _ member => absurd member List.not_mem_nil),
    fun _ s _ => ⟨.ran s, .nil s, rfl⟩⟩

theorem conseq (emits : Emits step P exitCode label next x c a c' pre post)
    {pre' : κ → τ → Prop} {post' : κ → τ → Ending τ η → Prop}
    (stronger : ∀ env s, pre' env s → pre env s)
    (weaker : ∀ env s ending, pre' env s → post env s ending → post' env s ending) :
    Emits step P exitCode label next x c a c' pre' post' := by
  obtain ⟨code, exits, ran, fresh, realizes⟩ := emits
  exact ⟨code, exits, ran, fresh, fun env s holds =>
    (realizes env s (stronger env s holds)).mono fun ending => weaker env s ending holds⟩

/-- Straight-line code is run through. -/
theorem of_straight {post₁ : κ → τ → τ → Prop} (same : next c ≤ next c')
    (straight : Straight step P x c a c' pre post₁) :
    Emits step P exitCode label next x c a c' pre
      (fun env s ending => ∃ s', ending = .ran s' ∧ post₁ env s s') := by
  obtain ⟨code, ran, free, runs⟩ := straight
  refine ⟨code, [], ran, .unlabeled same free fun _ member => absurd member List.not_mem_nil,
    fun env s holds => ?_⟩
  obtain ⟨s', run, always, related⟩ := runs env s holds
  exact ⟨.ran s', ⟨run, always⟩, s', rfl, related⟩

/-- A part that emits nothing. -/
theorem silent (same : next c ≤ next c₁) (ran : x.run c = .ok ⟨a, [], [], c₁⟩)
    (rest : Emits step P exitCode label next (f a) c₁ b c' pre post) :
    Emits step P exitCode label next (x >>= f) c b c' pre post := by
  obtain ⟨code, exits, ran', fresh, realizes⟩ := rest
  refine ⟨code, exits, by rw [run_bind_of_ok ran, ran', prepend_ok]; rfl, ?_, realizes⟩
  have grows := fresh.grows
  refine ⟨by omega, fun l member => ?_, fun exit member => ?_⟩
  · have := fresh.bound l member
    omega
  · have := fresh.exits exit member
    omega

/-- A part behind the fragment that emits nothing. -/
theorem then_silent (emits : Emits step P exitCode label next x c a c₁ pre post)
    (same : next c₁ ≤ next c') (ran : (f a).run c₁ = .ok ⟨b, [], [], c'⟩) :
    Emits step P exitCode label next (x >>= f) c b c' pre post := by
  obtain ⟨code, exits, first, fresh, realizes⟩ := emits
  refine ⟨code, exits, ?_, ?_, realizes⟩
  · rw [run_bind_of_ok first, ran, prepend_ok, List.append_nil, List.append_nil]
  · have grows := fresh.grows
    refine ⟨by omega, fun l member => ?_, fun exit member => ?_⟩
    · have := fresh.bound l member
      omega
    · have := fresh.exits exit member
      omega

/-- A generator that returns after the fragment. -/
theorem returns (emits : Emits step P exitCode label next x c a c' pre post) (g : α → β) :
    Emits step P exitCode label next (do let a ← x; Pure.pure (g a)) c (g a) c' pre post :=
  emits.then_silent (Nat.le_refl _) (run_pure (g a) c')

variable (own : BindsOwn exitCode label)
include own

/-- Straight-line code in front. -/
theorem after_straight {post₁ : κ → τ → τ → Prop} (same : next c ≤ next c₁)
    (first : Straight step P x c a c₁ pre₁ post₁)
    (second : Emits step P exitCode label next (f a) c₁ b c' pre₂ post₂)
    (enter : ∀ env s, pre env s → pre₁ env s)
    (link : ∀ env s s₁, pre env s → post₁ env s s₁ →
      pre₂ env s₁ ∧ ∀ ending, post₂ env s₁ ending → post env s ending) :
    Emits step P exitCode label next (x >>= f) c b c' pre post := by
  obtain ⟨code₁, ran₁, free₁, runs₁⟩ := first
  obtain ⟨code₂, exits, ran₂, fresh, realizes₂⟩ := second
  have straight : FreshLabels label (next c) code₁ ([] : List χ) (next c₁) :=
    .unlabeled same free₁ fun _ member => absurd member List.not_mem_nil
  refine ⟨code₁ ++ code₂, [] ++ exits, ?_, straight.append fresh, fun env s holds => ?_⟩
  · rw [run_bind_of_ok ran₁, ran₂, prepend_ok]
  · obtain ⟨s₁, run, always, related⟩ := runs₁ env s (enter env s holds)
    obtain ⟨holds₁, same⟩ := link env s s₁ holds related
    exact ((realizes₂ env s₁ holds₁).mono same).after own ⟨run, always⟩

/-- A check in front, with the exit for the states it rejects. -/
theorem after_check {post₁ : κ → τ → τ → Prop} {cond : κ → τ → Prop} {exit : χ}
    (check : Guards step P x c a c₁ [exit] (label exit) pre₁ cond post₁)
    (fresh₁ : next c ≤ label exit ∧ label exit < next c₁)
    (second : Emits step P exitCode label next (f a) c₁ b c' pre₂ post₂)
    (enter : ∀ env s, pre env s → pre₁ env s)
    (accepted : ∀ env s s₁, pre env s → post₁ env s s₁ → cond env s →
      pre₂ env s₁ ∧ ∀ ending, post₂ env s₁ ending → post env s ending)
    (rejected : ∀ env s s₁ code, pre env s → post₁ env s s₁ → ¬cond env s →
      Seeks (step env) (P env) code (label exit) s s₁ →
      ∃ e s₂, Leaves (step env) (P env) exitCode code [exit] s e s₂ ∧ post env s (.left e s₂)) :
    Emits step P exitCode label next (x >>= f) c b c' pre post := by
  obtain ⟨code₁, ran₁, free₁, runs₁⟩ := check
  obtain ⟨code₂, exits, ran₂, fresh, realizes₂⟩ := second
  have first : FreshLabels label (next c) code₁ [exit] (next c₁) :=
    .unlabeled (by omega) free₁ fun e member => by rw [List.mem_singleton.mp member]; exact fresh₁
  refine ⟨code₁ ++ code₂, [exit] ++ exits, ?_, first.append fresh, fun env s holds => ?_⟩
  · rw [run_bind_of_ok ran₁, ran₂, prepend_ok]
  · obtain ⟨s₁, related, always, branch⟩ := runs₁ env s (enter env s holds)
    -- the check passed and the rest runs, or it jumped and only the exit does
    rcases branch with ⟨goes, run⟩ | ⟨stops, run⟩
    · obtain ⟨holds₁, same⟩ := accepted env s s₁ holds related goes
      have through : Realizes (step env) (P env) exitCode code₁ [exit] s (fun ending => ending = .ran s₁) :=
        ⟨.ran s₁, ⟨run, always⟩, rfl⟩
      refine through.seq own first fresh ?_ (fun _ _ h => by cases h) (fun h => by cases h)
      intro s' here
      cases here
      exact (realizes₂ env s₁ holds₁).mono same
    · obtain ⟨e, s₂, leaves, ends⟩ := rejected env s s₁ code₁ holds related stops ⟨run, always⟩
      have departs : Realizes (step env) (P env) exitCode code₁ [exit] s
          (fun ending => ending = .left e s₂) := ⟨.left e s₂, leaves, rfl⟩
      refine (departs.append own (fun _ h => by cases h) code₂ exits ?_).mono ?_
      · intro e member bound
        -- the rest binds no label as early as the check's
        have later := fresh.bound _ bound
        rw [List.mem_singleton.mp member] at later
        omega
      · rintro ending rfl
        exact ends

/-- Two fragments one after the other; the second starts where the first is run through. -/
theorem seq {post₁ : κ → τ → Ending τ η → Prop}
    (first : Emits step P exitCode label next x c a c₁ pre₁ post₁)
    (second : Emits step P exitCode label next (f a) c₁ b c' pre₂ post₂)
    (enter : ∀ env s, pre env s → pre₁ env s)
    (goes : ∀ env s s₁, pre env s → post₁ env s (.ran s₁) →
      pre₂ env s₁ ∧ ∀ ending, post₂ env s₁ ending → post env s ending)
    (leaves : ∀ env s e s₁, pre env s → post₁ env s (.left e s₁) → post env s (.left e s₁))
    (faults : ∀ env s, pre env s → post₁ env s .faulted → post env s .faulted) :
    Emits step P exitCode label next (x >>= f) c b c' pre post := by
  obtain ⟨code₁, exits₁, ran₁, fresh₁, realizes₁⟩ := first
  obtain ⟨code₂, exits₂, ran₂, fresh₂, realizes₂⟩ := second
  refine ⟨code₁ ++ code₂, exits₁ ++ exits₂, ?_, fresh₁.append fresh₂, fun env s holds => ?_⟩
  · rw [run_bind_of_ok ran₁, ran₂, prepend_ok]
  -- the rest starts where the first piece ran to
  · refine (realizes₁ env s (enter env s holds)).seq own fresh₁ fresh₂ (fun s₁ here => ?_)
      (fun e s₁ here => leaves env s e s₁ holds here) (faults env s holds)
    obtain ⟨holds₁, same⟩ := goes env s s₁ holds here
    exact (realizes₂ env s₁ holds₁).mono same

end Emits

end Emitter
