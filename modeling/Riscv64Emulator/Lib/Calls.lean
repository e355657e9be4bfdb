import Riscv64Emulator.Lib.Emitter

/-!
# The calls a generator makes

A generator works on a component of its state through the calls of an interface and
leaves it alone in between. A run is split into these calls, each recorded with the
component before and after it, so that what holds after every call can be stated. The
rules compose: what is good about the calls of a generator comes from its parts.
-/

namespace Emitter

/-- A call, and the component it found and left. -/
structure Call (κ ρ : Type) where
  op : κ
  before : ρ
  after : ρ

/-- Every call finds what the one before it left. -/
def Linked {κ ρ : Type} : ρ → List (Call κ ρ) → ρ → Prop
  | start, [], stop => start = stop
  | start, call :: rest, stop => call.before = start ∧ Linked call.after rest stop

theorem Linked.append {κ ρ : Type} {start middle stop : ρ} {calls calls' : List (Call κ ρ)}
    (first : Linked start calls middle) (second : Linked middle calls' stop) :
    Linked start (calls ++ calls') stop := by
  induction calls generalizing start with
  | nil => exact first ▸ second
  | cons call rest ih => exact ⟨first.1, ih first.2⟩

variable {ι χ σ ε κ ρ : Type}

/-- The run of `x` from `c` to `o` makes `calls`. `calling α x a op` says that `x` is the call
`op` answered by `a`; what is no call leaves the component alone, whatever the state. -/
inductive Makes (view : σ → ρ) (calling : (α : Type) → Emitter ι χ σ ε α → α → κ → Prop) :
    {α : Type} → Emitter ι χ σ ε α → σ → List (Call κ ρ) → Emitted ι χ σ α → Prop
  | silent {α : Type} {x : Emitter ι χ σ ε α} {c : σ} {o : Emitted ι χ σ α}
      (quiet : ∀ c o, x.run c = .ok o → view o.state = view c) (ran : x.run c = .ok o) :
      Makes view calling x c [] o
  | call {α : Type} {x : Emitter ι χ σ ε α} {c : σ} {o : Emitted ι χ σ α} {op : κ}
      (called : calling α x o.value op) (ran : x.run c = .ok o) :
      Makes view calling x c [⟨op, view c, view o.state⟩] o
  | bind {α β : Type} {x : Emitter ι χ σ ε α} {f : α → Emitter ι χ σ ε β} {c : σ}
      {calls₁ calls₂ : List (Call κ ρ)} {o₁ : Emitted ι χ σ α} {o₂ : Emitted ι χ σ β}
      (first : Makes view calling x c calls₁ o₁)
      (second : Makes view calling (f o₁.value) o₁.state calls₂ o₂) :
      Makes view calling (x >>= f) c (calls₁ ++ calls₂)
        ⟨o₂.value, o₁.code ++ o₂.code, o₁.exits ++ o₂.exits, o₂.state⟩

section Rules

variable {view : σ → ρ} {calling : (α : Type) → Emitter ι χ σ ε α → α → κ → Prop} {α β : Type}

theorem Makes.linked {x : Emitter ι χ σ ε α} {c : σ} {calls : List (Call κ ρ)}
    {o : Emitted ι χ σ α} (makes : Makes view calling x c calls o) :
    Linked (view c) calls (view o.state) := by
  induction makes with
  | silent quiet ran => exact (quiet _ _ ran).symm
  | call called ran => exact ⟨rfl, rfl⟩
  | bind first second ih₁ ih₂ => exact ih₁.append ih₂

/-- Every successful run of `x` from a component with `pre` makes good calls only and ends
with `post`. -/
def Manages (view : σ → ρ) (calling : (α : Type) → Emitter ι χ σ ε α → α → κ → Prop)
    (good : Call κ ρ → Prop) (pre : ρ → Prop) (x : Emitter ι χ σ ε α) (post : α → ρ → Prop) : Prop :=
  ∀ c o, pre (view c) → x.run c = .ok o →
    ∃ calls, Makes view calling x c calls o ∧ (∀ call ∈ calls, good call) ∧ post o.value (view o.state)

namespace Manages

variable {good : Call κ ρ → Prop} {pre : ρ → Prop} {x : Emitter ι χ σ ε α}
  {f : α → Emitter ι χ σ ε β} {post : α → ρ → Prop} {post' : β → ρ → Prop}

/-- A generator that makes no calls. -/
theorem silent (quiet : ∀ c o, x.run c = .ok o → view o.state = view c)
    (answers : ∀ c o, pre (view c) → x.run c = .ok o → post o.value (view c)) :
    Manages view calling good pre x post := by
  intro c o holds ran
  refine ⟨[], .silent quiet ran, fun _ member => absurd member List.not_mem_nil, ?_⟩
  rw [quiet c o ran]
  exact answers c o holds ran

theorem pure {a : α} (holds : ∀ r, pre r → post a r) :
    Manages view calling good pre (Pure.pure a : Emitter ι χ σ ε α) post :=
  .silent (fun _ _ ran => by cases ran; rfl) fun _ _ before ran => by
    cases ran
    exact holds _ before

/-- One call. -/
theorem call {op : α → κ} (called : ∀ a, calling α x a (op a))
    (leaves : ∀ c o, pre (view c) → x.run c = .ok o →
      good ⟨op o.value, view c, view o.state⟩ ∧ post o.value (view o.state)) :
    Manages view calling good pre x post := by
  intro c o holds ran
  obtain ⟨fine, after⟩ := leaves c o holds ran
  refine ⟨_, .call (called o.value) ran, fun call member => ?_, after⟩
  rw [List.mem_singleton.mp member]
  exact fine

theorem bind (first : Manages view calling good pre x post)
    (second : ∀ a, Manages view calling good (post a) (f a) post') :
    Manages view calling good pre (x >>= f) post' := by
  intro c o holds ran
  obtain ⟨o₁, o₂, ran₁, ran₂, rfl⟩ := run_bind_ok_iff.mp ran
  obtain ⟨calls₁, makes₁, good₁, after₁⟩ := first c o₁ holds ran₁
  obtain ⟨calls₂, makes₂, good₂, after₂⟩ := second o₁.value o₁.state o₂ after₁ ran₂
  refine ⟨calls₁ ++ calls₂, .bind makes₁ makes₂, fun call member => ?_, after₂⟩
  exact (List.mem_append.mp member).elim (good₁ call) (good₂ call)

theorem ite {p : Prop} [Decidable p] {y : Emitter ι χ σ ε α}
    (yes : p → Manages view calling good pre x post) (no : ¬p → Manages view calling good pre y post) :
    Manages view calling good pre (if p then x else y) post := by
  split
  next holds => exact yes holds
  next fails => exact no fails

/-- What is known about the answers before. -/
theorem assume {q : Prop} (manages : q → Manages view calling good pre x post) :
    Manages view calling good (fun r => q ∧ pre r) x post :=
  fun c o holds ran => manages holds.1 c o holds.2 ran

/-- From each component on its own. -/
theorem pointwise (manages : ∀ r, pre r → Manages view calling good (· = r) x post) :
    Manages view calling good pre x post := fun c o holds ran => manages _ holds c o rfl ran

/-- A generator that fails makes no successful run. -/
theorem fail {e : ε} : Manages view calling good pre (Emitter.fail e : Emitter ι χ σ ε α) post :=
  fun _ _ _ ran => by cases ran

theorem conseq {pre' : ρ → Prop} {weaker : α → ρ → Prop} (manages : Manages view calling good pre x post)
    (before : ∀ r, pre' r → pre r) (after : ∀ a r, post a r → weaker a r) :
    Manages view calling good pre' x weaker := by
  intro c o holds ran
  obtain ⟨calls, makes, fine, ends⟩ := manages c o (before _ holds) ran
  exact ⟨calls, makes, fine, after _ _ ends⟩

end Manages

end Rules

end Emitter
