import Riscv64Emulator.Lib.LinearCode

/-!
# Emitting code

The monad of a one-pass code generator: it threads a state, appends items to the code,
defers exits that are emitted once the rest of the code is complete, and may give up
with an error. The output of a composed generator is the concatenation of the outputs
of its parts, so a run is described part by part (`run_bind_of_ok`).
-/

open LinearCode

/-- What a successful run of a generator leaves behind. -/
structure Emitted (ι χ σ α : Type) where
  value : α
  code : List (Item ι)
  exits : List χ
  state : σ

/-- A code generator over instructions `ι`, deferred exits `χ` and states `σ`. -/
structure Emitter (ι χ σ ε α : Type) where
  run : σ → Except ε (Emitted ι χ σ α)

namespace Emitter

variable {ι χ σ ε α β : Type}

/-- Put output in front of what a later part emits. -/
def prepend (code : List (Item ι)) (exits : List χ) :
    Except ε (Emitted ι χ σ α) → Except ε (Emitted ι χ σ α)
  | .error e => .error e
  | .ok o => .ok ⟨o.value, code ++ o.code, exits ++ o.exits, o.state⟩

@[simp] theorem prepend_ok (code : List (Item ι)) (exits : List χ) (o : Emitted ι χ σ α) :
    prepend (ε := ε) code exits (.ok o) = .ok ⟨o.value, code ++ o.code, exits ++ o.exits, o.state⟩ :=
  rfl

@[simp] theorem prepend_error (code : List (Item ι)) (exits : List χ) (e : ε) :
    prepend (σ := σ) (α := α) code exits (.error e) = .error e := rfl

instance : Monad (Emitter ι χ σ ε) where
  pure a := ⟨fun c => .ok ⟨a, [], [], c⟩⟩
  bind x f := ⟨fun c =>
    match x.run c with
    | .error e => .error e
    | .ok o => prepend o.code o.exits ((f o.value).run o.state)⟩

/-- Append items to the code. -/
def emit (items : List (Item ι)) : Emitter ι χ σ ε Unit := ⟨fun c => .ok ⟨(), items, [], c⟩⟩

/-- Leave an exit for the end of the code. -/
def defer (exit : χ) : Emitter ι χ σ ε Unit := ⟨fun c => .ok ⟨(), [], [exit], c⟩⟩

/-- Replace the state and return a result computed from the old one. -/
def modifyGet (f : σ → α × σ) : Emitter ι χ σ ε α :=
  ⟨fun c => .ok ⟨(f c).1, [], [], (f c).2⟩⟩

def fail (e : ε) : Emitter ι χ σ ε α := ⟨fun _ => .error e⟩

@[simp] theorem run_pure (a : α) (c : σ) :
    (pure a : Emitter ι χ σ ε α).run c = .ok ⟨a, [], [], c⟩ := rfl

@[simp] theorem run_emit (items : List (Item ι)) (c : σ) :
    (emit items : Emitter ι χ σ ε Unit).run c = .ok ⟨(), items, [], c⟩ := rfl

@[simp] theorem run_defer (exit : χ) (c : σ) :
    (defer exit : Emitter ι χ σ ε Unit).run c = .ok ⟨(), [], [exit], c⟩ := rfl

@[simp] theorem run_modifyGet (f : σ → α × σ) (c : σ) :
    (modifyGet f : Emitter ι χ σ ε α).run c = .ok ⟨(f c).1, [], [], (f c).2⟩ := rfl

@[simp] theorem run_fail (e : ε) (c : σ) :
    (fail e : Emitter ι χ σ ε α).run c = .error e := rfl

@[simp] theorem run_ite (p : Prop) [Decidable p] (x y : Emitter ι χ σ ε α) (c : σ) :
    (if p then x else y).run c = if p then x.run c else y.run c := by
  split <;> rfl

theorem run_bind (x : Emitter ι χ σ ε α) (f : α → Emitter ι χ σ ε β) (c : σ) :
    (x >>= f).run c =
      match x.run c with
      | .error e => .error e
      | .ok o => prepend o.code o.exits ((f o.value).run o.state) := rfl

/-- A part whose output is known goes in front of the rest. -/
theorem run_bind_of_ok {x : Emitter ι χ σ ε α} {c : σ} {o : Emitted ι χ σ α}
    (ran : x.run c = .ok o) (f : α → Emitter ι χ σ ε β) :
    (x >>= f).run c = prepend o.code o.exits ((f o.value).run o.state) := by
  rw [run_bind, ran]

theorem run_bind_of_error {x : Emitter ι χ σ ε α} {c : σ} {e : ε}
    (failed : x.run c = .error e) (f : α → Emitter ι χ σ ε β) :
    (x >>= f).run c = .error e := by
  rw [run_bind, failed]

/-- What is returned at once is passed on. -/
theorem pure_bind (a : α) (f : α → Emitter ι χ σ ε β) : (pure a >>= f) = f a := by
  have runs : ∀ c, (pure a >>= f).run c = (f a).run c := by
    intro c
    rw [run_bind_of_ok (run_pure a c)]
    cases (f a).run c <;> rfl
  exact congrArg Emitter.mk (funext runs)

/-- A composed run succeeds exactly when its parts do, and its output is theirs. -/
theorem run_bind_ok_iff {x : Emitter ι χ σ ε α} {f : α → Emitter ι χ σ ε β} {c : σ}
    {o : Emitted ι χ σ β} :
    (x >>= f).run c = .ok o ↔
      ∃ o₁ o₂, x.run c = .ok o₁ ∧ (f o₁.value).run o₁.state = .ok o₂ ∧
        o = ⟨o₂.value, o₁.code ++ o₂.code, o₁.exits ++ o₂.exits, o₂.state⟩ := by
  constructor
  · intro ran
    -- an error of either part would be the error of the whole
    cases first : x.run c with
    | error e => rw [run_bind_of_error first] at ran; cases ran
    | ok o₁ =>
      rw [run_bind_of_ok first] at ran
      cases second : (f o₁.value).run o₁.state with
      | error e => rw [second] at ran; cases ran
      | ok o₂ =>
        rw [second, prepend_ok] at ran
        exact ⟨o₁, o₂, rfl, second, (Except.ok.inj ran).symm⟩
  · rintro ⟨o₁, o₂, first, second, rfl⟩
    rw [run_bind_of_ok first, second, prepend_ok]

/-- Parts that succeed whatever comes before them succeed one after the other. -/
theorem exists_run_bind {x : Emitter ι χ σ ε α} {f : α → Emitter ι χ σ ε β} {c : σ}
    (first : ∃ o, x.run c = .ok o) (second : ∀ a c', ∃ o, (f a).run c' = .ok o) :
    ∃ o, (x >>= f).run c = .ok o := by
  obtain ⟨o₁, ran₁⟩ := first
  obtain ⟨o₂, ran₂⟩ := second o₁.value o₁.state
  exact ⟨_, run_bind_ok_iff.mpr ⟨o₁, o₂, ran₁, ran₂, rfl⟩⟩

/-! ### Failures -/

/-- Whatever the state, `x` gives up only with an error that `P` accepts. -/
def FailsOnly (P : ε → Prop) (x : Emitter ι χ σ ε α) : Prop := ∀ c e, x.run c = .error e → P e

namespace FailsOnly

variable {P : ε → Prop}

theorem pure (a : α) : (Pure.pure a : Emitter ι χ σ ε α).FailsOnly P := fun _ _ ran => by cases ran

theorem emit (items : List (Item ι)) : (Emitter.emit items : Emitter ι χ σ ε Unit).FailsOnly P :=
  fun _ _ ran => by cases ran

theorem defer (exit : χ) : (Emitter.defer exit : Emitter ι χ σ ε Unit).FailsOnly P :=
  fun _ _ ran => by cases ran

theorem modifyGet (f : σ → α × σ) : (Emitter.modifyGet f : Emitter ι χ σ ε α).FailsOnly P :=
  fun _ _ ran => by cases ran

theorem fail {e : ε} (accepted : P e) : (Emitter.fail e : Emitter ι χ σ ε α).FailsOnly P :=
  fun _ _ ran => Except.error.inj ran ▸ accepted

theorem ite {p : Prop} [Decidable p] {x y : Emitter ι χ σ ε α} (yes : p → x.FailsOnly P)
    (no : ¬p → y.FailsOnly P) : (if p then x else y).FailsOnly P := by
  split
  next holds => exact yes holds
  next fails => exact no fails

end FailsOnly

/-- Every run of `x` that succeeds returns a value with `Q`. -/
def Yields (x : Emitter ι χ σ ε α) (Q : α → Prop) : Prop := ∀ c o, x.run c = .ok o → Q o.value

theorem Yields.pure {Q : α → Prop} {a : α} (holds : Q a) : (Pure.pure a : Emitter ι χ σ ε α).Yields Q :=
  fun _ _ ran => by
    cases ran
    exact holds

/-- A composed generator returns what its last part does. -/
theorem Yields.bind {x : Emitter ι χ σ ε α} {f : α → Emitter ι χ σ ε β} {Q : β → Prop} {R : α → Prop}
    (first : x.Yields R) (second : ∀ a, R a → (f a).Yields Q) : (x >>= f).Yields Q := by
  intro c o ran
  obtain ⟨o₁, o₂, ran₁, ran₂, rfl⟩ := run_bind_ok_iff.mp ran
  exact second _ (first c o₁ ran₁) _ o₂ ran₂

theorem Yields.trivial (x : Emitter ι χ σ ε α) : x.Yields fun _ => True := fun _ _ _ => True.intro

/-- The rest is only asked about the values that the first part returns. -/
theorem FailsOnly.bind_yields {P : ε → Prop} {Q : α → Prop} {x : Emitter ι χ σ ε α}
    {f : α → Emitter ι χ σ ε β} (first : x.FailsOnly P) (yields : x.Yields Q)
    (second : ∀ a, Q a → (f a).FailsOnly P) : (x >>= f).FailsOnly P := by
  intro c e ran
  cases part : x.run c with
  | error e' =>
    rw [run_bind_of_error part] at ran
    exact Except.error.inj ran ▸ first c e' part
  | ok o =>
    rw [run_bind_of_ok part] at ran
    cases rest : (f o.value).run o.state with
    | error e' =>
      rw [rest, prepend_error] at ran
      exact Except.error.inj ran ▸ second _ (yields c o part) _ _ rest
    | ok o' =>
      rw [rest, prepend_ok] at ran
      cases ran

/-- A composed generator gives up where one of its parts does. -/
theorem FailsOnly.bind {P : ε → Prop} {x : Emitter ι χ σ ε α} {f : α → Emitter ι χ σ ε β}
    (first : x.FailsOnly P) (second : ∀ a, (f a).FailsOnly P) : (x >>= f).FailsOnly P :=
  first.bind_yields (.trivial x) fun a _ => second a

/-! ### Emitted instructions -/

/-- Whatever the state, `x` emits only instructions that `P` accepts. -/
def EmitsOnly (P : ι → Prop) (x : Emitter ι χ σ ε α) : Prop :=
  ∀ c o, x.run c = .ok o → ∀ i, .instr i ∈ o.code → P i

namespace EmitsOnly

variable {P : ι → Prop}

theorem silent {x : Emitter ι χ σ ε α} (quiet : ∀ c o, x.run c = .ok o → o.code = []) : x.EmitsOnly P :=
  fun c o ran i member => by
    rw [quiet c o ran] at member
    exact absurd member List.not_mem_nil

theorem pure (a : α) : (Pure.pure a : Emitter ι χ σ ε α).EmitsOnly P :=
  .silent fun _ _ ran => by cases ran; rfl

theorem defer (exit : χ) : (Emitter.defer exit : Emitter ι χ σ ε Unit).EmitsOnly P :=
  .silent fun _ _ ran => by cases ran; rfl

theorem modifyGet (f : σ → α × σ) : (Emitter.modifyGet f : Emitter ι χ σ ε α).EmitsOnly P :=
  .silent fun _ _ ran => by cases ran; rfl

theorem fail {e : ε} : (Emitter.fail e : Emitter ι χ σ ε α).EmitsOnly P := fun _ _ ran => by cases ran

theorem instr {i : ι} (accepted : P i) : (Emitter.emit [.instr i] : Emitter ι χ σ ε Unit).EmitsOnly P :=
  fun _ _ ran j member => by
    cases ran
    cases List.mem_singleton.mp member
    exact accepted

theorem label (l : Nat) : (Emitter.emit [.label l] : Emitter ι χ σ ε Unit).EmitsOnly P :=
  fun _ _ ran j member => by
    cases ran
    cases List.mem_singleton.mp member

theorem ite {p : Prop} [Decidable p] {x y : Emitter ι χ σ ε α} (yes : p → x.EmitsOnly P)
    (no : ¬p → y.EmitsOnly P) : (if p then x else y).EmitsOnly P := by
  split
  next holds => exact yes holds
  next fails => exact no fails

/-- The rest is only asked about the values that the first part returns. -/
theorem bind_yields {Q : α → Prop} {x : Emitter ι χ σ ε α} {f : α → Emitter ι χ σ ε β}
    (first : x.EmitsOnly P) (yields : x.Yields Q) (second : ∀ a, Q a → (f a).EmitsOnly P) :
    (x >>= f).EmitsOnly P := by
  intro c o ran i member
  obtain ⟨o₁, o₂, ran₁, ran₂, rfl⟩ := run_bind_ok_iff.mp ran
  rcases List.mem_append.mp member with here | there
  · exact first c o₁ ran₁ i here
  · exact second _ (yields c o₁ ran₁) _ o₂ ran₂ i there

theorem bind {x : Emitter ι χ σ ε α} {f : α → Emitter ι χ σ ε β} (first : x.EmitsOnly P)
    (second : ∀ a, (f a).EmitsOnly P) : (x >>= f).EmitsOnly P :=
  first.bind_yields (.trivial x) fun a _ => second a

end EmitsOnly

/-! ### Results -/

/-- Every run of `x` that succeeds returns `a`. -/
def Returns (x : Emitter ι χ σ ε α) (a : α) : Prop := ∀ c o, x.run c = .ok o → o.value = a

namespace Returns

variable {x y : Emitter ι χ σ ε α} {f f' : α → Emitter ι χ σ ε β} {a : α} {b : β}

theorem pure (a : α) : (Pure.pure a : Emitter ι χ σ ε α).Returns a := fun _ _ ran => by
  cases ran
  rfl

theorem fail {e : ε} : (Emitter.fail e : Emitter ι χ σ ε α).Returns a := fun _ _ ran => by cases ran

/-- A composed generator returns what its last part does. -/
theorem bind (second : ∀ a, (f a).Returns b) : (x >>= f).Returns b := by
  intro c o ran
  obtain ⟨o₁, o₂, -, ran₂, rfl⟩ := run_bind_ok_iff.mp ran
  exact second _ _ o₂ ran₂

theorem ite {p : Prop} [Decidable p] (yes : p → x.Returns a) (no : ¬p → y.Returns a) :
    (if p then x else y).Returns a := by
  split
  next holds => exact yes holds
  next fails => exact no fails

/-- Only what follows on the known result matters. -/
theorem run_bind (returns : x.Returns a) (same : ∀ c, (f a).run c = (f' a).run c) (c : σ) :
    (x >>= f).run c = (x >>= f').run c := by
  cases ran : x.run c with
  | error e => rw [run_bind_of_error ran, run_bind_of_error ran]
  | ok o => rw [run_bind_of_ok ran, run_bind_of_ok ran, returns c o ran, same]

end Returns

/-! ### Straight-line code

A generator for straight-line code is described by what it leaves behind and by the
states its code leads to. `κ` is what the machine reads and never changes. -/

section Straight

variable {κ τ η : Type} (step : κ → ι → τ → Effect τ η) (P : κ → ι → τ → Prop)

/-- In state `c`, `x` emits code without labels or exits and returns `a` in state `c'`.
From every start state with `pre` the code runs to its end, executes only instructions `P`
accepts and ends in a state related by `post`. -/
def Straight (x : Emitter ι χ σ ε α) (c : σ) (a : α) (c' : σ) (pre : κ → τ → Prop)
    (post : κ → τ → τ → Prop) : Prop :=
  ∃ code, x.run c = .ok ⟨a, code, [], c'⟩ ∧ binds code = [] ∧
    ∀ env s, pre env s → ∃ s', exec (step env) code (.running s) = .running s' ∧
      Always (step env) (P env) code (.running s) ∧ post env s s'

/-- `x` emits a check: code without labels that runs to its end when `cond` holds of the
start state and jumps to `l` otherwise. It leaves `exits` for later. -/
def Guards (x : Emitter ι χ σ ε α) (c : σ) (a : α) (c' : σ) (exits : List χ) (l : Nat)
    (pre cond : κ → τ → Prop) (post : κ → τ → τ → Prop) : Prop :=
  ∃ code, x.run c = .ok ⟨a, code, exits, c'⟩ ∧ binds code = [] ∧
    ∀ env s, pre env s → ∃ s', post env s s' ∧ Always (step env) (P env) code (.running s) ∧
      (cond env s ∧ exec (step env) code (.running s) = .running s' ∨
        ¬cond env s ∧ exec (step env) code (.running s) = .seeking l s')

variable {step P}

theorem Straight.pure (a : α) (c : σ) :
    Straight step P (Pure.pure a : Emitter ι χ σ ε α) c a c (fun _ _ => True)
      (fun _ s s' => s' = s) :=
  ⟨[], rfl, rfl, fun _ s _ => ⟨s, rfl, trivial, rfl⟩⟩

/-- One instruction. -/
theorem Straight.instr {x : Emitter ι χ σ ε α} {c c' : σ} {a : α} {i : ι} {pre : κ → τ → Prop}
    {post : κ → τ → τ → Prop} (ran : x.run c = .ok ⟨a, [.instr i], [], c'⟩)
    (steps : ∀ env s, pre env s → P env i s ∧ ∃ s', step env i s = .next s' ∧ post env s s') :
    Straight step P x c a c' pre post := by
  refine ⟨_, ran, rfl, fun env s holds => ?_⟩
  obtain ⟨accepted, s', next, related⟩ := steps env s holds
  exact ⟨s', by simp [next], by simpa using accepted, related⟩

/-- Code one part after the other: where the first part ends the second may start, and
wherever the second ends is related to the start. -/
theorem Straight.seq {x : Emitter ι χ σ ε α} {f : α → Emitter ι χ σ ε β} {c c₁ c₂ : σ} {a : α}
    {b : β} {pre pre₁ pre₂ : κ → τ → Prop} {post post₁ post₂ : κ → τ → τ → Prop}
    (first : Straight step P x c a c₁ pre₁ post₁)
    (second : Straight step P (f a) c₁ b c₂ pre₂ post₂)
    (enter : ∀ env s, pre env s → pre₁ env s)
    (link : ∀ env s s₁, pre env s → post₁ env s s₁ →
      pre₂ env s₁ ∧ ∀ s₂, post₂ env s₁ s₂ → post env s s₂) :
    Straight step P (x >>= f) c b c₂ pre post := by
  obtain ⟨code₁, ran₁, free₁, runs₁⟩ := first
  obtain ⟨code₂, ran₂, free₂, runs₂⟩ := second
  refine ⟨code₁ ++ code₂, ?_, by rw [binds_append, free₁, free₂, List.append_nil], ?_⟩
  · rw [run_bind_of_ok ran₁, ran₂, prepend_ok, List.append_nil]
  · intro env s holds
    -- the second code starts in the state the first one ends in
    obtain ⟨s₁, exec₁, accepted₁, related₁⟩ := runs₁ env s (enter env s holds)
    obtain ⟨holds₁, carry⟩ := link env s s₁ holds related₁
    obtain ⟨s₂, exec₂, accepted₂, related₂⟩ := runs₂ env s₁ holds₁
    refine ⟨s₂, by rw [exec_append, exec₁, exec₂], ?_, carry s₂ related₂⟩
    rw [always_append, exec₁]
    exact ⟨accepted₁, accepted₂⟩

/-- A part that emits nothing. -/
theorem Straight.silent {x : Emitter ι χ σ ε α} {f : α → Emitter ι χ σ ε β} {c c₁ c₂ : σ} {a : α}
    {b : β} {pre : κ → τ → Prop} {post : κ → τ → τ → Prop}
    (ran : x.run c = .ok ⟨a, [], [], c₁⟩) (rest : Straight step P (f a) c₁ b c₂ pre post) :
    Straight step P (x >>= f) c b c₂ pre post := by
  obtain ⟨code, ran', free, runs⟩ := rest
  exact ⟨code, by rw [run_bind_of_ok ran, ran', prepend_ok]; rfl, free, runs⟩

theorem Straight.conseq {x : Emitter ι χ σ ε α} {c c' : σ} {a : α} {pre pre' : κ → τ → Prop}
    {post post' : κ → τ → τ → Prop} (straight : Straight step P x c a c' pre post)
    (stronger : ∀ env s, pre' env s → pre env s)
    (weaker : ∀ env s s', pre' env s → post env s s' → post' env s s') :
    Straight step P x c a c' pre' post' := by
  obtain ⟨code, ran, free, runs⟩ := straight
  refine ⟨code, ran, free, fun env s holds => ?_⟩
  obtain ⟨s', run, accepted, related⟩ := runs env s (stronger env s holds)
  exact ⟨s', run, accepted, weaker env s s' holds related⟩

/-- An exit that is left for later is no code. -/
theorem Guards.defer (exit : χ) (c : σ) (l : Nat) :
    Guards step P (Emitter.defer exit : Emitter ι χ σ ε Unit) c () c [exit] l (fun _ _ => True)
      (fun _ _ => True) (fun _ s s' => s' = s) :=
  ⟨[], rfl, rfl, fun _ s _ => ⟨s, rfl, trivial, Or.inl ⟨trivial, rfl⟩⟩⟩

/-- A part that emits nothing. -/
theorem Guards.silent {x : Emitter ι χ σ ε α} {f : α → Emitter ι χ σ ε β} {c c₁ c₂ : σ} {a : α}
    {b : β} {exits : List χ} {l : Nat} {pre cond : κ → τ → Prop} {post : κ → τ → τ → Prop}
    (ran : x.run c = .ok ⟨a, [], [], c₁⟩)
    (rest : Guards step P (f a) c₁ b c₂ exits l pre cond post) :
    Guards step P (x >>= f) c b c₂ exits l pre cond post := by
  obtain ⟨code, ran', free, runs⟩ := rest
  exact ⟨code, by rw [run_bind_of_ok ran, ran', prepend_ok]; rfl, free, runs⟩

/-- Checks one after the other check the conjunction. -/
theorem Guards.seq {x : Emitter ι χ σ ε α} {f : α → Emitter ι χ σ ε β} {c c₁ c₂ : σ} {a : α}
    {b : β} {exits₁ exits₂ : List χ} {l : Nat} {pre pre₁ pre₂ cond₁ cond₂ cond₃ : κ → τ → Prop}
    {post post₁ post₂ : κ → τ → τ → Prop}
    (first : Guards step P x c a c₁ exits₁ l pre₁ cond₁ post₁)
    (second : Guards step P (f a) c₁ b c₂ exits₂ l pre₂ cond₂ post₂)
    (enter : ∀ env s, pre env s → pre₁ env s)
    (link : ∀ env s s₁, pre env s → post₁ env s s₁ → post env s s₁ ∧ (cond₁ env s →
      pre₂ env s₁ ∧ (cond₂ env s₁ ↔ cond₃ env s) ∧ ∀ s₂, post₂ env s₁ s₂ → post env s s₂)) :
    Guards step P (x >>= f) c b c₂ (exits₁ ++ exits₂) l pre
      (fun env s => cond₁ env s ∧ cond₃ env s) post := by
  obtain ⟨code₁, ran₁, free₁, runs₁⟩ := first
  obtain ⟨code₂, ran₂, free₂, runs₂⟩ := second
  refine ⟨code₁ ++ code₂, ?_, by rw [binds_append, free₁, free₂, List.append_nil], ?_⟩
  · rw [run_bind_of_ok ran₁, ran₂, prepend_ok]
  · intro env s holds
    obtain ⟨s₁, related₁, accepted₁, branch⟩ := runs₁ env s (enter env s holds)
    -- `early` speaks of the first check having jumped, `carry` of it having passed
    obtain ⟨early, carry⟩ := link env s s₁ holds related₁
    rcases branch with ⟨holds₁, exec₁⟩ | ⟨fails₁, exec₁⟩
    · obtain ⟨enter₂, same, late⟩ := carry holds₁
      obtain ⟨s₂, related₂, accepted₂, branch₂⟩ := runs₂ env s₁ enter₂
      refine ⟨s₂, late s₂ related₂, ?_, ?_⟩
      · rw [always_append, exec₁]
        exact ⟨accepted₁, accepted₂⟩
      · rw [exec_append, exec₁]
        rcases branch₂ with ⟨holds₂, exec₂⟩ | ⟨fails₂, exec₂⟩
        · exact Or.inl ⟨⟨holds₁, same.mp holds₂⟩, exec₂⟩
        · exact Or.inr ⟨fun both => fails₂ (same.mpr both.2), exec₂⟩
    · -- the first check jumped, and the label is not in the second
      have absent : l ∉ binds code₂ := by rw [free₂]; exact List.not_mem_nil
      refine ⟨s₁, early, ?_, Or.inr ⟨fun both => fails₁ both.1, ?_⟩⟩
      · rw [always_append, exec₁]
        exact ⟨accepted₁, always_seeking_of_notMem _ _ _ _ _ absent⟩
      · rw [exec_append, exec₁, exec_seeking_of_notMem _ _ _ _ absent]

/-- Straight-line code in front of a check. -/
theorem Straight.seq_guards {x : Emitter ι χ σ ε α} {f : α → Emitter ι χ σ ε β} {c c₁ c₂ : σ}
    {a : α} {b : β} {exits : List χ} {l : Nat} {pre pre₁ pre₂ cond₂ cond : κ → τ → Prop}
    {post post₁ post₂ : κ → τ → τ → Prop} (first : Straight step P x c a c₁ pre₁ post₁)
    (second : Guards step P (f a) c₁ b c₂ exits l pre₂ cond₂ post₂)
    (enter : ∀ env s, pre env s → pre₁ env s)
    (link : ∀ env s s₁, pre env s → post₁ env s s₁ →
      pre₂ env s₁ ∧ (cond₂ env s₁ ↔ cond env s) ∧ ∀ s₂, post₂ env s₁ s₂ → post env s s₂) :
    Guards step P (x >>= f) c b c₂ exits l pre cond post := by
  obtain ⟨code₁, ran₁, free₁, runs₁⟩ := first
  obtain ⟨code₂, ran₂, free₂, runs₂⟩ := second
  refine ⟨code₁ ++ code₂, ?_, by rw [binds_append, free₁, free₂, List.append_nil], ?_⟩
  · rw [run_bind_of_ok ran₁, ran₂, prepend_ok]
    rfl
  · intro env s holds
    obtain ⟨s₁, exec₁, accepted₁, related₁⟩ := runs₁ env s (enter env s holds)
    obtain ⟨holds₁, same, carry⟩ := link env s s₁ holds related₁
    obtain ⟨s₂, related₂, accepted₂, branch⟩ := runs₂ env s₁ holds₁
    -- whether the check passes is read off after the straight code
    refine ⟨s₂, carry s₂ related₂, ?_, ?_⟩
    · rw [always_append, exec₁]
      exact ⟨accepted₁, accepted₂⟩
    · rwa [exec_append, exec₁, ← same]

/-- A test and the jump on its outcome, in front of further checks. -/
theorem Guards.tested {x y : Emitter ι χ σ ε Unit} {rest : Emitter ι χ σ ε β} {i j : ι} {c c' : σ}
    {b : β} {exits : List χ} {l : Nat} {pre pre' passes cond : κ → τ → Prop} {test : κ → τ → τ}
    {post : κ → τ → τ → Prop} (first : x.run c = .ok ⟨(), [.instr i], [], c⟩)
    (second : y.run c = .ok ⟨(), [.instr j], [], c⟩)
    (rests : Guards step P rest c b c' exits l pre' cond post)
    (tests : ∀ env s, pre env s → P env i s ∧ step env i s = .next (test env s))
    (goes : ∀ env s, pre env s → passes env s →
      P env j (test env s) ∧ step env j (test env s) = .next (test env s) ∧ pre' env (test env s))
    (jumps : ∀ env s, pre env s → ¬passes env s →
      P env j (test env s) ∧ step env j (test env s) = .jump l (test env s))
    (same : ∀ env s, pre env s → (cond env (test env s) ↔ cond env s))
    (early : ∀ env s, pre env s → post env s (test env s))
    (late : ∀ env s s', pre env s → post env (test env s) s' → post env s s') :
    Guards step P (do x; y; rest) c b c' exits l pre (fun env s => passes env s ∧ cond env s)
      post := by
  obtain ⟨code, ran, free, runs⟩ := rests
  refine ⟨.instr i :: .instr j :: code, ?_, free, fun env s holds => ?_⟩
  · rw [run_bind_of_ok first, run_bind_of_ok second, ran]
    rfl
  obtain ⟨accepted, tested⟩ := tests env s holds
  -- the test and its jump come first; the jump skips everything else, which binds nothing
  by_cases passed : passes env s
  · obtain ⟨accepted', next, enters⟩ := goes env s holds passed
    obtain ⟨s', related, always, branch⟩ := runs env _ enters
    refine ⟨s', late env s s' holds related, ?_, ?_⟩
    · simpa [tested, next] using ⟨accepted, accepted', always⟩
    · simpa [tested, next, passed, same env s holds] using branch
  · obtain ⟨accepted', jump⟩ := jumps env s holds passed
    have absent : l ∉ binds code := by rw [free]; exact List.not_mem_nil
    refine ⟨test env s, early env s holds, ?_, Or.inr ⟨fun both => passed both.1, ?_⟩⟩
    · simpa [tested, jump] using
        ⟨accepted, accepted', always_seeking_of_notMem _ _ _ _ _ absent⟩
    · simp [tested, jump, exec_seeking_of_notMem _ _ _ _ absent]

theorem Guards.conseq {x : Emitter ι χ σ ε α} {c c' : σ} {a : α} {exits : List χ} {l : Nat}
    {pre pre' cond cond' : κ → τ → Prop} {post post' : κ → τ → τ → Prop}
    (guards : Guards step P x c a c' exits l pre cond post)
    (stronger : ∀ env s, pre' env s → pre env s)
    (same : ∀ env s, pre' env s → (cond env s ↔ cond' env s))
    (weaker : ∀ env s s', pre' env s → post env s s' → post' env s s') :
    Guards step P x c a c' exits l pre' cond' post' := by
  obtain ⟨code, ran, free, runs⟩ := guards
  refine ⟨code, ran, free, fun env s holds => ?_⟩
  obtain ⟨s', related, accepted, branch⟩ := runs env s (stronger env s holds)
  refine ⟨s', weaker env s s' holds related, accepted, ?_⟩
  rwa [same env s holds] at branch

end Straight

end Emitter
