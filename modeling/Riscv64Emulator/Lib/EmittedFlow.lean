import Riscv64Emulator.Lib.ControlFlow
import Riscv64Emulator.Lib.DeferredExits
import Mathlib.Data.Set.Insert

/-!
# The control flow of emitted code

A generator that binds each label it allocates once, or leaves it to a deferred exit, emits
closed code. The labels that are allocated and neither bound nor deferred yet are what a
generator is responsible for: it goes from a point with some of them open to a point with
others open (`Flows`), and generators compose like commands do in a logic of triples.
-/
namespace LinearCode

variable {ι χ : Type} {control : ι → Control} {label : χ → Nat}

/-- The labels of the exits that are left for later. -/
def exitLabels (label : χ → Nat) (exits : List χ) : Set Nat := {l | l ∈ exits.map label}

/-- Of two labels that were allocated one after the other each is new to the other's context. -/
theorem fresh_pair {first second : Nat} {pending : Set Nat} (new : first ∉ pending)
    (newer : second ∉ insert first pending) : first ∉ insert second pending ∧ second ∉ pending := by
  refine ⟨fun member => ?_, fun old => newer (Set.mem_insert_of_mem _ old)⟩
  rcases member with rfl | old
  · exact newer (Set.mem_insert _ _)
  · exact new old

/-- Output with labels from `n` to `n'` that leads from the point `p` to the point `q`, where
`pending` are the labels that are open. A label that is open is settled once, in the code or by
an exit, and the jumps name labels that are open or belong to an exit. -/
structure FlowsTo (control : ι → Control) (label : χ → Nat) (p : Point) (n : Nat)
    (code : List (Item ι)) (exits : List χ) (n' : Nat) (q : Point) : Prop where
  grows : n ≤ n'
  nodup : (binds code ++ exits.map label).Nodup
  settles : ∀ l ∈ binds code ++ exits.map label, (l ∈ p.pending ∨ n ≤ l ∧ l < n') ∧ l ∉ q.pending
  opens : ∀ l ∈ q.pending, l ∈ p.pending ∨ n ≤ l ∧ l < n'
  flow : ∀ (live : Prop) (named deferred : Set Nat), (live → p.live) →
    (∀ l ∈ deferred, l < n ∧ l ∉ p.pending) → named ⊆ deferred ∪ p.pending →
    ∃ live' named', flow control code ⟨live, named⟩ = ⟨live', named'⟩ ∧ (live' → q.live) ∧
      named' ⊆ deferred ∪ exitLabels label exits ∪ q.pending

namespace FlowsTo

variable {p q r : Point} {n n₁ n' : Nat} {code code₁ code₂ : List (Item ι)}
  {exits exits₁ exits₂ : List χ}

/-- What is written in one piece: neither a label nor an exit is new. -/
theorem one (code : List (Item ι)) (bindsNone : binds code = []) (opens : q.pending = p.pending)
    (flow : ∀ (live : Prop) (named : Set Nat), (live → p.live) →
      ∃ live' named', LinearCode.flow control code ⟨live, named⟩ = ⟨live', named'⟩ ∧
        (live' → q.live) ∧ named' ⊆ named ∪ p.pending) :
    FlowsTo control label p n code [] n q where
  grows := Nat.le_refl n
  nodup := by simp [bindsNone]
  settles := by simp [bindsNone]
  opens l member := Or.inl (opens ▸ member)
  flow live named deferred alive _ bounded := by
    obtain ⟨live', named', flows, alive', bounded'⟩ := flow live named alive
    refine ⟨live', named', flows, alive', fun l member => ?_⟩
    rcases bounded' member with old | pending
    · exact (bounded old).imp Or.inl fun pending => opens ▸ pending
    · exact Or.inr (opens ▸ pending)

theorem append (below : ∀ l ∈ p.pending, l < n) (first : FlowsTo control label p n code₁ exits₁ n₁ q)
    (second : FlowsTo control label q n₁ code₂ exits₂ n' r) :
    FlowsTo control label p n (code₁ ++ code₂) (exits₁ ++ exits₂) n' r := by
  have grows₁ := first.grows
  have grows₂ := second.grows
  have parts : (binds (code₁ ++ code₂) ++ (exits₁ ++ exits₂).map label).Perm
      ((binds code₁ ++ exits₁.map label) ++ (binds code₂ ++ exits₂.map label)) := by
    rw [binds_append, List.map_append]
    simp only [List.append_assoc]
    refine List.Perm.append_left _ ?_
    rw [← List.append_assoc, ← List.append_assoc]
    exact List.Perm.append_right _ List.perm_append_comm
  -- a label the first part settled is not open any more, and not new to the second
  have settled : ∀ l ∈ binds code₁ ++ exits₁.map label, l < n₁ ∧ l ∉ q.pending := fun l own => by
    obtain ⟨from_, closed⟩ := first.settles l own
    refine ⟨?_, closed⟩
    rcases from_ with pending | fresh
    · have := below l pending
      omega
    · exact fresh.2
  refine ⟨Nat.le_trans grows₁ grows₂, parts.nodup_iff.mpr (List.nodup_append.mpr ⟨first.nodup, second.nodup,
    ?_⟩), fun l member => ?_, fun l pending => ?_, fun live named deferred alive old bounded => ?_⟩
  · rintro l here l' there rfl
    have ⟨low, closed⟩ := settled l here
    rcases (second.settles l there).1 with pending | fresh
    · exact closed pending
    · omega
  · rcases List.mem_append.mp (parts.mem_iff.mp member) with own | own
    · refine ⟨(first.settles l own).1.imp_right fun fresh => by omega, fun pending => ?_⟩
      have ⟨low, closed⟩ := settled l own
      rcases second.opens l pending with earlier | fresh
      · exact closed earlier
      · omega
    · obtain ⟨from_, closed⟩ := second.settles l own
      refine ⟨?_, closed⟩
      rcases from_ with earlier | fresh
      · exact (first.opens l earlier).imp_right fun fresh => by omega
      · exact Or.inr (by omega)
  · rcases second.opens l pending with earlier | fresh
    · exact (first.opens l earlier).imp_right fun fresh => by omega
    · exact Or.inr (by omega)
  · obtain ⟨live₁, named₁, flows₁, alive₁, bounded₁⟩ := first.flow live named deferred alive old bounded
    obtain ⟨live₂, named₂, flows₂, alive₂, bounded₂⟩ :=
      second.flow live₁ named₁ (deferred ∪ exitLabels label exits₁) alive₁ (fun l member => by
        rcases member with earlier | own
        · have ⟨low, closed⟩ := old l earlier
          refine ⟨by omega, fun pending => ?_⟩
          rcases first.opens l pending with before | fresh
          · exact closed before
          · omega
        · exact settled l (List.mem_append_right _ own)) bounded₁
    refine ⟨live₂, named₂, by rw [flow_append, flows₁, flows₂], alive₂, fun l member => ?_⟩
    rcases bounded₂ member with ((earlier | own) | own) | pending
    · exact Or.inl (Or.inl earlier)
    · refine Or.inl (Or.inr ?_)
      rw [exitLabels, Set.mem_ofPred_eq, List.map_append]
      exact List.mem_append_left _ own
    · refine Or.inl (Or.inr ?_)
      rw [exitLabels, Set.mem_ofPred_eq, List.map_append]
      exact List.mem_append_right _ own
    · exact Or.inr pending

end FlowsTo

/-! ### The code of deferred exits -/

/-- The flow of the exits' code, each a label and code that leaves. -/
theorem flow_exits {exitCode : χ → List (Item ι)}
    (shape : ∀ e, ∃ body i, exitCode e = .label (label e) :: body ++ [.instr i] ∧
      Plain control body ∧ control i = .leave) (exits : List χ) (named : Set Nat)
    (bounded : named ⊆ exitLabels label exits) :
    flow control (exits.flatMap exitCode) ⟨False, named⟩ = ⟨False, ∅⟩ := by
  -- each exit binds its own label and leaves, so control is dead between two exits
  induction exits generalizing named with
  | nil =>
    -- with no exit left no label may be open
    have empty : named = ∅ :=
      Set.Subset.antisymm (fun l member => by cases bounded member) (Set.empty_subset named)
    rw [empty]
    rfl
  | cons e rest ih =>
    obtain ⟨body, i, code, plain, leave⟩ := shape e
    have left : flow control (exitCode e) ⟨False, named⟩ = ⟨False, named \ {label e}⟩ := by
      rw [code, List.cons_append, flow_cons, flow_append, plain.flow]
      ext <;> simp [Point.pass, leave, Control.falls, Control.target]
    rw [List.flatMap_cons, flow_append, left]
    refine ih _ fun l member => ?_
    rcases List.mem_cons.mp (bounded member.1) with here | later
    · exact absurd here member.2
    · exact later

/-- Code that leaves nothing open is closed together with the code of its exits. -/
theorem FlowsTo.closed {n n' : Nat} {code : List (Item ι)} {exits : List χ}
    (flows : FlowsTo control label ⟨True, ∅⟩ n code exits n' ⟨False, ∅⟩) {exitCode : χ → List (Item ι)}
    (own : BindsOwn exitCode label)
    (shape : ∀ e, ∃ body i, exitCode e = .label (label e) :: body ++ [.instr i] ∧
      Plain control body ∧ control i = .leave) :
    Closed control (code ++ exits.flatMap exitCode) := by
  obtain ⟨live, named, flow, dead, bounded⟩ :=
    flows.flow True ∅ ∅ id (fun l member => absurd member (Set.notMem_empty l)) (Set.empty_subset _)
  rw [Set.empty_union, Set.union_empty] at bounded
  -- control never falls off the end, so the exits are entered through their labels alone
  have dead : live = False := propext ⟨dead, False.elim⟩
  refine closed_of_flow ?_ ?_
  · rw [binds_append, binds_flatMap own]
    exact flows.nodup
  · rw [flow_append, flow, dead]
    exact flow_exits shape exits named bounded

end LinearCode

/-! ### Generators -/

namespace Emitter

open LinearCode

variable {ι χ σ ε α β : Type} (control : ι → Control) (label : χ → Nat) (next : σ → Nat)

/-- Every run of `x` leads from the point `p` to the point its result says. `next` is the
label that is allocated next. -/
def Flows (p : Point) (x : Emitter ι χ σ ε α) (q : α → Point) : Prop :=
  ∀ c o, (∀ l ∈ p.pending, l < next c) → x.run c = .ok o →
    FlowsTo control label p (next c) o.code o.exits (next o.state) (q o.value)

variable {control label next} {x y : Emitter ι χ σ ε α} {f : α → Emitter ι χ σ ε β} {p : Point}
  {q : α → Point} {r : β → Point}

namespace Flows

/-- What emits nothing. -/
theorem silent (silent : ∀ c o, x.run c = .ok o →
      o.code = [] ∧ o.exits = [] ∧ next o.state = next c ∧ q o.value = p) :
    Flows control label next p x q := by
  intro c o _ ran
  obtain ⟨code, exits, same, point⟩ := silent c o ran
  rw [code, exits, same, point]
  exact .one [] rfl rfl fun live named alive => ⟨live, named, rfl, alive, Set.subset_union_left⟩

theorem pure {q : α → Point} (a : α) (same : q a = p) :
    Flows control label next p (Pure.pure a : Emitter ι χ σ ε α) q :=
  .silent fun _ _ ran => by
    cases ran
    exact ⟨rfl, rfl, rfl, same⟩

theorem fail {e : ε} : Flows control label next p (Emitter.fail e : Emitter ι χ σ ε α) q :=
  fun _ _ _ ran => by cases ran

/-- One generator after the other, where more is known of what the first returns. -/
theorem bind_of {F : α → Prop} (first : Flows control label next p x q)
    (returns : ∀ c o, (∀ l ∈ p.pending, l < next c) → x.run c = .ok o → F o.value)
    (second : ∀ a, F a → Flows control label next (q a) (f a) r) :
    Flows control label next p (x >>= f) r := by
  intro c o below ran
  obtain ⟨o₁, o₂, ran₁, ran₂, rfl⟩ := run_bind_ok_iff.mp ran
  have flows := first c o₁ below ran₁
  -- the labels open between the two were open before, or the first allocated them
  refine flows.append below (second _ (returns c o₁ below ran₁) _ o₂ (fun l pending => ?_) ran₂)
  have grows := flows.grows
  rcases flows.opens l pending with before | fresh
  · have := below l before
    omega
  · exact fresh.2

theorem bind (first : Flows control label next p x q)
    (second : ∀ a, Flows control label next (q a) (f a) r) :
    Flows control label next p (x >>= f) r :=
  first.bind_of (F := fun _ => True) (fun _ _ _ _ => trivial) fun a _ => second a

theorem ite {c : Prop} [Decidable c] (yes : c → Flows control label next p x q)
    (no : ¬c → Flows control label next p y q) :
    Flows control label next p (if c then x else y) q := by
  split
  next holds => exact yes holds
  next fails => exact no fails

/-- Control may come out of less than what is shown. -/
theorem conseq {q' : α → Point} (flows : Flows control label next p x q)
    (live : ∀ a, (q a).live → (q' a).live) (same : ∀ a, (q a).pending = (q' a).pending) :
    Flows control label next p x q' := by
  intro c o below ran
  obtain ⟨grows, nodup, settles, opens, flow⟩ := flows c o below ran
  rw [same] at settles opens flow
  refine ⟨grows, nodup, settles, opens, fun alive named deferred old bounded small => ?_⟩
  obtain ⟨alive', named', flow, out, bounded⟩ := flow alive named deferred old bounded small
  exact ⟨alive', named', flow, fun comes => live _ (out comes), bounded⟩

/-- An instruction that names no label but open ones. -/
theorem instr {i : ι} {p' : Point} (falls : (control i).falls = true → p.live → p'.live)
    (named : ∀ l, (control i).target = some l → l ∈ p.pending) (same : p'.pending = p.pending) :
    Flows control label next p (emit [.instr i] : Emitter ι χ σ ε Unit) fun _ => p' := by
  intro c o _ ran
  cases ran
  refine .one [.instr i] rfl same fun live old alive => ?_
  refine ⟨live ∧ (control i).falls = true, old ∪ {l | (control i).target = some l}, rfl,
    fun both => falls both.2 (alive both.1), ?_⟩
  rintro l (earlier | target)
  · exact Or.inl earlier
  · exact Or.inr (named l target)

/-- A label is new when it is allocated. -/
theorem allocate {allocate : Emitter ι χ σ ε Nat} {f : Nat → Emitter ι χ σ ε β}
    (allocates : ∀ c o, allocate.run c = .ok o →
      o.value = next c ∧ o.code = [] ∧ o.exits = [] ∧ next o.state = next c + 1)
    (rest : ∀ l ∉ p.pending, Flows control label next ⟨p.live, insert l p.pending⟩ (f l) r) :
    Flows control label next p (allocate >>= f) r := by
  intro c o below ran
  obtain ⟨o₁, o₂, ran₁, ran₂, rfl⟩ := run_bind_ok_iff.mp ran
  obtain ⟨value, code, exits, state⟩ := allocates c o₁ ran₁
  -- nothing is emitted, and the new label joins the open ones
  have opened : FlowsTo control label p (next c) ([] : List (Item ι)) ([] : List χ) (next c + 1)
      ⟨p.live, insert (next c) p.pending⟩ := by
    refine ⟨Nat.le_succ _, by simp, by simp, fun l pending => ?_, fun live named deferred alive _ bounded =>
      ⟨live, named, rfl, alive, fun l member => ?_⟩⟩
    · rcases pending with rfl | old
      · exact Or.inr ⟨Nat.le_refl _, Nat.lt_succ_self _⟩
      · exact Or.inl old
    · exact (bounded member).imp Or.inl Or.inr
  have flows := rest (next c) (fun pending => Nat.lt_irrefl _ (below _ pending)) o₁.state o₂ (by
    intro l pending
    rw [state]
    rcases pending with rfl | old
    · exact Nat.lt_succ_self _
    · exact Nat.lt_succ_of_lt (below l old)) (value ▸ ran₂)
  rw [state] at flows
  simp only [code, exits]
  exact opened.append below flows

/-- A label that is open is bound. -/
theorem bound {l : Nat} (pending : l ∈ p.pending) :
    Flows control label next p (emit [.label l] : Emitter ι χ σ ε Unit)
      fun _ => ⟨True, p.pending \ {l}⟩ := by
  intro c o _ ran
  cases ran
  refine ⟨Nat.le_refl _, by simp, fun k member => ?_, fun k member => Or.inl member.1,
    fun alive named deferred _ old bounded => ⟨_, _, rfl, fun _ => trivial, ?_⟩⟩
  · have here : k = l := by simpa using member
    rw [here]
    exact ⟨Or.inl pending, fun member => member.2 rfl⟩
  · rintro k ⟨member, other⟩
    exact (bounded member).imp Or.inl fun pending => ⟨pending, other⟩

/-- A label that is open is left to an exit. -/
theorem defers {e : χ} (pending : label e ∈ p.pending) :
    Flows control label next p (Emitter.defer e : Emitter ι χ σ ε Unit)
      fun _ => ⟨p.live, p.pending \ {label e}⟩ := by
  intro c o _ ran
  cases ran
  refine ⟨Nat.le_refl _, by simp, fun k member => ?_, fun k member => Or.inl member.1,
    fun live named deferred alive old bounded => ⟨live, named, rfl, alive, fun k member => ?_⟩⟩
  · have here : k = label e := by simpa using member
    rw [here]
    exact ⟨Or.inl pending, fun member => member.2 rfl⟩
  · by_cases here : k = label e
    · exact Or.inl (Or.inr (by simp [exitLabels, here]))
    · exact (bounded member).imp Or.inl fun pending => ⟨pending, here⟩

end Flows

end Emitter
