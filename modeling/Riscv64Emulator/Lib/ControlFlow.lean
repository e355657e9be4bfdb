import Riscv64Emulator.Lib.LinearCode
import Mathlib.Data.Set.Basic
import Mathlib.Data.List.Nodup

/-!
# Control flow of linear code

Where control can go from each item of assembled code, whatever the values. Code is closed
when every label a jump names is bound exactly once and every path from the first item
ends in an instruction that leaves the code: no path runs past the last item and none
goes on forever. `flow` follows control through a fragment from its first item to its last
and collects the labels that are still to be bound, so the flow of a composed fragment is
the composition of the flows of its parts.
-/
namespace LinearCode

variable {ι σ ε : Type}

/-- Where control can go behind an instruction. -/
inductive Control where
  | next
  | branch (l : Nat)
  | jump (l : Nat)
  | leave
deriving DecidableEq, Repr

/-- Control stays with the next item. -/
def Control.falls : Control → Bool
  | .next | .branch _ => true
  | .jump _ | .leave => false

/-- The label an instruction may jump to. -/
def Control.target : Control → Option Nat
  | .branch l | .jump l => some l
  | .next | .leave => none

/-- The effects an instruction of this kind can have. -/
def Control.Allows (c : Control) : Effect σ ε → Prop
  | .next _ => c.falls = true
  | .jump l _ => c.target = some l
  | .leave _ _ => c = .leave
  | .fault => True

/-- Every step goes where the classification of its instruction says. -/
def Classifies (control : ι → Control) (step : ι → σ → Effect σ ε) : Prop :=
  ∀ i s, (control i).Allows (step i s)

variable (control : ι → Control)

/-- The labels the jumps of a fragment name. -/
def refs : List (Item ι) → List Nat
  | [] => []
  | .label _ :: rest => refs rest
  | .instr i :: rest => (control i).target.toList ++ refs rest

/-- Control can go from item `i` to item `j`. -/
def Edge (code : List (Item ι)) (i j : Nat) : Prop :=
  match code[i]? with
  | none => False
  | some (.label _) => j = i + 1
  | some (.instr k) => ((control k).falls = true ∧ j = i + 1) ∨
      ∃ l, (control k).target = some l ∧ code[j]? = some (.label l)

/-- Every path from item `i` ends, and ends in an instruction that leaves the code. -/
inductive LeadsOut (code : List (Item ι)) : Nat → Prop
  | leaves {i k} (item : code[i]? = some (.instr k)) (leaves : control k = .leave) : LeadsOut code i
  | goes {i} (some : ∃ j, Edge control code i j) (all : ∀ j, Edge control code i j → LeadsOut code j) :
      LeadsOut code i

structure Closed (code : List (Item ι)) : Prop where
  bound : ∀ l ∈ refs control code, (binds code).count l = 1
  leads : LeadsOut control code 0

/-! ### Following control through a fragment -/

/-- What is known at a point of the code: whether control can come there from the item
before, and which labels were named and are not bound yet. -/
@[ext] structure Point where
  live : Prop
  pending : Set Nat

/-- Pass over one item. -/
def Point.pass (p : Point) : Item ι → Point
  | .label l => ⟨p.live ∨ l ∈ p.pending, p.pending \ {l}⟩
  | .instr i => ⟨p.live ∧ (control i).falls = true, p.pending ∪ {l | (control i).target = some l}⟩

def flow (code : List (Item ι)) (p : Point) : Point := code.foldl (Point.pass control) p

@[simp] theorem flow_nil (p : Point) : flow control [] p = p := rfl

@[simp] theorem flow_cons (item : Item ι) (rest : List (Item ι)) (p : Point) :
    flow control (item :: rest) p = flow control rest (p.pass control item) := rfl

@[simp] theorem flow_append (xs ys : List (Item ι)) (p : Point) :
    flow control (xs ++ ys) p = flow control ys (flow control xs p) := List.foldl_append

variable {control}

theorem edge_label {code : List (Item ι)} {i j l : Nat} (item : code[i]? = some (.label l)) :
    Edge control code i j ↔ j = i + 1 := by
  rw [Edge, item]

theorem edge_instr {code : List (Item ι)} {i j : Nat} {k : ι} (item : code[i]? = some (.instr k)) :
    Edge control code i j ↔ ((control k).falls = true ∧ j = i + 1) ∨
      ∃ l, (control k).target = some l ∧ code[j]? = some (.label l) := by
  rw [Edge, item]

/-- Instructions behind which control stays with the next item. -/
def Plain (control : ι → Control) (code : List (Item ι)) : Prop :=
  ∀ item ∈ code, ∃ i, item = .instr i ∧ control i = .next

namespace Plain

variable {xs ys : List (Item ι)}

theorem nil : Plain control ([] : List (Item ι)) := fun _ member => absurd member List.not_mem_nil

theorem cons {i : ι} (next : control i = .next) (plain : Plain control xs) :
    Plain control (.instr i :: xs) := fun item member => by
  rcases List.mem_cons.mp member with rfl | later
  · exact ⟨i, rfl, next⟩
  · exact plain item later

theorem append (first : Plain control xs) (second : Plain control ys) : Plain control (xs ++ ys) :=
  fun item member => (List.mem_append.mp member).elim (first item) (second item)

/-- Control comes out as it goes in. -/
theorem flow (plain : Plain control xs) (p : Point) : LinearCode.flow control xs p = p := by
  induction xs generalizing p with
  | nil => rfl
  | cons item rest ih =>
    obtain ⟨i, rfl, next⟩ := plain item List.mem_cons_self
    rw [flow_cons, ih fun item member => plain item (List.mem_cons_of_mem _ member)]
    ext <;> simp [Point.pass, next, Control.falls, Control.target]

end Plain

/-! ### Closed code -/

/-- A label is no longer pending only when it was bound. -/
theorem pending_flow (code : List (Item ι)) (p : Point) {l : Nat} (pending : l ∈ p.pending)
    (settled : l ∉ (flow control code p).pending) : l ∈ binds code := by
  -- on the code: a label leaves `pending` only when the walk meets it
  induction code generalizing p with
  | nil => exact absurd pending settled
  | cons item rest ih =>
    cases item with
    | instr i => exact ih (p.pass control (.instr i)) (Or.inl pending) settled
    | label l' =>
      by_cases here : l = l'
      · exact here ▸ List.mem_cons_self
      · exact List.mem_cons_of_mem _ (ih (p.pass control (.label l')) ⟨pending, here⟩ settled)

/-- A label that is named is pending, or bound later on. -/
theorem refs_flow (code : List (Item ι)) (p : Point) {l : Nat} (named : l ∈ refs control code)
    (settled : l ∉ (flow control code p).pending) : l ∈ binds code := by
  induction code generalizing p with
  | nil => cases named
  | cons item rest ih =>
    cases item with
    | label l' => exact List.mem_cons_of_mem _ (ih _ named settled)
    | instr i =>
      rcases List.mem_append.mp named with here | later
      · have target : (control i).target = some l := by simpa using here
        exact pending_flow rest (p.pass control (.instr i)) (Or.inr target) settled
      · exact ih _ later settled

theorem mem_binds {code : List (Item ι)} {l : Nat} :
    l ∈ binds code ↔ ∃ j : Nat, code[j]? = some (.label l) := by
  -- an instruction moves the places of the labels behind it, a label is at place 0
  induction code with
  | nil => simp
  | cons item rest ih =>
    cases item with
    | instr i =>
      rw [binds_instr, ih]
      constructor
      · rintro ⟨j, here⟩
        exact ⟨j + 1, here⟩
      · rintro ⟨j, here⟩
        cases j with
        | zero => cases here
        | succ j => exact ⟨j, here⟩
    | label l' =>
      rw [binds_label, List.mem_cons, ih]
      constructor
      · rintro (rfl | ⟨j, here⟩)
        · exact ⟨0, rfl⟩
        · exact ⟨j + 1, here⟩
      · rintro ⟨j, here⟩
        cases j with
        | zero => exact Or.inl (by simpa using here.symm)
        | succ j => exact Or.inr ⟨j, here⟩

/-- A label that is bound once lies at one position. -/
theorem position_unique {code : List (Item ι)} {l i j : Nat} (once : (binds code).count l ≤ 1)
    (first : code[i]? = some (.label l)) (second : code[j]? = some (.label l)) : i = j := by
  induction code generalizing i j with
  | nil => cases first
  | cons item rest ih =>
    -- behind a binding of the label there is no other one
    have later {k : Nat} (here : item = .label l) (there : rest[k]? = some (.label l)) : False := by
      have member : l ∈ binds rest := mem_binds.mpr ⟨k, there⟩
      have more := List.count_pos_iff.mpr member
      rw [here, binds_label, List.count_cons_self] at once
      omega
    cases i with
    | zero =>
      cases j with
      | zero => rfl
      | succ j => exact (later (Option.some.inj first) second).elim
    | succ i =>
      cases j with
      | zero => exact (later (Option.some.inj second) first).elim
      | succ j =>
        refine congrArg (· + 1) (ih (le_trans ?_ once) first second)
        cases item with
        | label l' =>
          rw [binds_label]
          exact List.count_le_count_cons
        | instr k => exact Nat.le_refl _

theorem mem_refs {code : List (Item ι)} {i l : Nat} {k : ι} (item : code[i]? = some (.instr k))
    (target : (control k).target = some l) : l ∈ refs control code := by
  induction code generalizing i with
  | nil => cases item
  | cons first rest ih =>
    cases i with
    | zero =>
      cases item
      exact List.mem_append_left _ (by rw [target]; exact List.mem_singleton_self l)
    | succ i =>
      cases first with
      | label l' => exact ih item
      | instr k' => exact List.mem_append_right _ (ih item)

/-- From every point of code whose flow ends with nothing open, control leads out: from the
next item when that is live, and from every label that is pending. -/
theorem leads_of_flow {code : List (Item ι)} (nodup : (binds code).Nodup) (before rest : List (Item ι))
    (p : Point) (split : code = before ++ rest) (ends : flow control rest p = ⟨False, ∅⟩) :
    (p.live → LeadsOut control code before.length) ∧
      ∀ l ∈ p.pending, ∀ j, code[j]? = some (.label l) → LeadsOut control code j := by
  induction rest generalizing before p with
  | nil =>
    rw [flow_nil] at ends
    subst ends
    exact ⟨False.elim, fun l member => absurd member (Set.notMem_empty l)⟩
  | cons item rest ih =>
    -- backwards from the end of the code: what holds behind the item is known
    obtain ⟨live, pending⟩ := ih (before ++ [item]) (p.pass control item) (by simp [split]) ends
    rw [List.length_append, List.length_singleton] at live
    have here : code[before.length]? = some item := by simp [split]
    cases item with
    | label l' =>
      -- control goes on behind the label, from wherever it comes
      have through : (p.live ∨ l' ∈ p.pending) → LeadsOut control code before.length := fun comes => by
        refine .goes ⟨before.length + 1, (edge_label here).mpr rfl⟩ fun j edge => ?_
        exact (edge_label here).mp edge ▸ live comes
      refine ⟨fun comes => through (Or.inl comes), fun l member j at_j => ?_⟩
      by_cases same : l = l'
      · subst same
        rw [position_unique (List.nodup_iff_count_le_one.mp nodup _) at_j here]
        exact through (Or.inr member)
      · exact pending l ⟨member, same⟩ j at_j
    | instr k =>
      refine ⟨fun comes => ?_, fun l member => pending l (Or.inl member)⟩
      have falls : (control k).falls = true → LeadsOut control code (before.length + 1) :=
        fun falls => live ⟨comes, falls⟩
      have jumps : ∀ l, (control k).target = some l → ∀ j, code[j]? = some (.label l) →
          LeadsOut control code j := fun l target => pending l (Or.inr target)
      have goes : (∃ j, Edge control code before.length j) → LeadsOut control code before.length :=
        fun some => by
          refine .goes some fun j edge => ?_
          rcases (edge_instr here).mp edge with ⟨stays, rfl⟩ | ⟨l, target, bound⟩
          · exact falls stays
          · exact jumps l target j bound
      cases kind : control k with
      | next => exact goes ⟨before.length + 1, (edge_instr here).mpr (Or.inl ⟨by rw [kind]; rfl, rfl⟩)⟩
      | branch l =>
        exact goes ⟨before.length + 1, (edge_instr here).mpr (Or.inl ⟨by rw [kind]; rfl, rfl⟩)⟩
      | leave => exact .leaves here kind
      | jump l =>
        -- the label is pending now, so it is bound in the rest
        have target : (control k).target = some l := by rw [kind]; rfl
        have bound : l ∈ binds rest :=
          pending_flow rest (p.pass control (.instr k)) (Or.inr target) (by
            rw [flow_cons] at ends
            rw [ends]
            exact Set.notMem_empty l)
        have somewhere : l ∈ binds code := by
          rw [split, binds_append]
          exact List.mem_append_right _ bound
        obtain ⟨j, bound⟩ := mem_binds.mp somewhere
        exact goes ⟨j, (edge_instr here).mpr (Or.inr ⟨l, target, bound⟩)⟩

/-- The machine that holds the whole code goes along the edges. -/
theorem Step.edge {step : ι → σ → Effect σ ε} (classifies : Classifies control step)
    {code : List (Item ι)} {i j : Nat} {s s' : σ} (steps : Step step code (.at i s) (.at j s')) :
    Edge control code i j := by
  cases steps with
  | label item => exact (edge_label item).mpr rfl
  | @next _ k _ _ item effect =>
    have kind := classifies k s
    rw [effect] at kind
    exact (edge_instr item).mpr (Or.inl ⟨kind, rfl⟩)
  | @jump _ k _ l _ _ item effect bound =>
    have kind := classifies k s
    rw [effect] at kind
    exact (edge_instr item).mpr (Or.inr ⟨l, kind, bound⟩)

/-- In closed code every jump has one target. -/
theorem Closed.rightUnique {step : ι → σ → Effect σ ε} (classifies : Classifies control step)
    {code : List (Item ι)} (closed : Closed control code) : Relator.RightUnique (Step step code) := by
  intro c c₁ c₂ first second
  -- two steps read the same item and the instruction has one effect
  cases first with
  | label item =>
    cases second with
    | label => rfl
    | next item' | jump item' | leave item' => cases item.symm.trans item'
  | next item effect =>
    cases second with
    | label item' => cases item.symm.trans item'
    | next item' effect' =>
      cases item.symm.trans item'
      cases effect.symm.trans effect'
      rfl
    | jump item' effect' | leave item' effect' =>
      cases item.symm.trans item'
      cases effect.symm.trans effect'
  | leave item effect =>
    cases second with
    | label item' => cases item.symm.trans item'
    | leave item' effect' =>
      cases item.symm.trans item'
      cases effect.symm.trans effect'
      rfl
    | next item' effect' | jump item' effect' =>
      cases item.symm.trans item'
      cases effect.symm.trans effect'
  | @jump n k s l s' target item effect bound =>
    cases second with
    | label item' => cases item.symm.trans item'
    | next item' effect' | leave item' effect' =>
      cases item.symm.trans item'
      cases effect.symm.trans effect'
    | @jump _ _ _ _ _ target' item' effect' bound' =>
      cases item.symm.trans item'
      cases effect.symm.trans effect'
      -- both labels stand where the only one of that name does
      have kind := classifies k s
      rw [effect] at kind
      have named : l ∈ refs control code := mem_refs item kind
      rw [position_unique (Nat.le_of_eq (closed.bound l named)) bound bound']

/-- Where `exec` leaves closed code, every run of the machine that leaves it does so in the same way. -/
theorem Closed.unique {step : ι → σ → Effect σ ε} (classifies : Classifies control step)
    {code : List (Item ι)} (closed : Closed control code) {s s' t : σ} {e e' : ε}
    (ran : exec step code (.running s) = .left e s') (reaches : Reaches step code (.at 0 s) (.left e' t)) :
    e' = e ∧ t = s' := by
  have gone {e : ε} {s : σ} {c : Config σ ε} (reaches : Reaches step code (.left e s) c) : c = .left e s := by
    rcases reaches.cases_head with same | ⟨_, steps, -⟩
    · exact same.symm
    · cases steps
  rcases Relation.ReflTransGen.total_of_right_unique (closed.rightUnique classifies)
    (exec_reaches step code s s' e ran) reaches with further | further
  · cases gone further
    exact ⟨rfl, rfl⟩
  · cases gone further
    exact ⟨rfl, rfl⟩

/-- The machine that holds the whole code leaves it in one way. -/
def Lands {δ : Type} (step : ι → σ → Effect σ ε) (deliver : ε → δ) (code : List (Item ι)) (s : σ) (d : δ) (s' : σ) :
    Prop :=
  ∃ e, deliver e = d ∧ Reaches step code (.at 0 s) (.left e s') ∧
    ∀ e' t, Reaches step code (.at 0 s) (.left e' t) → e' = e ∧ t = s'

theorem Closed.lands {δ : Type} {step : ι → σ → Effect σ ε} (classifies : Classifies control step)
    {code : List (Item ι)} (closed : Closed control code) {deliver : ε → δ} {s s' : σ} {d : δ}
    (ran : runCode step deliver code s = some (d, s')) : Lands step deliver code s d s' := by
  obtain ⟨e, left, delivered⟩ := runCode_eq_some.mp ran
  exact ⟨e, delivered, exec_reaches step code s s' e left, fun _ _ => closed.unique classifies left⟩

/-- A machine that runs closed code stays inside it until it leaves. -/
theorem Closed.inside {step : ι → σ → Effect σ ε} (classifies : Classifies control step)
    {code : List (Item ι)} (closed : Closed control code) {s s' : σ} {j : Nat}
    (reaches : Reaches step code (.at 0 s) (.at j s')) : j < code.length := by
  -- on the run: `LeadsOut` goes along with every edge the machine takes
  have leads : ∀ config, Reaches step code (.at 0 s) config →
      ∀ j s', config = .at j s' → LeadsOut control code j := by
    intro config reaches
    induction reaches with
    | refl =>
      intro j s' same
      cases same
      exact closed.leads
    | @tail b c _ steps ih =>
      rintro j s' rfl
      cases b with
      | left e s => cases steps
      | «at» i s =>
        have edge := steps.edge classifies
        cases ih i s rfl with
        | leaves item leaves =>
          rcases (edge_instr item).mp edge with ⟨falls, -⟩ | ⟨l, target, -⟩
          · rw [leaves] at falls
            cases falls
          · rw [leaves] at target
            cases target
        | goes _ all => exact all j edge
  have inside : ∀ {item : Option (Item ι)}, code[j]? = item → item ≠ none → j < code.length :=
    fun here some => by
      by_contra outside
      exact some (here.symm.trans (List.getElem?_eq_none (Nat.le_of_not_lt outside)))
  cases leads _ reaches j s' rfl with
  | leaves item _ => exact inside item (by simp)
  | goes some _ =>
    obtain ⟨k, edge⟩ := some
    refine inside rfl fun none => ?_
    rw [Edge, none] at edge
    exact edge

/-- Code whose labels are bound once and whose flow ends with nothing open is closed. -/
theorem closed_of_flow {code : List (Item ι)} (nodup : (binds code).Nodup)
    (ends : flow control code ⟨True, ∅⟩ = ⟨False, ∅⟩) : Closed control code where
  bound l named := by
    refine List.count_eq_one_of_mem nodup (refs_flow code ⟨True, ∅⟩ named ?_)
    rw [ends]
    exact Set.notMem_empty l
  leads := (leads_of_flow nodup [] code ⟨True, ∅⟩ rfl ends).1 trivial

end LinearCode
