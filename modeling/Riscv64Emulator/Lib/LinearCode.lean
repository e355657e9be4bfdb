import Mathlib.Data.List.Basic
import Mathlib.Logic.Relation

/-!
# Linear code with forward jumps

Code as an assembler leaves it: a list of instructions in which labels are bound at
some positions. `exec` runs the list from its first item to its last. A jump makes the
machine skip items until the label is bound further on, so `exec` is the meaning of
code whose jumps all go forward; `exec_reaches` connects it to a machine with an
instruction index that looks a label up in the whole list.

`exec` is a fold, so the code of a composed fragment is the composition of the
fragments' meanings (`exec_append`).
-/
namespace LinearCode

variable {ι σ ε : Type}

/-- One position of assembled code. -/
inductive Item (ι : Type) where
  | instr (i : ι)
  | label (l : Nat)
deriving Repr, DecidableEq

/-- What one instruction does: continue with the next item, jump to a label, leave the
code, or fault. -/
inductive Effect (σ ε : Type) where
  | next (s : σ)
  | jump (l : Nat) (s : σ)
  | leave (e : ε) (s : σ)
  | fault
deriving Repr, DecidableEq

/-- The machine between two items. -/
inductive Mode (σ ε : Type) where
  | running (s : σ)
  | seeking (l : Nat) (s : σ)
  | left (e : ε) (s : σ)
  | faulted
deriving Repr, DecidableEq

@[simp] def Effect.mode : Effect σ ε → Mode σ ε
  | .next s => .running s
  | .jump l s => .seeking l s
  | .leave e s => .left e s
  | .fault => .faulted

/-- Pass over one item. -/
def advance (step : ι → σ → Effect σ ε) : Mode σ ε → Item ι → Mode σ ε
  | .running s, .instr i => (step i s).mode
  | .running s, .label _ => .running s
  | .seeking l s, .label l' => if l = l' then .running s else .seeking l s
  | .seeking l s, .instr _ => .seeking l s
  | .left e s, _ => .left e s
  | .faulted, _ => .faulted

/-- Run a list of items. -/
def exec (step : ι → σ → Effect σ ε) (code : List (Item ι)) (m : Mode σ ε) : Mode σ ε :=
  code.foldl (advance step) m

/-- The labels a fragment binds. -/
def binds : List (Item ι) → List Nat
  | [] => []
  | .label l :: rest => l :: binds rest
  | .instr _ :: rest => binds rest

@[simp] theorem binds_nil : binds ([] : List (Item ι)) = [] := rfl

@[simp] theorem binds_instr (i : ι) (rest : List (Item ι)) :
    binds (.instr i :: rest) = binds rest := rfl

@[simp] theorem binds_label (l : Nat) (rest : List (Item ι)) :
    binds (.label l :: rest) = l :: binds rest := rfl

@[simp] theorem binds_append (xs ys : List (Item ι)) : binds (xs ++ ys) = binds xs ++ binds ys := by
  induction xs with
  | nil => rfl
  | cons item rest ih => cases item <;> simp [ih]

variable (step : ι → σ → Effect σ ε)

@[simp] theorem exec_nil (m : Mode σ ε) : exec step [] m = m := rfl

@[simp] theorem exec_instr (i : ι) (rest : List (Item ι)) (s : σ) :
    exec step (.instr i :: rest) (.running s) = exec step rest (step i s).mode := rfl

@[simp] theorem exec_label (l : Nat) (rest : List (Item ι)) (s : σ) :
    exec step (.label l :: rest) (.running s) = exec step rest (.running s) := rfl

@[simp] theorem exec_append (xs ys : List (Item ι)) (m : Mode σ ε) :
    exec step (xs ++ ys) m = exec step ys (exec step xs m) :=
  List.foldl_append

@[simp] theorem exec_left (code : List (Item ι)) (e : ε) (s : σ) :
    exec step code (.left e s) = .left e s := by
  induction code with
  | nil => rfl
  | cons item rest ih => exact ih

@[simp] theorem exec_faulted (code : List (Item ι)) :
    exec step code .faulted = .faulted := by
  induction code with
  | nil => rfl
  | cons item rest ih => exact ih

@[simp] theorem exec_seeking_instr (l : Nat) (i : ι) (rest : List (Item ι)) (s : σ) :
    exec step (.instr i :: rest) (.seeking l s) = exec step rest (.seeking l s) := rfl

@[simp] theorem exec_seeking_label (l l' : Nat) (rest : List (Item ι)) (s : σ) :
    exec step (.label l' :: rest) (.seeking l s)
      = exec step rest (if l = l' then .running s else .seeking l s) := rfl

/-- A jump passes over a fragment that does not bind its label. -/
theorem exec_seeking_of_notMem (code : List (Item ι)) (l : Nat) (s : σ)
    (absent : l ∉ binds code) : exec step code (.seeking l s) = .seeking l s := by
  induction code with
  | nil => rfl
  | cons item rest ih =>
    cases item with
    | instr i => simpa using ih absent
    | label l' =>
      simp only [binds_label, List.mem_cons, not_or] at absent
      rw [exec_seeking_label, if_neg absent.1]
      exact ih absent.2

/-! ### Properties of every executed instruction -/

/-- `P` holds of every instruction that is executed, in the state it is executed in. -/
def Always (P : ι → σ → Prop) : List (Item ι) → Mode σ ε → Prop
  | [], _ => True
  | item :: rest, m =>
    (∀ i s, item = .instr i → m = .running s → P i s) ∧ Always P rest (advance step m item)

theorem always_append (P : ι → σ → Prop) (xs ys : List (Item ι)) (m : Mode σ ε) :
    Always step P (xs ++ ys) m ↔ Always step P xs m ∧ Always step P ys (exec step xs m) := by
  induction xs generalizing m with
  | nil => simp [Always]
  | cons item rest ih =>
    simp only [List.cons_append, Always, ih, exec, List.foldl_cons, and_assoc]

@[simp] theorem always_nil (P : ι → σ → Prop) (m : Mode σ ε) : Always step P [] m := trivial

@[simp] theorem always_instr (P : ι → σ → Prop) (i : ι) (rest : List (Item ι)) (s : σ) :
    Always step P (.instr i :: rest) (.running s) ↔ P i s ∧ Always step P rest (step i s).mode := by
  simp [Always, advance]

@[simp] theorem always_label (P : ι → σ → Prop) (l : Nat) (rest : List (Item ι)) (s : σ) :
    Always step P (.label l :: rest) (.running s) ↔ Always step P rest (.running s) := by
  simp [Always, advance]

@[simp] theorem always_seeking_instr (P : ι → σ → Prop) (l : Nat) (i : ι)
    (rest : List (Item ι)) (s : σ) :
    Always step P (.instr i :: rest) (.seeking l s) ↔ Always step P rest (.seeking l s) := by
  simp [Always, advance]

@[simp] theorem always_seeking_label (P : ι → σ → Prop) (l l' : Nat) (rest : List (Item ι))
    (s : σ) :
    Always step P (.label l' :: rest) (.seeking l s)
      ↔ Always step P rest (if l = l' then .running s else .seeking l s) := by
  simp [Always, advance]

@[simp] theorem always_left (P : ι → σ → Prop) (code : List (Item ι)) (e : ε) (s : σ) :
    Always step P code (.left e s) := by
  induction code with
  | nil => trivial
  | cons item rest ih => exact ⟨fun _ _ _ h => (by cases h), ih⟩

@[simp] theorem always_faulted (P : ι → σ → Prop) (code : List (Item ι)) :
    Always step P code (.faulted : Mode σ ε) := by
  induction code with
  | nil => trivial
  | cons item rest ih => exact ⟨fun _ _ _ h => (by cases h), ih⟩

/-- Nothing is executed while a jump passes over a fragment. -/
theorem always_seeking_of_notMem (P : ι → σ → Prop) (code : List (Item ι)) (l : Nat) (s : σ)
    (absent : l ∉ binds code) : Always step P code (.seeking l s) := by
  induction code with
  | nil => trivial
  | cons item rest ih =>
    cases item with
    | instr i => exact (always_seeking_instr step P l i rest s).mpr (ih absent)
    | label l' =>
      simp only [binds_label, List.mem_cons, not_or] at absent
      rw [always_seeking_label, if_neg absent.1]
      exact ih absent.2

theorem Always.mono {step : ι → σ → Effect σ ε} {P Q : ι → σ → Prop} {code : List (Item ι)}
    {m : Mode σ ε} (weaker : ∀ i s, P i s → Q i s) (always : Always step P code m) :
    Always step Q code m := by
  induction code generalizing m with
  | nil => trivial
  | cons item rest ih => exact ⟨fun i s here running => weaker i s (always.1 i s here running), ih always.2⟩

/-! ### Properties of the state -/

/-- `Q` holds of the state of a machine that did not fault. -/
def Mode.Holds (Q : σ → Prop) : Mode σ ε → Prop
  | .running s | .seeking _ s | .left _ s => Q s
  | .faulted => True

/-- What no instruction of the code breaks holds behind it. -/
theorem exec_keeps {step : ι → σ → Effect σ ε} {Q : σ → Prop} {code : List (Item ι)}
    (keeps : ∀ i, .instr i ∈ code → ∀ s, Q s → (step i s).mode.Holds Q) {m : Mode σ ε}
    (holds : m.Holds Q) : (exec step code m).Holds Q := by
  induction code generalizing m with
  | nil => exact holds
  | cons item rest ih =>
    refine ih (fun i member => keeps i (List.mem_cons_of_mem _ member)) ?_
    cases m with
    | running s =>
      cases item with
      | instr i => exact keeps i List.mem_cons_self s holds
      | label l => exact holds
    -- a jump on its way skips instructions and stops at its label
    | seeking l s =>
      cases item with
      | instr i => exact holds
      | label l' =>
        simp only [advance]
        split <;> exact holds
    | left e s => exact holds
    | faulted => trivial

/-! ### The machine with an instruction index -/

/-- A configuration of the indexed machine: at an item, or gone. -/
inductive Config (σ ε : Type) where
  | at (index : Nat) (s : σ)
  | left (e : ε) (s : σ)

/-- One step of the machine that holds the whole code and looks labels up in it. -/
inductive Step (code : List (Item ι)) : Config σ ε → Config σ ε → Prop
  | label {n l s} (item : code[n]? = some (.label l)) : Step code (.at n s) (.at (n + 1) s)
  | next {n i s s'} (item : code[n]? = some (.instr i)) (effect : step i s = .next s') :
      Step code (.at n s) (.at (n + 1) s')
  | jump {n i s l s' target} (item : code[n]? = some (.instr i))
      (effect : step i s = .jump l s') (bound : code[target]? = some (.label l)) :
      Step code (.at n s) (.at target s')
  | leave {n i s e s'} (item : code[n]? = some (.instr i)) (effect : step i s = .leave e s') :
      Step code (.at n s) (.left e s')

def Reaches (code : List (Item ι)) : Config σ ε → Config σ ε → Prop :=
  Relation.ReflTransGen (Step step code)

/-- Where the indexed machine stands when `exec` has passed over the first `n` items: at
item `n`, waiting for a label it jumped to from an earlier item, or gone. -/
private def Tracks (code : List (Item ι)) (start : σ) (n : Nat) : Mode σ ε → Prop
  | .running s => Reaches step code (.at 0 start) (.at n s)
  | .seeking l s =>
    ∀ target, code[target]? = some (.label l) → Reaches step code (.at 0 start) (.at target s)
  | .left e s => Reaches step code (.at 0 start) (.left e s)
  | .faulted => True

private theorem tracks_advance (code : List (Item ι)) (start : σ) (n : Nat) (item : Item ι)
    (here : code[n]? = some item) (m : Mode σ ε) (tracks : Tracks step code start n m) :
    Tracks step code start (n + 1) (advance step m item) := by
  -- the item at `n` is one step of the code there, or is passed over while a label is sought
  cases m with
  | running s =>
    cases item with
    | label l => exact tracks.tail (.label here)
    | instr i =>
      simp only [advance]
      cases effect : step i s with
      | next s' => exact tracks.tail (.next here effect)
      | jump l s' => exact fun target bound => tracks.tail (.jump here effect bound)
      | leave e s' => exact tracks.tail (.leave here effect)
      | fault => trivial
  | seeking l s =>
    cases item with
    | instr i => exact tracks
    | label l' =>
      simp only [advance]
      split
      next equal =>
        subst equal
        exact (tracks n here).tail (.label here)
      next => exact tracks
  | left e s => exact tracks
  | faulted => trivial

/-- When `exec` leaves the code, the indexed machine started at the first item leaves it
in the same way. -/
theorem exec_reaches (code : List (Item ι)) (s s' : σ) (e : ε)
    (run : exec step code (.running s) = .left e s') :
    Reaches step code (.at 0 s) (.left e s') := by
  -- by induction on the code still to be executed, which starts at `before.length`
  have walk : ∀ rest before m, code = before ++ rest →
      Tracks step code s before.length m →
      Tracks step code s code.length (exec step rest m) := by
    intro rest
    induction rest with
    | nil =>
      rintro before m rfl tracks
      simpa using tracks
    | cons item rest ih =>
      intro before m split tracks
      have here : code[before.length]? = some item := by simp [split]
      have moved := tracks_advance step code s before.length item here m tracks
      exact ih (before ++ [item]) _ (by simp [split]) (by simpa using moved)
  have final := walk code [] (.running s) rfl Relation.ReflTransGen.refl
  rwa [run] at final

/-! ### Runs that leave the code -/

variable {δ : Type} (deliver : ε → δ)

/-- What a run of the code from its first item delivers, if it leaves the code. -/
def runCode (code : List (Item ι)) (s : σ) : Option (δ × σ) :=
  match exec step code (.running s) with
  | .left e s' => some (deliver e, s')
  | _ => none

theorem runCode_eq_some {step : ι → σ → Effect σ ε} {deliver : ε → δ} {code : List (Item ι)} {s s' : σ} {d : δ} :
    runCode step deliver code s = some (d, s') ↔
      ∃ e, exec step code (.running s) = .left e s' ∧ deliver e = d := by
  unfold runCode
  cases ran : exec step code (.running s) with
  | left e t =>
    constructor
    · intro same
      cases same
      exact ⟨e, rfl, rfl⟩
    · rintro ⟨e', same, rfl⟩
      cases same
      rfl
  | running | seeking | faulted => exact iff_of_false nofun (by rintro ⟨e, same, -⟩; cases same)

end LinearCode
