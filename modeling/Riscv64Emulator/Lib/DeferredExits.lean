import Riscv64Emulator.Lib.Emitter

/-!
# Code with deferred exits

A generator that defers exits emits their code behind everything else, each under its own
label. A fragment then ends in one of four ways: it runs on into what follows
(`Continues`), it is under way to a label (`Seeks`), it leaves the code, at once or through
one of its exits (`Leaves`), or it faults (`Faults`). The lemmas say how these compose when
fragments and their exits are put together.
-/
namespace LinearCode

variable {ι σ ε χ : Type} (step : ι → σ → Effect σ ε) (P : ι → σ → Prop)

/-- The code runs to its end. -/
structure Continues (code : List (Item ι)) (s s' : σ) : Prop where
  runs : exec step code (.running s) = .running s'
  always : Always step P code (.running s)

/-- The code jumps to a label that is not bound in it. -/
structure Seeks (code : List (Item ι)) (l : Nat) (s s' : σ) : Prop where
  runs : exec step code (.running s) = .seeking l s'
  always : Always step P code (.running s)

/-- The code leaves from its own instructions. -/
structure Quits (code : List (Item ι)) (s : σ) (e : ε) (s' : σ) : Prop where
  runs : exec step code (.running s) = .left e s'
  always : Always step P code (.running s)

structure Faults (code : List (Item ι)) (s : σ) : Prop where
  runs : exec step code (.running s) = .faulted
  always : Always step P code (.running s)

theorem Quits.runCode {δ : Type} {step : ι → σ → Effect σ ε} {P : ι → σ → Prop} {code : List (Item ι)} {s s' : σ}
    {e : ε} (quits : Quits step P code s e s') (deliver : ε → δ) :
    runCode step deliver code s = some (deliver e, s') :=
  runCode_eq_some.mpr ⟨e, quits.runs, rfl⟩

theorem Faults.runCode {δ : Type} {step : ι → σ → Effect σ ε} {P : ι → σ → Prop} {code : List (Item ι)} {s : σ}
    (faults : Faults step P code s) (deliver : ε → δ) : runCode step deliver code s = none := by
  unfold LinearCode.runCode
  rw [faults.runs]

/-- The code, followed by the code of its exits, leaves with `e`, and not by running on
from its own end. -/
structure Leaves (exitCode : χ → List (Item ι)) (code : List (Item ι)) (exits : List χ) (s : σ)
    (e : ε) (s' : σ) : Prop where
  runs : exec step (code ++ exits.flatMap exitCode) (.running s) = .left e s'
  always : Always step P (code ++ exits.flatMap exitCode) (.running s)
  stops : ∀ t, exec step code (.running s) ≠ .running t

/-- Every exit's code binds the exit's label and no other. -/
def BindsOwn (exitCode : χ → List (Item ι)) (label : χ → Nat) : Prop :=
  ∀ e, binds (exitCode e) = [label e]

theorem binds_flatMap {exitCode : χ → List (Item ι)} {label : χ → Nat}
    (own : BindsOwn exitCode label) (exits : List χ) :
    binds (exits.flatMap exitCode) = exits.map label := by
  induction exits with
  | nil => rfl
  | cons e rest ih => rw [List.flatMap_cons, binds_append, own e, ih]; rfl

variable {step P}

namespace Continues

variable {code code₁ code₂ : List (Item ι)} {s s₁ s₂ : σ}

theorem nil (s : σ) : Continues step P [] s s := ⟨rfl, trivial⟩

theorem label (l : Nat) (s : σ) : Continues step P [.label l] s s :=
  ⟨rfl, by simp⟩

theorem append (first : Continues step P code₁ s s₁) (second : Continues step P code₂ s₁ s₂) :
    Continues step P (code₁ ++ code₂) s s₂ where
  runs := by rw [exec_append, first.runs, second.runs]
  always := by
    rw [always_append, first.runs]
    exact ⟨first.always, second.always⟩

theorem seeks (first : Continues step P code₁ s s₁) {l : Nat}
    (second : Seeks step P code₂ l s₁ s₂) : Seeks step P (code₁ ++ code₂) l s s₂ where
  runs := by rw [exec_append, first.runs, second.runs]
  always := by
    rw [always_append, first.runs]
    exact ⟨first.always, second.always⟩

theorem faults (first : Continues step P code₁ s s₁) (second : Faults step P code₂ s₁) :
    Faults step P (code₁ ++ code₂) s where
  runs := by rw [exec_append, first.runs, second.runs]
  always := by
    rw [always_append, first.runs]
    exact ⟨first.always, second.always⟩

end Continues

theorem Faults.append {code₁ code₂ : List (Item ι)} {s : σ} (first : Faults step P code₁ s) :
    Faults step P (code₁ ++ code₂) s where
  runs := by rw [exec_append, first.runs, exec_faulted]
  always := by
    rw [always_append, first.runs]
    exact ⟨first.always, always_faulted ..⟩

section Instruction

variable {i : ι} {rest : List (Item ι)} {s s₁ s₂ : σ} (accepted : P i s)
include accepted

theorem Continues.cons (next : step i s = .next s₁) (continues : Continues step P rest s₁ s₂) :
    Continues step P (.instr i :: rest) s s₂ where
  runs := by rw [exec_instr, next]; exact continues.runs
  always := by rw [always_instr, next]; exact ⟨accepted, continues.always⟩

theorem Seeks.cons {l : Nat} (next : step i s = .next s₁) (seeks : Seeks step P rest l s₁ s₂) :
    Seeks step P (.instr i :: rest) l s s₂ where
  runs := by rw [exec_instr, next]; exact seeks.runs
  always := by rw [always_instr, next]; exact ⟨accepted, seeks.always⟩

theorem Quits.cons {e : ε} (next : step i s = .next s₁) (quits : Quits step P rest s₁ e s₂) :
    Quits step P (.instr i :: rest) s e s₂ where
  runs := by rw [exec_instr, next]; exact quits.runs
  always := by rw [always_instr, next]; exact ⟨accepted, quits.always⟩

theorem Faults.cons (next : step i s = .next s₁) (faults : Faults step P rest s₁) :
    Faults step P (.instr i :: rest) s where
  runs := by rw [exec_instr, next]; exact faults.runs
  always := by rw [always_instr, next]; exact ⟨accepted, faults.always⟩

/-- A jump past the rest of the code. -/
theorem Seeks.jump {l : Nat} (jumps : step i s = .jump l s₁) (absent : l ∉ binds rest) :
    Seeks step P (.instr i :: rest) l s s₁ where
  runs := by
    rw [exec_instr, jumps]
    exact exec_seeking_of_notMem step rest l s₁ absent
  always := by
    rw [always_instr, jumps]
    exact ⟨accepted, always_seeking_of_notMem step P rest l s₁ absent⟩

theorem Quits.leave {e : ε} (leaves : step i s = .leave e s₁) :
    Quits step P (.instr i :: rest) s e s₁ where
  runs := by rw [exec_instr, leaves]; exact exec_left ..
  always := by rw [always_instr, leaves]; exact ⟨accepted, always_left ..⟩

theorem Faults.fault (faults : step i s = .fault) : Faults step P (.instr i :: rest) s where
  runs := by rw [exec_instr, faults]; exact exec_faulted ..
  always := by rw [always_instr, faults]; exact ⟨accepted, always_faulted ..⟩

end Instruction

/-- A jump passes over code that does not bind its label. -/
theorem Seeks.pass {code₁ code₂ : List (Item ι)} {l : Nat} {s s₁ : σ}
    (first : Seeks step P code₁ l s s₁) (absent : l ∉ binds code₂) :
    Seeks step P (code₁ ++ code₂) l s s₁ where
  runs := by rw [exec_append, first.runs, exec_seeking_of_notMem step code₂ l s₁ absent]
  always := by
    rw [always_append, first.runs]
    exact ⟨first.always, always_seeking_of_notMem step P code₂ l s₁ absent⟩

/-- A jump arrives at its label. -/
theorem Seeks.arrive {code : List (Item ι)} {l : Nat} {s s₁ : σ}
    (first : Seeks step P code l s s₁) : Continues step P (code ++ [.label l]) s s₁ where
  runs := by simp [first.runs]
  always := by
    rw [always_append, first.runs]
    exact ⟨first.always, by simp⟩

/-- A jump to the label of a pending exit leaves as the exit's code does. -/
theorem Seeks.leaves {exitCode : χ → List (Item ι)} {code rest : List (Item ι)} {l : Nat}
    {s s₁ s₂ : σ} {exit : χ} {e : ε} (first : Seeks step P code l s s₁)
    (shape : exitCode exit = .label l :: rest) (quits : Quits step P rest s₁ e s₂) :
    Leaves step P exitCode code [exit] s e s₂ where
  runs := by simp [first.runs, shape, quits.runs]
  always := by
    rw [always_append, first.runs]
    exact ⟨first.always, by simpa [shape] using quits.always⟩
  stops := by
    intro t running
    rw [first.runs] at running
    cases running

section Exits

variable {exitCode : χ → List (Item ι)} {label : χ → Nat} (own : BindsOwn exitCode label)
include own

/-- What follows a fragment that leaves does not matter. -/
theorem Leaves.append {code₁ code₂ : List (Item ι)} {exits₁ : List χ} {s s' : σ} {e : ε}
    (first : Leaves step P exitCode code₁ exits₁ s e s') (exits₂ : List χ)
    (apart : ∀ exit ∈ exits₁, label exit ∉ binds code₂) :
    Leaves step P exitCode (code₁ ++ code₂) (exits₁ ++ exits₂) s e s' := by
  have runs := first.runs
  have always := first.always
  rw [exec_append] at runs
  rw [always_append] at always
  -- the mode at the end of the first fragment passes the second unchanged
  have pass : exec step code₂ (exec step code₁ (.running s)) = exec step code₁ (.running s) ∧
      Always step P code₂ (exec step code₁ (.running s)) := by
    cases mode : exec step code₁ (.running s) with
    | running t => exact absurd mode (first.stops t)
    | left e t => exact ⟨exec_left .., always_left ..⟩
    | faulted => exact ⟨exec_faulted .., always_faulted ..⟩
    | seeking l t =>
      have absent : l ∉ binds code₂ := by
        by_cases member : l ∈ exits₁.map label
        · obtain ⟨exit, listed, rfl⟩ := List.mem_map.mp member
          exact apart exit listed
        · rw [mode, exec_seeking_of_notMem] at runs
          · cases runs
          · rwa [binds_flatMap own]
      exact ⟨exec_seeking_of_notMem _ _ _ _ absent, always_seeking_of_notMem _ _ _ _ _ absent⟩
  refine ⟨?_, ?_, fun t => ?_⟩
  · rw [List.flatMap_append, exec_append, exec_append, exec_append, pass.1, runs, exec_left]
  · rw [List.flatMap_append, always_append, always_append, always_append, exec_append, pass.1, runs]
    exact ⟨⟨always.1, pass.2⟩, always.2, always_left ..⟩
  · rw [exec_append, pass.1]
    exact first.stops t

/-- A fragment in front of one that leaves, with exits of its own under other labels. -/
theorem Continues.leaves {code₁ code₂ : List (Item ι)} {exits₂ : List χ} {s s₁ s' : σ}
    {e : ε} (first : Continues step P code₁ s s₁) (exits₁ : List χ)
    (second : Leaves step P exitCode code₂ exits₂ s₁ e s')
    (apart : ∀ exit ∈ exits₂, label exit ∉ exits₁.map label) :
    Leaves step P exitCode (code₁ ++ code₂) (exits₁ ++ exits₂) s e s' := by
  have runs := second.runs
  have always := second.always
  rw [exec_append] at runs
  rw [always_append] at always
  -- the mode at the end of the second fragment passes the exits of the first
  have pass : exec step (exits₁.flatMap exitCode) (exec step code₂ (.running s₁))
        = exec step code₂ (.running s₁) ∧
      Always step P (exits₁.flatMap exitCode) (exec step code₂ (.running s₁)) := by
    cases mode : exec step code₂ (.running s₁) with
    | running t => exact absurd mode (second.stops t)
    | left e t => exact ⟨exec_left .., always_left ..⟩
    | faulted => exact ⟨exec_faulted .., always_faulted ..⟩
    | seeking l t =>
      have absent : l ∉ binds (exits₁.flatMap exitCode) := by
        rw [binds_flatMap own]
        by_cases member : l ∈ exits₂.map label
        · obtain ⟨exit, listed, rfl⟩ := List.mem_map.mp member
          exact apart exit listed
        · rw [mode, exec_seeking_of_notMem] at runs
          · cases runs
          · rwa [binds_flatMap own]
      exact ⟨exec_seeking_of_notMem _ _ _ _ absent, always_seeking_of_notMem _ _ _ _ _ absent⟩
  refine ⟨?_, ?_, fun t => ?_⟩
  · rw [List.flatMap_append, exec_append, exec_append, exec_append, first.runs, pass.1, runs]
  · rw [List.flatMap_append, always_append, always_append, always_append, exec_append, first.runs,
      pass.1]
    exact ⟨⟨first.always, always.1⟩, pass.2, always.2⟩
  · rw [exec_append, first.runs]
    exact second.stops t

end Exits

/-- Code that leaves by itself does not look at its exits. -/
theorem Quits.leaves {code : List (Item ι)} {s s' : σ} {e : ε} (quits : Quits step P code s e s')
    (exitCode : χ → List (Item ι)) (exits : List χ) :
    Leaves step P exitCode code exits s e s' where
  runs := by rw [exec_append, quits.runs, exec_left]
  always := by
    rw [always_append, quits.runs]
    exact ⟨quits.always, always_left ..⟩
  stops := by
    intro t running
    rw [quits.runs] at running
    cases running

end LinearCode
