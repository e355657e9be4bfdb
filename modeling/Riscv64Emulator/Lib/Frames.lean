import Mathlib.Tactic.Common

/-!
# Files of frames

A file of items, each written as a frame that a reader can tell the end of. The reader takes
one item after the other until it cannot go on. It gets back every item of a whole file, and
of a file that was cut off the items whose frames are complete.
-/
namespace Riscv64Emulator

/-- What a reader finds at one place of a file. -/
inductive Scan (α β ε : Type) where
  | item (x : β) (rest : List α)
  | stop (reason : ε)
deriving DecidableEq, Repr

/-- A reader that moves on with every item. -/
structure FrameReader (α β ε : Type) where
  next : List α → Scan α β ε
  forward : ∀ {file x rest}, next file = .item x rest → rest.length < file.length

namespace FrameReader

variable {α β ε : Type}

/-- The items up to the place where the reader stops. -/
def readAll (r : FrameReader α β ε) (file : List α) : List β × ε :=
  match _step : r.next file with
  | .item x rest =>
    let later := r.readAll rest
    (x :: later.1, later.2)
  | .stop reason => ([], reason)
termination_by file.length
decreasing_by exact r.forward ‹_›

/-- At this place the reader stops for one of the reasons it expects. -/
def StopsAt (r : FrameReader α β ε) (expected : ε → Prop) (file : List α) : Prop :=
  ∃ reason, r.next file = .stop reason ∧ expected reason

/-- The reader knows the frame of an item, and a piece of it from the whole. -/
structure Reads (r : FrameReader α β ε) (frame : β → List α) (expected : ε → Prop) (x : β) : Prop where
  whole : ∀ rest, r.next (frame x ++ rest) = .item x rest
  cut : ∀ k < (frame x).length, r.StopsAt expected ((frame x).take k)

/-- The first `m` of some frames are those that lie in the first `k` places. -/
structure Complete (frame : β → List α) (xs : List β) (k m : Nat) : Prop where
  counted : m ≤ xs.length
  inside : ((xs.take m).flatMap frame).length ≤ k
  beyond : m < xs.length → k < ((xs.take (m + 1)).flatMap frame).length

variable {r : FrameReader α β ε} {frame : β → List α} {expected : ε → Prop} {file rest : List α}
  {x : β} {xs : List β} {reason : ε}

theorem readAll_item (step : r.next file = .item x rest) :
    r.readAll file = (x :: (r.readAll rest).1, (r.readAll rest).2) := by
  rw [readAll]
  split
  next x' rest' found =>
    rw [step] at found
    cases found
    rfl
  next reason found =>
    rw [step] at found
    cases found

theorem readAll_stop (step : r.next file = .stop reason) : r.readAll file = ([], reason) := by
  rw [readAll]
  split
  next x' rest' found =>
    rw [step] at found
    cases found
  next reason' found =>
    rw [step] at found
    cases found
    rfl

/-- The frames at the start of a file. -/
theorem readAll_frames (reads : ∀ x ∈ xs, r.Reads frame expected x) (tail : List α) :
    r.readAll (xs.flatMap frame ++ tail) = (xs ++ (r.readAll tail).1, (r.readAll tail).2) := by
  induction xs with
  | nil => rfl
  | cons x xs ih =>
    rw [List.flatMap_cons, List.append_assoc,
      readAll_item ((reads x List.mem_cons_self).whole _),
      ih fun y member => reads y (List.mem_cons_of_mem _ member)]
    rfl

/-- A file of frames, cut off anywhere. -/
theorem readAll_cut (reads : ∀ x ∈ xs, r.Reads frame expected x) (ends : r.StopsAt expected []) (k : Nat) :
    ∃ m reason, r.readAll ((xs.flatMap frame).take k) = (xs.take m, reason) ∧ expected reason ∧
      Complete frame xs k m := by
  induction xs generalizing k with
  | nil =>
    obtain ⟨reason, step, regular⟩ := ends
    refine ⟨0, reason, ?_, regular, Nat.le_refl _, Nat.zero_le _, fun more => absurd more (Nat.lt_irrefl _)⟩
    rw [List.flatMap_nil, List.take_nil, List.take_nil]
    exact readAll_stop step
  | cons x xs ih =>
    have here := reads x List.mem_cons_self
    rw [List.flatMap_cons, List.take_append]
    by_cases inside : (frame x).length ≤ k
    · -- the first frame is complete, and the rest is a shorter file
      obtain ⟨m, reason, read, regular, complete⟩ :=
        ih (fun y member => reads y (List.mem_cons_of_mem _ member)) (k - (frame x).length)
      refine ⟨m + 1, reason, ?_, regular, Nat.succ_le_succ complete.counted, ?_, fun more => ?_⟩
      · rw [List.take_of_length_le inside, readAll_item (here.whole _), read]
        rfl
      · have fits := complete.inside
        rw [List.take_succ_cons, List.flatMap_cons, List.length_append]
        omega
      · have next := complete.beyond (Nat.lt_of_succ_lt_succ more)
        rw [List.take_succ_cons, List.flatMap_cons, List.length_append]
        omega
    · obtain ⟨reason, step, regular⟩ := here.cut k (Nat.not_le.mp inside)
      refine ⟨0, reason, ?_, regular, Nat.zero_le _, Nat.zero_le _, fun _ => ?_⟩
      · rw [Nat.sub_eq_zero_of_le (Nat.le_of_not_le inside), List.take_zero, List.append_nil]
        exact readAll_stop step
      · rw [List.take_succ_cons, List.take_zero, List.flatMap_cons, List.flatMap_nil, List.append_nil]
        exact Nat.not_le.mp inside

/-- Where all frames but the last are inside, they are complete. -/
theorem Complete.of_last {k m : Nat} (complete : Complete frame (xs ++ [x]) k m)
    (inside : (xs.flatMap frame).length ≤ k) : xs.length ≤ m := by
  by_contra fewer
  have beyond := complete.beyond (by rw [List.length_append]; omega)
  rw [List.take_append_of_le_length (by omega)] at beyond
  have whole := congrArg (fun ys => (ys.flatMap frame).length) (List.take_append_drop (m + 1) xs)
  rw [List.flatMap_append, List.length_append] at whole
  omega

end FrameReader

end Riscv64Emulator
