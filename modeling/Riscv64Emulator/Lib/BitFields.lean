import Mathlib.Data.Nat.Notation

/-!
# Words made of bit fields

A word is put together from fields with shifts and read back with shifts and masks. A slice
of the fields is the field at its place, nothing elsewhere, and the slices of a word next to
each other are one wider slice.
-/
namespace BitFields

variable {W n m : Nat}

/-- The word with `v` at bit `lo` and zeros around it. -/
def field (W : Nat) (v : BitVec n) (lo : Nat) : BitVec W := v.setWidth W <<< lo

theorem getLsbD_field (v : BitVec n) (lo k : Nat) :
    (field W v lo).getLsbD k = (decide (k < W) && (decide (lo ≤ k) && v.getLsbD (k - lo))) := by
  simp only [field, BitVec.getLsbD_shiftLeft, BitVec.getLsbD_setWidth]
  by_cases low : lo ≤ k
  · simp only [low, show ¬k < lo by omega, decide_true, decide_false, Bool.not_false, Bool.true_and]
    by_cases inside : k < W
    · simp [inside, show k - lo < W by omega]
    · simp [inside]
  · simp [low, show k < lo by omega]

theorem getElem_field (v : BitVec n) (lo k : Nat) (low : k < W) :
    (field W v lo)[k] = (decide (lo ≤ k) && v.getLsbD (k - lo)) := by
  rw [← BitVec.getLsbD_eq_getElem, getLsbD_field]
  simp [low]

/-- A shift and a mask read a slice. -/
theorem shift_and_mask (w : BitVec W) (lo : Nat) {n : Nat} {mask : BitVec W}
    (ones : ∀ k < W, mask.getLsbD k = decide (k < n)) :
    (w >>> lo) &&& mask = (w.extractLsb' lo n).setWidth W := by
  apply BitVec.eq_of_getLsbD_eq
  intro k low
  simp only [BitVec.getLsbD_and, BitVec.getLsbD_ushiftRight, ones k low, BitVec.getLsbD_setWidth,
    BitVec.getLsbD_extractLsb', low, decide_true, Bool.true_and, Bool.and_comm]

theorem slice_or (v w : BitVec W) (lo n : Nat) :
    (v ||| w).extractLsb' lo n = v.extractLsb' lo n ||| w.extractLsb' lo n := by
  apply BitVec.eq_of_getLsbD_eq
  intro k low
  simp [low]

/-- The slice at the place of a field is the field. -/
theorem slice_field_same (v : BitVec n) {lo : Nat} (fits : lo + n ≤ W) :
    (field W v lo).extractLsb' lo n = v := by
  apply BitVec.eq_of_getLsbD_eq
  intro k low
  simp only [BitVec.getLsbD_extractLsb', getLsbD_field, low, show lo + k < W by omega,
    Nat.le_add_right, Nat.add_sub_cancel_left, decide_true, Bool.true_and]

/-- A slice beside a field is empty. -/
theorem slice_field_other (v : BitVec n) {lo at' m : Nat} (apart : lo + m ≤ at' ∨ at' + n ≤ lo) :
    (field W v at').extractLsb' lo m = 0 := by
  apply BitVec.eq_of_getLsbD_eq
  intro k low
  simp only [BitVec.getLsbD_extractLsb', low, getLsbD_field, decide_true, Bool.true_and,
    BitVec.ofNat_eq_ofNat, BitVec.getLsbD_zero]
  rcases apart with before | behind
  · simp [show ¬at' ≤ lo + k by omega]
  · simp [BitVec.getLsbD_of_ge v (lo + k - at') (by omega)]

/-- A slice of a slice. -/
theorem slice_slice (w : BitVec W) {lo n start len : Nat} (inside : start + len ≤ n) :
    (w.extractLsb' lo n).extractLsb' start len = w.extractLsb' (lo + start) len := by
  apply BitVec.eq_of_getLsbD_eq
  intro k low
  simp [low, show start + k < n by omega, Nat.add_assoc]

/-- A slice of an empty slice is empty. -/
theorem slice_empty {w : BitVec W} {lo n start len : Nat} (empty : w.extractLsb' lo n = 0)
    (after : lo ≤ start) (inside : start + len ≤ lo + n) : w.extractLsb' start len = 0 := by
  have part : (w.extractLsb' lo n).extractLsb' (start - lo) len
      = w.extractLsb' (lo + (start - lo)) len := slice_slice w (by omega)
  rw [empty, show lo + (start - lo) = start by omega] at part
  rw [← part]
  simp

theorem slices_empty {w : BitVec W} {lo n m : Nat} (low : w.extractLsb' lo n = 0)
    (high : w.extractLsb' (lo + n) m = 0) : w.extractLsb' lo (n + m) = 0 := by
  apply BitVec.eq_of_getLsbD_eq
  intro k inside
  by_cases first : k < n
  · have bit := congrArg (BitVec.getLsbD · k) low
    simpa [first, inside] using bit
  · have bit := congrArg (BitVec.getLsbD · (k - n)) high
    simpa [inside, show k - n < m by omega, show lo + n + (k - n) = lo + k by omega] using bit

/-- Neighbouring slices at neighbouring places are one slice. -/
theorem join_slices (w : BitVec W) {hi lo hi' lo' n m V : Nat} (next : hi = lo + n)
    (next' : hi' = lo' + n) :
    field V (w.extractLsb' hi m) hi' ||| field V (w.extractLsb' lo n) lo'
      = field V (w.extractLsb' lo (n + m)) lo' := by
  subst next next'
  apply BitVec.eq_of_getLsbD_eq
  intro k low
  simp only [BitVec.getLsbD_or, getLsbD_field, low, decide_true, Bool.true_and,
    BitVec.getLsbD_extractLsb']
  -- below both slices, in the low one, in the high one
  by_cases before : k < lo'
  · simp [show ¬lo' + n ≤ k by omega, show ¬lo' ≤ k by omega]
  · by_cases first : k < lo' + n
    · simp [show ¬lo' + n ≤ k by omega, show lo' ≤ k by omega, show k - lo' < n by omega,
        show k - lo' < n + m by omega]
    · have place : lo + n + (k - (lo' + n)) = lo + (k - lo') := by omega
      simp [show lo' + n ≤ k by omega, show lo' ≤ k by omega, show ¬k - lo' < n by omega, place,
        show k - (lo' + n) < m ↔ k - lo' < n + m by omega]

/-- A field of the whole width is the word. -/
theorem field_whole (w : BitVec W) : field W w 0 = w := by
  apply BitVec.eq_of_getLsbD_eq
  intro k low
  simp only [getLsbD_field, low, Nat.zero_le, Nat.sub_zero, decide_true, Bool.true_and]

/-- A word whose bit 0 is clear is its slice from bit 1. -/
theorem field_even (w : BitVec (W + 1)) (even : w.getLsbD 0 = false) :
    field (W + 1) (w.extractLsb' 1 W) 1 = w := by
  apply BitVec.eq_of_getLsbD_eq
  intro k low
  simp only [getLsbD_field, BitVec.getLsbD_extractLsb', low, decide_true, Bool.true_and]
  cases k with
  | zero => simpa using even.symm
  | succ k => simp [show k < W by omega, Nat.add_comm 1 k]

end BitFields
