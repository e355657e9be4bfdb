import Mathlib.Data.List.Basic
import Mathlib.Data.BitVec
import Mathlib.Tactic.Common

/-!
# Little-endian words in byte memories

A memory is a function from positions to bytes. `bytesAt` and `overwrite` are the reads
and writes of `memcpy`; `leValue` and `leBytes` convert between the bytes and the
unsigned 64-bit number they spell.
-/

abbrev Byte := BitVec 8
abbrev Word := BitVec 64

/-- The `n` bytes from position `a`. -/
def bytesAt (f : Nat → Byte) (a n : Nat) : List Byte :=
  (List.range n).map fun i => f (a + i)

/-- Copy `bs` to position `a`. -/
def overwrite (f : Nat → Byte) (a : Nat) (bs : List Byte) : Nat → Byte :=
  fun i => if a ≤ i then bs.getD (i - a) (f i) else f i

/-- The number spelled by bytes, least significant first. -/
def leValue : List Byte → Word
  | [] => 0
  | b :: bs => (leValue bs <<< 8) ||| b.setWidth 64

/-- The low `n` bytes of a number, least significant first. -/
def leBytes (n : Nat) (v : Word) : List Byte :=
  (List.range n).map fun i => (v >>> (8 * i)).setWidth 8

@[simp] theorem length_bytesAt (f : Nat → Byte) (a n : Nat) : (bytesAt f a n).length = n := by
  simp [bytesAt]

@[simp] theorem length_leBytes (n : Nat) (v : Word) : (leBytes n v).length = n := by
  simp [leBytes]

theorem getElem?_bytesAt (f : Nat → Byte) (a n i : Nat) :
    (bytesAt f a n)[i]? = if i < n then some (f (a + i)) else none := by
  by_cases inside : i < n <;> simp [bytesAt, inside]

theorem overwrite_outside (f : Nat → Byte) (a : Nat) (bs : List Byte) (i : Nat)
    (outside : i < a ∨ a + bs.length ≤ i) : overwrite f a bs i = f i := by
  unfold overwrite
  split
  next above =>
    have past : bs.length ≤ i - a := by omega
    simp [List.getD, List.getElem?_eq_none past]
  next => rfl

theorem overwrite_inside (f : Nat → Byte) (a : Nat) (bs : List Byte) (i : Nat)
    (inside : i < bs.length) : overwrite f a bs (a + i) = bs[i] := by
  simp [overwrite, List.getD, inside]

theorem bytesAt_succ (f : Nat → Byte) (a n : Nat) : bytesAt f a (n + 1) = f a :: bytesAt f (a + 1) n := by
  unfold bytesAt
  rw [List.range_succ_eq_map, List.map_cons, List.map_map, Nat.add_zero]
  congr 1
  exact List.map_congr_left fun i _ => by
    show f (a + (i + 1)) = f (a + 1 + i)
    rw [Nat.add_assoc, Nat.add_comm 1 i]

theorem overwrite_nil (f : Nat → Byte) (a : Nat) : overwrite f a [] = f := by
  funext i
  exact overwrite_outside f a [] i (by rw [List.length_nil]; omega)

/-- A copy, byte by byte. -/
theorem overwrite_bytesAt (f g : Nat → Byte) (a b n i : Nat) :
    overwrite f a (bytesAt g b n) i = if a ≤ i ∧ i < a + n then g (b + (i - a)) else f i := by
  split
  next inside =>
    have place := overwrite_inside f a (bytesAt g b n) (i - a) (by rw [length_bytesAt]; omega)
    rw [Nat.add_sub_cancel' inside.1] at place
    rw [place]
    simp [bytesAt]
  next outside => exact overwrite_outside _ _ _ _ (by rw [length_bytesAt]; omega)

/-- A fill, byte by byte. -/
theorem overwrite_replicate (f : Nat → Byte) (value : Byte) (a n i : Nat) :
    overwrite f a (List.replicate n value) i = if a ≤ i ∧ i < a + n then value else f i := by
  split
  next inside =>
    have place := overwrite_inside f a (List.replicate n value) (i - a)
      (by rw [List.length_replicate]; omega)
    rw [Nat.add_sub_cancel' inside.1] at place
    rw [place, List.getElem_replicate]
  next outside => exact overwrite_outside _ _ _ _ (by rw [List.length_replicate]; omega)

/-- Reading back what was just written. -/
theorem bytesAt_overwrite_same (f : Nat → Byte) (a : Nat) (bs : List Byte) :
    bytesAt (overwrite f a bs) a bs.length = bs := by
  apply List.ext_getElem?
  intro i
  rw [getElem?_bytesAt]
  split
  next inside => rw [overwrite_inside f a bs i inside, List.getElem?_eq_getElem inside]
  next outside => rw [List.getElem?_eq_none (Nat.le_of_not_lt outside)]

theorem getLsbD_leValue (bs : List Byte) (k : Nat) (low : k < 64) :
    (leValue bs).getLsbD k = (bs.getD (k / 8) 0).getLsbD (k % 8) := by
  induction bs generalizing k with
  | nil => simp [leValue]
  | cons b bs ih =>
    simp only [leValue, BitVec.getLsbD_or, BitVec.getLsbD_shiftLeft, BitVec.getLsbD_setWidth,
      low, decide_true, Bool.true_and]
    -- a bit of the first byte, or eight bits into the others
    by_cases first : k < 8
    · have div : k / 8 = 0 := by omega
      have mod : k % 8 = k := by omega
      simp [first, div, mod]
    · have div : k / 8 = (k - 8) / 8 + 1 := by omega
      have mod : k % 8 = (k - 8) % 8 := by omega
      have past : b.getLsbD k = false := BitVec.getLsbD_of_ge b k (by omega)
      rw [ih (k - 8) (by omega), div, mod]
      simp [first, past]

theorem leValue_leBytes (n : Nat) (v : Word) :
    leValue (leBytes n v) = (v.setWidth (8 * n)).setWidth 64 := by
  apply BitVec.eq_of_getLsbD_eq
  intro k low
  rw [getLsbD_leValue _ _ low]
  simp only [BitVec.getLsbD_setWidth, low, decide_true, Bool.true_and]
  by_cases inside : k / 8 < n
  · have place : 8 * (k / 8) + k % 8 = k := by omega
    simp [leBytes, List.getD, inside, show k < 8 * n by omega, place, Nat.mod_lt]
  · simp [leBytes, List.getD, inside, show ¬k < 8 * n by omega]

theorem leValue_lt (bs : List Byte) : (leValue bs).toNat < 2 ^ (8 * bs.length) := by
  apply Nat.lt_pow_two_of_testBit
  intro k high
  by_cases low : k < 64
  · have past : bs.length ≤ k / 8 := by omega
    have bit := getLsbD_leValue bs k low
    rw [List.getD, List.getElem?_eq_none past] at bit
    simpa [BitVec.getLsbD] using bit
  · exact BitVec.getLsbD_of_ge _ _ (Nat.le_of_not_lt low)

/-- Numbers of at most eight bytes determine their bytes. -/
theorem leValue_inj {xs ys : List Byte} (same : xs.length = ys.length) (short : xs.length ≤ 8)
    (equal : leValue xs = leValue ys) : xs = ys := by
  apply List.ext_getElem same
  intro i hx hy
  apply BitVec.eq_of_getLsbD_eq
  intro j hj
  have bit := congrArg (fun v => BitVec.getLsbD v (8 * i + j)) equal
  simp only [getLsbD_leValue _ (8 * i + j) (by omega)] at bit
  have div : (8 * i + j) / 8 = i := by omega
  have mod : (8 * i + j) % 8 = j := by omega
  simpa [div, mod, List.getD, hx, hy] using bit

/-- Masking two numbers masks them byte by byte. -/
theorem leValue_and (xs ys : List Byte) (same : xs.length = ys.length) :
    leValue xs &&& leValue ys = leValue (List.zipWith (· &&& ·) xs ys) := by
  induction xs generalizing ys with
  | nil => simp [leValue]
  | cons x xs ih =>
    cases ys with
    | nil => simp at same
    | cons y ys =>
      rw [List.zipWith_cons_cons, leValue, leValue, leValue, ← ih ys (by simpa using same)]
      apply BitVec.eq_of_getLsbD_eq
      intro k low
      simp only [BitVec.getLsbD_and, BitVec.getLsbD_or, BitVec.getLsbD_shiftLeft,
        BitVec.getLsbD_setWidth, low, decide_true, Bool.true_and]
      -- the heads share no bit with the shifted tails
      by_cases first : k < 8
      · simp [first]
      · simp [first, BitVec.getLsbD_of_ge x k (by omega), BitVec.getLsbD_of_ge y k (by omega)]

/-- A masked number equals the mask exactly when every byte carries the mask's byte. -/
theorem leValue_and_replicate (bs : List Byte) (flag : Byte) (short : bs.length ≤ 8) :
    leValue bs &&& leValue (List.replicate bs.length flag)
        = leValue (List.replicate bs.length flag)
      ↔ ∀ b ∈ bs, b &&& flag = flag := by
  rw [leValue_and _ _ (by simp)]
  constructor
  · intro equal b member
    -- at most eight bytes, so equal values are equal lists
    have lists := leValue_inj (by simp) (by simpa using short) equal
    obtain ⟨i, inside, rfl⟩ := List.getElem_of_mem member
    have entry := congrArg (fun l => l[i]?) lists
    simpa [inside] using entry
  · intro every
    congr 1
    apply List.ext_getElem (by simp)
    intro i hx hy
    have member : bs.get ⟨i, by simpa using hy⟩ ∈ bs := List.getElem_mem _
    simpa using every _ member

/-- The low bits of an address are clear exactly when it is aligned. -/
theorem and_mask_eq_zero (a : Word) {k : Nat} (small : k ≤ 3) :
    a &&& BitVec.ofNat 64 (2 ^ k - 1) = 0 ↔ a.toNat % 2 ^ k = 0 := by
  have value : (a &&& BitVec.ofNat 64 (2 ^ k - 1)).toNat = a.toNat % 2 ^ k := by
    rw [BitVec.toNat_and, BitVec.toNat_ofNat]
    rw [Nat.mod_eq_of_lt (a := 2 ^ k - 1)]
    · exact Nat.and_two_pow_sub_one_eq_mod _ k
    · rcases (show k = 0 ∨ k = 1 ∨ k = 2 ∨ k = 3 by omega) with rfl | rfl | rfl | rfl <;> decide
  rw [← value]
  exact ⟨fun zero => by rw [zero]; rfl, fun zero => BitVec.eq_of_toNat_eq zero⟩

/-! ### Memories addressed by words -/

section Words

variable (f g : Word → Byte) (a b v : Word)

/-- The eight bytes from an address on. -/
def loadWord : Word := leValue ((List.range 8).map fun k => f (a + BitVec.ofNat 64 k))

/-- Replace the eight bytes from an address on. -/
def storeWord : Word → Byte := fun b =>
  if (b - a).toNat < 8 then (v >>> (8 * (b - a).toNat)).setWidth 8 else f b

theorem storeWord_outside {b : Word} (outside : 8 ≤ (b - a).toNat) : storeWord f a v b = f b :=
  if_neg (by omega)

theorem loadWord_congr (same : ∀ k < 8, f (a + BitVec.ofNat 64 k) = g (b + BitVec.ofNat 64 k)) :
    loadWord f a = loadWord g b :=
  congrArg leValue (List.map_congr_left fun k member => same k (List.mem_range.mp member))

theorem loadWord_storeWord : loadWord (storeWord f a v) a = v := by
  have bytes : (List.range 8).map (fun k => storeWord f a v (a + BitVec.ofNat 64 k)) = leBytes 8 v := by
    refine List.map_congr_left fun k member => ?_
    have low := List.mem_range.mp member
    have distance : (a + BitVec.ofNat 64 k - a).toNat = k := by
      rw [BitVec.add_comm, BitVec.add_sub_cancel, BitVec.toNat_ofNat]
      omega
    rw [storeWord, distance, if_pos low]
  rw [loadWord, bytes, leValue_leBytes]
  exact (BitVec.setWidth_eq _).trans (BitVec.setWidth_eq v)

end Words
