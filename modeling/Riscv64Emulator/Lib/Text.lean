import Mathlib.Data.Int.Basic
import Mathlib.Data.List.Basic

/-!
# Texts that can be read back

Numbers in hexadecimal, and fields one after the other. A field is found again where what ends it
cannot be a part of it.
-/
namespace Text

/-! ### Fields -/

section Fields

variable {α : Type} {separator : α} {x y xs ys : List α}

/-- A field ends at the first separator. -/
theorem field_inj (inside : separator ∉ x) (inside' : separator ∉ y)
    (same : x ++ separator :: xs = y ++ separator :: ys) : x = y ∧ xs = ys := by
  induction x generalizing y with
  | nil =>
    cases y with
    | nil => simpa using same
    | cons c y =>
      simp only [List.nil_append, List.cons_append, List.cons.injEq] at same
      simp [same.1] at inside'
  | cons c x ih =>
    cases y with
    | nil =>
      simp only [List.nil_append, List.cons_append, List.cons.injEq] at same
      simp [same.1] at inside
    | cons d y =>
      simp only [List.cons_append, List.cons.injEq, List.mem_cons, not_or] at same inside inside'
      obtain ⟨first, rest⟩ := ih inside.2 inside'.2 same.2
      simp [same.1, first, rest]

/-- Entries, each with its end. -/
def terminated (separator : α) (entries : List (List α)) : List α :=
  entries.flatMap fun entry => entry ++ [separator]

@[simp] theorem terminated_nil : terminated separator ([] : List (List α)) = [] := rfl

@[simp] theorem terminated_cons (entries : List (List α)) :
    terminated separator (x :: entries) = x ++ separator :: terminated separator entries := by
  simp [terminated]

theorem terminated_inj {entries entries' : List (List α)} (inside : ∀ x ∈ entries, separator ∉ x)
    (inside' : ∀ x ∈ entries', separator ∉ x)
    (same : terminated separator entries = terminated separator entries') : entries = entries' := by
  induction entries generalizing entries' with
  | nil =>
    cases entries' with
    | nil => rfl
    | cons y rest' => simp at same
  | cons x rest ih =>
    cases entries' with
    | nil => simp at same
    | cons y rest' =>
      simp only [List.mem_cons, forall_eq_or_imp, terminated_cons] at inside inside' same
      obtain ⟨first, others⟩ := field_inj inside.1 inside'.1 same
      rw [first, ih inside.2 inside'.2 others]

end Fields

/-! ### Numbers -/

/-- A number in hexadecimal, with lower case digits. -/
def hex (n : Nat) : String := String.ofList (Nat.toDigits 16 n)

/-- A number after its sign and `0x`. -/
def prefixedHex (z : Int) : String := (if z < 0 then "-" else "") ++ "0x" ++ hex z.natAbs

@[simp] theorem toList_hex (n : Nat) : (hex n).toList = Nat.toDigits 16 n := by simp [hex]

theorem digitChar_inj {d e : Nat} (small : d < 16) (small' : e < 16)
    (same : d.digitChar = e.digitChar) : d = e := by
  have table : ∀ d < 16, ∀ e < 16, d.digitChar = e.digitChar → d = e := by decide
  exact table d small e small' same

/-- The digits are compared from the last one on: it is the remainder, the others are the quotient. -/
theorem toDigits_inj {n m : Nat} (same : Nat.toDigits 16 n = Nat.toDigits 16 m) : n = m := by
  induction n using Nat.strongRecOn generalizing m with
  | ind n ih =>
    rw [Nat.toDigits_eq_if (by decide), Nat.toDigits_eq_if (n := m) (by decide)] at same
    split at same <;> split at same
    next small small' =>
      simp only [List.cons.injEq, and_true] at same
      exact digitChar_inj small small' same
    next small large =>
      -- one digit against more
      have some := Nat.length_toDigits_pos (b := 16) (n := m / 16)
      have lengths := congrArg List.length same
      simp only [List.length_append, List.length_cons, List.length_nil] at lengths
      omega
    next large small =>
      have some := Nat.length_toDigits_pos (b := 16) (n := n / 16)
      have lengths := congrArg List.length same
      simp only [List.length_append, List.length_cons, List.length_nil] at lengths
      omega
    next large large' =>
      -- the last digits are the remainders, those in front of them the quotients
      obtain ⟨quotient, remainder⟩ := List.append_inj' same rfl
      simp only [List.cons.injEq, and_true] at remainder
      have first := ih (n / 16) (by omega) quotient
      have last := digitChar_inj (Nat.mod_lt n (by decide)) (Nat.mod_lt m (by decide)) remainder
      omega

theorem hex_inj {n m : Nat} (same : hex n = hex m) : n = m := by
  apply toDigits_inj
  rw [← toList_hex, same, toList_hex]

/-- What a digit is. -/
theorem mem_hex {n : Nat} {c : Char} (digit : c ∈ (hex n).toList) : c ∈ "0123456789abcdef".toList := by
  have table : ∀ d < 16, d.digitChar ∈ "0123456789abcdef".toList := by decide
  induction n using Nat.strongRecOn with
  | ind n ih =>
    rw [toList_hex, Nat.toDigits_eq_if (by decide)] at digit
    split at digit
    next small =>
      rw [List.mem_singleton.mp digit]
      exact table n small
    next large =>
      rcases List.mem_append.mp digit with other | last
      · rw [← toList_hex] at other
        exact ih (n / 16) (by omega) other
      · rw [List.mem_singleton.mp last]
        exact table (n % 16) (Nat.mod_lt n (by decide))

/-- What is no digit is not in a number. -/
theorem notMem_hex {n : Nat} {c : Char} (other : c ∉ "0123456789abcdef".toList) :
    c ∉ (hex n).toList := fun digit => other (mem_hex digit)

theorem prefixedHex_inj {y z : Int} (same : prefixedHex y = prefixedHex z) : y = z := by
  have texts := congrArg String.toList same
  have sign : (y < 0 ↔ z < 0) := by
    by_cases negative : y < 0 <;> by_cases negative' : z < 0 <;>
      simp [prefixedHex, negative, negative', String.toList_append] at texts ⊢
  have magnitude : y.natAbs = z.natAbs := by
    apply toDigits_inj
    by_cases negative : y < 0
    · simpa [prefixedHex, negative, sign.mp negative, String.toList_append] using texts
    · simpa [prefixedHex, negative, mt sign.mpr negative, String.toList_append] using texts
  omega

/-- Nor in one with its sign and `0x`. -/
theorem notMem_prefixedHex {z : Int} {c : Char}
    (other : c ∉ '-' :: 'x' :: "0123456789abcdef".toList) : c ∉ (prefixedHex z).toList := by
  obtain ⟨sign, mark, digits⟩ : c ≠ '-' ∧ c ≠ 'x' ∧ c ∉ "0123456789abcdef".toList := by
    simpa only [List.mem_cons, not_or] using other
  have zero : c ≠ '0' := by
    rintro rfl
    exact digits (by decide)
  intro inside
  rw [prefixedHex, String.toList_append, String.toList_append, List.mem_append, List.mem_append] at inside
  rcases inside with (signed | marked) | number
  · split at signed <;> simp [sign] at signed
  · simp [mark, zero] at marked
  · exact digits (mem_hex number)

end Text
