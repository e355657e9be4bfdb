import Riscv64Emulator.Lib.LittleEndian

/-!
# A stack that grows down

The bytes below a stack pointer, in a memory addressed by words: what is pushed goes there, and
the rest of the memory stays.
-/
namespace Riscv64Emulator

/-- An address that is not one of the `n` bytes below `sp`. -/
def OffStack (sp : Word) (n : Nat) (a : Word) : Prop := (a - sp).toNat + n < 2 ^ 64

section OffStack

variable {sp a : Word} {n m : Nat}

theorem OffStack.mono (off : OffStack sp n a) (fewer : m ≤ n) : OffStack sp m a :=
  Nat.lt_of_le_of_lt (Nat.add_le_add_left fewer _) off

/-- What lies above the stack pointer. -/
theorem offStack_above (sp : Word) {k : Nat} (fits : k + n < 2 ^ 64) : OffStack sp n (sp + BitVec.ofNat 64 k) := by
  unfold OffStack
  have distance : sp + BitVec.ofNat 64 k - sp = BitVec.ofNat 64 k := by bv_omega
  rw [distance, BitVec.toNat_ofNat]
  omega

/-- The stack pointer moves down. -/
theorem OffStack.down (off : OffStack sp (n + m) a) : OffStack (sp - BitVec.ofNat 64 m) n a := by
  unfold OffStack at off ⊢
  have distance : a - (sp - BitVec.ofNat 64 m) = a - sp + BitVec.ofNat 64 m := by bv_omega
  rw [distance, BitVec.toNat_add, BitVec.toNat_ofNat]
  omega

/-- A push leaves what is off its eight bytes alone. -/
theorem storeWord_offStack (f : Word → Byte) (v : Word) (off : OffStack sp 8 a) :
    storeWord f (sp - 8) v a = f a := by
  refine storeWord_outside f (sp - 8) v ?_
  have distance : a - (sp - 8) = a - sp + 8 := by bv_omega
  unfold OffStack at off
  rw [distance, BitVec.toNat_add, show (8 : Word).toNat = 8 from rfl]
  omega

/-- Two words of the memory that do not overlap. -/
theorem loadWord_storeWord_apart (f : Word → Byte) (v : Word) {a b : Word} (behind : 8 ≤ (b - a).toNat)
    (before : 8 ≤ (a - b).toNat) : loadWord (storeWord f a v) b = loadWord f b := by
  refine loadWord_congr _ _ _ _ fun k low => storeWord_outside f a v ?_
  bv_omega

end OffStack

section Pair

variable (f : Word → Byte) (p v w : Word)

/-- Two words side by side. -/
def storePair : Word → Byte := storeWord (storeWord f p v) (p + 8) w

theorem storePair_outside {a : Word} (far : 16 ≤ (a - p).toNat) : storePair f p v w a = f a := by
  have second : 8 ≤ (a - (p + 8)).toNat := by bv_omega
  exact (storeWord_outside _ _ _ second).trans (storeWord_outside _ _ _ (by omega))

theorem loadWord_storePair : loadWord (storePair f p v w) p = v ∧ loadWord (storePair f p v w) (p + 8) = w := by
  constructor
  · refine (loadWord_congr _ _ _ _ fun k low => storeWord_outside _ _ _ ?_).trans (loadWord_storeWord f p v)
    bv_omega
  · exact loadWord_storeWord _ _ _

end Pair

end Riscv64Emulator
