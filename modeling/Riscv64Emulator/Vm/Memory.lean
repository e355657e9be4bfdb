import Riscv64Emulator.Lib.LittleEndian

/-!
# Guest memory

`Memory` of `src/vm/Memory.cpp`: one allocation of `2 * blockCount` 64-bit blocks whose
first half holds the contents and whose second half holds one permission byte for each
byte of contents. Addresses and sizes are 64-bit and every sum of the range test wraps,
as it does in the source.
-/
namespace Riscv64Emulator

/-- `MemoryFlags` is a set of bits stored in one byte. -/
abbrev MemoryFlags := Byte

namespace MemoryFlags
def none : MemoryFlags := 0
def read : MemoryFlags := 1
def write : MemoryFlags := 2
def execute : MemoryFlags := 4
end MemoryFlags

/-- The number of 64-bit blocks that hold `size` bytes. -/
def blockCount (size : Word) : Nat := ((size + 8 - 1) / 8).toNat

/-- The allocation is indexed from its first byte. `size_lt` says that rounding the size
up to whole blocks does not wrap. -/
structure Memory where
  size : Word
  allocation : Nat → Byte
  size_lt : size.toNat + 7 < 2 ^ 64

namespace Memory

/-- The constructor: `make_unique` clears both halves. -/
def create (size : Word) (size_lt : size.toNat + 7 < 2 ^ 64) : Memory :=
  ⟨size, fun _ => 0, size_lt⟩

/-- Offset of the permission half in the allocation. -/
def permissionsOffset (m : Memory) : Nat := 8 * blockCount m.size

def contents (m : Memory) (i : Nat) : Byte := m.allocation i

def permissions (m : Memory) (i : Nat) : MemoryFlags := m.allocation (m.permissionsOffset + i)

/-- The negated range test that opens all six operations. -/
def outOfRange (m : Memory) (address size : Word) : Bool :=
  m.size < address || m.size < address + size

/-- `read` without flags: the bytes `memcpy` copies out. -/
def read (m : Memory) (address size : Word) : Option (List Byte) :=
  if m.outOfRange address size then none
  else some (bytesAt m.allocation address.toNat size.toNat)

/-- `write` without flags. -/
def write (m : Memory) (address : Word) (data : List Byte) : Option Memory :=
  if m.outOfRange address (BitVec.ofNat 64 data.length) then none
  else some { m with allocation := overwrite m.allocation address.toNat data }

def verifyPermissions (m : Memory) (address size : Word) (requiredFlags : MemoryFlags) : Bool :=
  if m.outOfRange address size then false
  else (List.range size.toNat).all fun i =>
    m.permissions (address.toNat + i) &&& requiredFlags == requiredFlags

/-- `read` with flags. -/
def readChecked (m : Memory) (address : Word) (requiredFlags : MemoryFlags) (size : Word) :
    Option (List Byte) :=
  if m.outOfRange address size then none
  else if !m.verifyPermissions address size requiredFlags then none
  else some (bytesAt m.allocation address.toNat size.toNat)

/-- `write` with flags. -/
def writeChecked (m : Memory) (address : Word) (requiredFlags : MemoryFlags) (data : List Byte) :
    Option Memory :=
  if m.outOfRange address (BitVec.ofNat 64 data.length) then none
  else if !m.verifyPermissions address (BitVec.ofNat 64 data.length) requiredFlags then none
  else some { m with allocation := overwrite m.allocation address.toNat data }

/-- `memset` on the permission half. -/
def setPermissions (m : Memory) (address size : Word) (flags : MemoryFlags) : Option Memory :=
  if m.outOfRange address size then none
  else
    let start := m.permissionsOffset + address.toNat
    some { m with allocation := overwrite m.allocation start (List.replicate size.toNat flags) }

/-- The template `read<T>` for an unsigned `T` of `n` bytes. -/
def readT (m : Memory) (n : Nat) (address : Word) (requiredFlags : MemoryFlags) : Option Word :=
  (m.readChecked address requiredFlags (BitVec.ofNat 64 n)).map leValue

/-- The template `write<T>` for an unsigned `T` of `n` bytes. -/
def writeT (m : Memory) (n : Nat) (address : Word) (requiredFlags : MemoryFlags) (value : Word) :
    Option Memory :=
  m.writeChecked address requiredFlags (leBytes n value)

/-- A memory holding one image at address 0, all of it with the same permissions. -/
def ofImage (size : Word) (size_lt : size.toNat + 7 < 2 ^ 64) (image : List Byte)
    (flags : MemoryFlags) : Memory :=
  let cleared := create size size_lt
  let written := overwrite cleared.allocation 0 image
  let granted := List.replicate image.length flags
  { cleared with allocation := overwrite written cleared.permissionsOffset granted }

/-! ### The two halves -/

theorem blockCount_eq {size : Word} (bound : size.toNat + 7 < 2 ^ 64) :
    blockCount size = (size.toNat + 7) / 8 := by
  unfold blockCount
  have sum : (size + 8 - 1).toNat = size.toNat + 7 := by bv_omega
  rw [BitVec.toNat_udiv, sum]
  rfl

/-- The contents half holds every byte below the size. -/
theorem size_le_permissionsOffset (m : Memory) : m.size.toNat ≤ m.permissionsOffset := by
  unfold permissionsOffset
  rw [blockCount_eq m.size_lt]
  omega

@[simp] theorem permissionsOffset_mk (size : Word) (f : Nat → Byte) (h : size.toNat + 7 < 2 ^ 64) :
    (Memory.mk size f h).permissionsOffset = 8 * blockCount size := rfl

/-- Behind its image nothing has a permission. -/
theorem permissions_ofImage (size : Word) (size_lt : size.toNat + 7 < 2 ^ 64) (image : List Byte)
    (flags : MemoryFlags) {i : Nat} (behind : image.length ≤ i) :
    (ofImage size size_lt image flags).permissions i = 0 := by
  have offset : (ofImage size size_lt image flags).permissionsOffset
      = (create size size_lt).permissionsOffset := rfl
  unfold permissions
  rw [offset]
  unfold ofImage
  dsimp only
  rw [overwrite_outside _ _ _ _ (by rw [List.length_replicate]; omega),
    overwrite_outside _ _ _ _ (by omega)]
  rfl

/-- Without wrap-around the range test is exact. -/
theorem outOfRange_eq_false {m : Memory} {address size : Word}
    (small : address.toNat + size.toNat < 2 ^ 64) :
    m.outOfRange address size = false ↔ address.toNat + size.toNat ≤ m.size.toNat := by
  have sum : (address + size).toNat = address.toNat + size.toNat := by
    rw [BitVec.toNat_add, Nat.mod_eq_of_lt small]
  simp only [outOfRange, Bool.or_eq_false_iff, decide_eq_false_iff_not, BitVec.lt_def, sum]
  omega

theorem verifyPermissions_iff {m : Memory} {address size : Word} {flags : MemoryFlags} :
    m.verifyPermissions address size flags = true ↔
      m.outOfRange address size = false ∧
        ∀ i < size.toNat, m.permissions (address.toNat + i) &&& flags = flags := by
  unfold verifyPermissions
  cases m.outOfRange address size <;> simp

/-- A checked read succeeds exactly when `verify_permissions` does. -/
theorem readChecked_eq (m : Memory) (address : Word) (flags : MemoryFlags) (size : Word) :
    m.readChecked address flags size =
      if m.verifyPermissions address size flags
      then some (bytesAt m.allocation address.toNat size.toNat) else none := by
  unfold readChecked
  cases range : m.outOfRange address size with
  | true => simp [verifyPermissions, range]
  | false => cases m.verifyPermissions address size flags <;> simp

theorem writeChecked_eq (m : Memory) (address : Word) (flags : MemoryFlags) (data : List Byte) :
    m.writeChecked address flags data =
      if m.verifyPermissions address (BitVec.ofNat 64 data.length) flags
      then some { m with allocation := overwrite m.allocation address.toNat data } else none := by
  unfold writeChecked
  cases range : m.outOfRange address (BitVec.ofNat 64 data.length) with
  | true => simp [verifyPermissions, range]
  | false => cases m.verifyPermissions address (BitVec.ofNat 64 data.length) flags <;> simp

theorem readT_eq (m : Memory) (n : Nat) (address : Word) (flags : MemoryFlags) (small : n < 2 ^ 64) :
    m.readT n address flags =
      if m.verifyPermissions address (BitVec.ofNat 64 n) flags
      then some (leValue (bytesAt m.allocation address.toNat n)) else none := by
  unfold readT
  rw [readChecked_eq, BitVec.toNat_ofNat, Nat.mod_eq_of_lt small]
  split <;> rfl

theorem writeT_eq (m : Memory) (n : Nat) (address : Word) (flags : MemoryFlags) (value : Word) :
    m.writeT n address flags value =
      if m.verifyPermissions address (BitVec.ofNat 64 n) flags
      then some { m with allocation := overwrite m.allocation address.toNat (leBytes n value) }
      else none := by
  unfold writeT
  rw [writeChecked_eq, length_leBytes]

/-! ### Memories the program can build -/

/-- Memories reached from the constructor by writes and permission changes whose
`address + size` does not wrap. -/
inductive Reachable : Memory → Prop
  | create (size : Word) (size_lt : size.toNat + 7 < 2 ^ 64) : Reachable (create size size_lt)
  | write {m m' : Memory} {address : Word} {data : List Byte} (before : Reachable m)
      (small : address.toNat + data.length < 2 ^ 64) (ok : m.write address data = some m') :
      Reachable m'
  | writeChecked {m m' : Memory} {address : Word} {flags : MemoryFlags} {data : List Byte}
      (before : Reachable m) (small : address.toNat + data.length < 2 ^ 64)
      (ok : m.writeChecked address flags data = some m') : Reachable m'
  | setPermissions {m m' : Memory} {address size : Word} {flags : MemoryFlags}
      (before : Reachable m) (small : address.toNat + size.toNat < 2 ^ 64)
      (ok : m.setPermissions address size flags = some m') : Reachable m'

theorem Reachable.ofImage {size : Word} {size_lt : size.toNat + 7 < 2 ^ 64} {image : List Byte}
    {flags : MemoryFlags} (fits : image.length ≤ size.toNat) :
    Reachable (Memory.ofImage size size_lt image flags) := by
  have length : (BitVec.ofNat 64 image.length).toNat = image.length := by
    rw [BitVec.toNat_ofNat, Nat.mod_eq_of_lt (by omega)]
  have small : (0 : Word).toNat + (BitVec.ofNat 64 image.length).toNat < 2 ^ 64 := by
    rw [length, show (0 : Word).toNat = 0 from rfl]
    omega
  have inside (allocation : Nat → Byte) :
      (Memory.mk size allocation size_lt).outOfRange 0 (BitVec.ofNat 64 image.length) = false := by
    refine (outOfRange_eq_false small).mpr ?_
    rw [length, show (0 : Word).toNat = 0 from rfl, Nat.zero_add]
    exact fits
  -- an image is written by `write` into fresh memory and then given its flags
  have written : (Memory.create size size_lt).write 0 image
      = some ⟨size, overwrite (fun _ => 0) 0 image, size_lt⟩ := by
    unfold Memory.write
    rw [show (Memory.create size size_lt).outOfRange 0 _ = false from inside _]
    rfl
  have before : Reachable _ := .write (.create size size_lt) (by rwa [length] at small) written
  refine @Reachable.setPermissions _ _ 0 (BitVec.ofNat 64 image.length) flags before small ?_
  unfold Memory.setPermissions
  rw [inside]
  simp only [Bool.false_eq_true, if_false, length, Option.some.injEq]
  rfl

/-- The permission bytes that stand for no byte of the memory grant nothing. -/
def PaddingClear (m : Memory) : Prop := ∀ i, m.size.toNat ≤ i → m.permissions i = 0

/-- Writing below the size leaves every permission byte alone. -/
theorem permissions_overwrite (m : Memory) (a : Nat) (data : List Byte)
    (inside : a + data.length ≤ m.size.toNat) (i : Nat) :
    ({ m with allocation := overwrite m.allocation a data } : Memory).permissions i
      = m.permissions i := by
  have half := m.size_le_permissionsOffset
  exact overwrite_outside _ _ _ _ (Or.inr (by
    simp only [permissionsOffset] at half ⊢
    omega))

private theorem paddingClear_overwrite {m : Memory} {address : Word} {data : List Byte}
    (clear : m.PaddingClear) (small : address.toNat + data.length < 2 ^ 64)
    (inRange : m.outOfRange address (BitVec.ofNat 64 data.length) = false) :
    PaddingClear { m with allocation := overwrite m.allocation address.toNat data } := by
  have length : (BitVec.ofNat 64 data.length).toNat = data.length := by
    rw [BitVec.toNat_ofNat, Nat.mod_eq_of_lt (by omega)]
  have bound := (outOfRange_eq_false (m := m) (by rw [length]; exact small)).mp inRange
  rw [length] at bound
  intro i past
  rw [permissions_overwrite m _ _ bound]
  exact clear i past

theorem Reachable.paddingClear {m : Memory} (reached : Reachable m) : m.PaddingClear := by
  induction reached with
  | create size size_lt => intro i past; rfl
  | write before small ok ih =>
    unfold Memory.write at ok
    split at ok
    next => cases ok
    next inRange =>
      cases ok
      exact paddingClear_overwrite ih small (by simpa using inRange)
  | writeChecked before small ok ih =>
    rw [writeChecked_eq] at ok
    split at ok
    next verified =>
      cases ok
      exact paddingClear_overwrite ih small (verifyPermissions_iff.mp verified).1
    next => cases ok
  | @setPermissions m m' address size flags before small ok ih =>
    unfold Memory.setPermissions at ok
    split at ok
    next => cases ok
    next inRange =>
      cases ok
      have bound := (outOfRange_eq_false small).mp (by simpa using inRange)
      intro i past
      -- the flags set lie below the memory's size, the padding at and above it
      have untouched := overwrite_outside m.allocation (m.permissionsOffset + address.toNat)
        (List.replicate size.toNat flags) (m.permissionsOffset + i)
        (Or.inr (by rw [List.length_replicate]; rw [Nat.add_assoc]; exact Nat.add_le_add_left (bound.trans past) _))
      exact untouched.trans (ih i past)

end Memory

end Riscv64Emulator
