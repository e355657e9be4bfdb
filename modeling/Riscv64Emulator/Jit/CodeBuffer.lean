import Riscv64Emulator.Jit.HostAccess

/-!
# The code buffer

`CodeBuffer.hpp` and `CodeBuffer.cpp` as a single executor uses them: an allocator that
never frees, and a table from the guest's blocks to offsets of their code in which zero
means that there is none.
-/
namespace Riscv64Emulator.Jit

/-- `CodeBuffer`. What `ExecutableBuffer::write` copied is kept in one piece, under the offset
it was copied to. Offsets are `uint32_t`, and no buffer is larger than they reach: `main` asks
for 16 MiB. -/
structure CodeBuffer (ρ : Type) where
  flags : CodeBufferFlags
  maxBlocks : Word
  blockToOffset : Nat → BitVec 32
  size : Nat
  nextFreeOffset : Nat
  written : BitVec 32 → Option ρ
  size_le : size ≤ 2 ^ 32

namespace CodeBuffer

variable {ρ : Type}

/-- `CodeBuffer::CodeBuffer`. -/
def create (flags : CodeBufferFlags) (size : Nat) (size_le : size ≤ 2 ^ 32)
    (maxExecutableGuestAddress : Word) : CodeBuffer ρ where
  flags := flags
  maxBlocks := (maxExecutableGuestAddress + 4 - 1) / 4
  blockToOffset _ := 0
  size := size
  nextFreeOffset := 16
  written _ := none
  size_le := size_le

/-- The next multiple of `code_alignment`. -/
def alignedOffset (offset : Nat) : Nat := (offset + 16 - 1) / 16 * 16

/-- `allocate_executable_memory`, for code of `length` bytes. -/
def allocateExecutableMemory (b : CodeBuffer ρ) (length : Nat) (code : ρ) :
    Except Abort (BitVec 32 × CodeBuffer ρ) :=
  let startOffset := alignedOffset b.nextFreeOffset
  let endOffset := startOffset + length
  if endOffset ≤ b.size then
    let start := BitVec.ofNat 32 startOffset
    .ok (start, { b with
      written := fun offset => if offset = start then some code else b.written offset
      nextFreeOffset := endOffset })
  else .error (.verify "out of executable memory in the jit storage")

/-- `CodeBuffer::get`, with an offset for the pointer into the buffer. The index into the table
is not checked. -/
def get (b : CodeBuffer ρ) (guestAddress : Word) : Except Abort (Option (BitVec 32)) :=
  if guestAddress &&& 3 ≠ 0 then .ok none
  else if guestAddress.toNat / 4 < b.maxBlocks.toNat then
    let offset := b.blockToOffset (guestAddress.toNat / 4)
    .ok (if offset ≠ 0 then some offset else none)
  else .error .undefinedBehaviour

/-- `CodeBuffer::insert`. -/
def insert (b : CodeBuffer ρ) (guestAddress : Word) (length : Nat) (code : ρ) :
    Except Abort (BitVec 32 × CodeBuffer ρ) :=
  if guestAddress &&& 3 ≠ 0 then .error (.verify "guest address is misaligned")
  else do
    match ← b.get guestAddress with
    | some offset => pure (offset, b)
    | none => do
      let (offset, b) ← b.allocateExecutableMemory length code
      pure (offset, { b with
        blockToOffset := fun block =>
          if block = guestAddress.toNat / 4 then offset else b.blockToOffset block })

/-- `CodeBuffer::insert_standalone`. -/
def insertStandalone (b : CodeBuffer ρ) (length : Nat) (code : ρ) :
    Except Abort (BitVec 32 × CodeBuffer ρ) := b.allocateExecutableMemory length code

/-- A guest address `get` and `insert` can be called with. -/
def Admits (b : CodeBuffer ρ) (guestAddress : Word) : Prop :=
  guestAddress &&& 3 = 0 ∧ guestAddress.toNat / 4 < b.maxBlocks.toNat

instance (b : CodeBuffer ρ) (guestAddress : Word) : Decidable (b.Admits guestAddress) :=
  inferInstanceAs (Decidable (_ ∧ _))

/-- An aligned address is the first of its block. -/
theorem toNat_of_aligned {a : Word} (aligned : a &&& 3 = 0) : a.toNat = 4 * (a.toNat / 4) := by
  have multiple : a.toNat % 2 ^ 2 = 0 := (and_mask_eq_zero a (by decide)).mp aligned
  omega

/-! ### What the operations do -/

variable {b b' : CodeBuffer ρ} {guestAddress : Word} {length : Nat} {code : ρ} {offset : BitVec 32}

theorem le_alignedOffset (offset : Nat) : offset ≤ alignedOffset offset := by
  unfold alignedOffset
  omega

theorem admits_of_get (got : b.get guestAddress = .ok (some offset)) : b.Admits guestAddress := by
  unfold get at got
  split at got
  · cases got
  · next aligned =>
    split at got
    · next inside => exact ⟨Decidable.not_not.mp aligned, inside⟩
    · cases got

theorem get_of_admits (admits : b.Admits guestAddress) :
    b.get guestAddress = .ok (if b.blockToOffset (guestAddress.toNat / 4) ≠ 0 then
      some (b.blockToOffset (guestAddress.toNat / 4)) else none) := by
  unfold get
  rw [if_neg (fun misaligned => misaligned admits.1), if_pos admits.2]

theorem get_of_absent (admits : b.Admits guestAddress) (absent : b.blockToOffset (guestAddress.toNat / 4) = 0) :
    b.get guestAddress = .ok none := by
  rw [get_of_admits admits, if_neg fun published => published absent]

theorem get_eq_some (got : b.get guestAddress = .ok (some offset)) :
    offset = b.blockToOffset (guestAddress.toNat / 4) ∧ offset ≠ 0 := by
  rw [get_of_admits (admits_of_get got)] at got
  split at got
  · next published =>
    cases got
    exact ⟨rfl, published⟩
  · cases got

/-- An allocation is new: it lies behind everything allocated before. -/
structure Allocated (b b' : CodeBuffer ρ) (length : Nat) (code : ρ) (offset : BitVec 32) : Prop where
  start : offset.toNat = alignedOffset b.nextFreeOffset
  next : b'.nextFreeOffset = offset.toNat + length
  written : b'.written = fun o => if o = offset then some code else b.written o
  blocks : b'.blockToOffset = b.blockToOffset
  maxBlocks : b'.maxBlocks = b.maxBlocks
  flags : b'.flags = b.flags

theorem allocated (positive : 0 < length)
    (done : b.allocateExecutableMemory length code = .ok (offset, b')) :
    Allocated b b' length code offset := by
  unfold allocateExecutableMemory at done
  dsimp only at done
  split at done
  · next fits =>
    cases done
    have bound := b.size_le
    -- an offset within a buffer of at most 2 ^ 32 bytes is not cut down
    have start : (BitVec.ofNat 32 (alignedOffset b.nextFreeOffset)).toNat
        = alignedOffset b.nextFreeOffset := by
      rw [BitVec.toNat_ofNat, Nat.mod_eq_of_lt]
      omega
    exact ⟨start, by rw [start], rfl, rfl, rfl, rfl⟩
  · cases done

/-- What `insert` does: it finds the block published, or publishes a new allocation. -/
theorem insert_cases (positive : 0 < length)
    (done : b.insert guestAddress length code = .ok (offset, b')) :
    b.Admits guestAddress ∧
      ((b' = b ∧ offset = b.blockToOffset (guestAddress.toNat / 4) ∧ offset ≠ 0) ∨
      (b.blockToOffset (guestAddress.toNat / 4) = 0 ∧ ∃ b₁, Allocated b b₁ length code offset ∧
        b' = { b₁ with
          blockToOffset := fun block =>
            if block = guestAddress.toNat / 4 then offset else b₁.blockToOffset block })) := by
  unfold insert at done
  split at done
  · cases done
  · next aligned =>
    cases got : b.get guestAddress with
    | error e =>
      simp only [got, bind, Except.bind] at done
      cases done
    | ok found =>
      have admits : b.Admits guestAddress := by
        refine ⟨Decidable.not_not.mp aligned, ?_⟩
        unfold get at got
        rw [if_neg aligned] at got
        split at got
        · assumption
        · cases got
      refine ⟨admits, ?_⟩
      -- the block was there already, or it is allocated and then published
      cases found with
      | some published =>
        simp only [got, bind, Except.bind, pure, Except.pure, Except.ok.injEq, Prod.mk.injEq] at done
        obtain ⟨rfl, rfl⟩ := done
        exact Or.inl ⟨rfl, get_eq_some got⟩
      | none =>
        rw [get_of_admits admits] at got
        have absent : b.blockToOffset (guestAddress.toNat / 4) = 0 := by
          by_contra present
          rw [if_pos present] at got
          cases got
        rw [get_of_admits admits] at done
        cases allocation : b.allocateExecutableMemory length code with
        | error e =>
          simp only [absent, allocation, bind, Except.bind, ne_eq, not_true_eq_false, if_false] at done
          cases done
        | ok result =>
          simp only [absent, allocation, bind, Except.bind, pure, Except.pure, ne_eq,
            not_true_eq_false, if_false, Except.ok.injEq, Prod.mk.injEq] at done
          obtain ⟨rfl, rfl⟩ := done
          exact Or.inr ⟨absent, result.2, allocated positive allocation, rfl⟩

/-- A block that is not there is inserted if there is room for its code. -/
theorem exists_insert (b : CodeBuffer ρ) (length : Nat) (code : ρ) (admits : b.Admits guestAddress)
    (absent : b.blockToOffset (guestAddress.toNat / 4) = 0)
    (fits : alignedOffset b.nextFreeOffset + length ≤ b.size) : ∃ b',
      b.insert guestAddress length code = .ok (BitVec.ofNat 32 (alignedOffset b.nextFreeOffset), b') ∧
        b'.written (BitVec.ofNat 32 (alignedOffset b.nextFreeOffset)) = some code := by
  unfold insert allocateExecutableMemory
  rw [if_neg (fun misaligned => misaligned admits.1), get_of_admits admits, if_neg (fun there => there absent)]
  simp only [bind, Except.bind, pure, Except.pure, if_pos fits]
  exact ⟨_, rfl, if_pos rfl⟩

end CodeBuffer

end Riscv64Emulator.Jit
