import Riscv64Emulator.Elf.Loader
import Riscv64Emulator.Vm.MemoryCalls

/-!
# What the loader leaves in the memory

An accepted file with segments that do not overlap, loaded into a new memory: every segment
has its data, zeros behind it and its permissions, whatever comes before and after it, and
the rest of the memory is as it was.
-/
namespace Riscv64Emulator

open ElfLoader

/-- A byte of the segment's range of addresses. -/
def ElfLoader.ProgramHeader.Covers (ph : ProgramHeader) (j : Nat) : Prop :=
  ph.memoryAddress.toNat ≤ j ∧ j < ph.memoryAddress.toNat + ph.memorySize.toNat

instance (ph : ProgramHeader) (j : Nat) : Decidable (ph.Covers j) := inferInstanceAs (Decidable (_ ∧ _))

/-- The permissions a segment's flags stand for: bit 0 is execute and bit 1 is write. -/
def ElfLoader.ProgramHeader.permissions (ph : ProgramHeader) : MemoryFlags :=
  MemoryFlags.read ||| (if ph.flags.getLsbD 0 then MemoryFlags.execute else MemoryFlags.none) |||
    (if ph.flags.getLsbD 1 then MemoryFlags.write else MemoryFlags.none)

namespace Binary

/-- A byte of a segment: of the file as far as its data goes, and zero behind it. -/
def segmentByte (b : Binary) (ph : ProgramHeader) (j : Nat) : Byte :=
  if j < ph.memoryAddress.toNat + min ph.fileSize.toNat ph.memorySize.toNat then
    b.byte (ph.fileOffset.toNat + (j - ph.memoryAddress.toNat))
  else 0

/-- The loadable segments have ranges that do not wrap and do not overlap. -/
structure Separate (b : Binary) : Prop where
  straight : ∀ i < b.pheCount, ∀ ph, b.programHeader i = some ph →
    ph.memoryAddress.toNat + ph.memorySize.toNat < 2 ^ 64
  disjoint : ∀ i < b.pheCount, ∀ ph, b.programHeader i = some ph →
    ∀ i' < b.pheCount, ∀ ph', b.programHeader i' = some ph' → i ≠ i' →
      ∀ j, ph.Covers j → ¬ph'.Covers j

/-- The byte `j` of the memory behind the first `n` headers. -/
structure Filled (b : Binary) (memory : Memory) (n j : Nat) : Prop where
  inside : ∀ i < n, ∀ ph, b.programHeader i = some ph → ph.Covers j →
    memory.contents j = b.segmentByte ph j ∧ memory.permissions j = ph.permissions
  outside : (∀ i < n, ∀ ph, b.programHeader i = some ph → ¬ph.Covers j) →
    memory.contents j = 0 ∧ memory.permissions j = MemoryFlags.none

section Segments

variable {b : Binary} {memory : Memory} {ph : ProgramHeader} {j : Nat}

theorem dataSize_toNat (ph : ProgramHeader) :
    ph.dataSize.toNat = min ph.fileSize.toNat ph.memorySize.toNat := by
  unfold ProgramHeader.dataSize stdMin
  split
  · next less =>
    rw [BitVec.lt_def] at less
    omega
  · next notLess =>
    rw [BitVec.lt_def] at notLess
    omega

theorem and_twoPow_ne_zero {k : Nat} (low : k < 64) (v : Word) :
    v &&& BitVec.twoPow 64 k ≠ 0 ↔ v.getLsbD k = true := by
  have nonzero : BitVec.twoPow 64 k ≠ 0 := fun same => by
    have bit := congrArg (fun w => BitVec.getLsbD w k) same
    simp [low] at bit
  rw [BitVec.and_twoPow]
  cases v.getLsbD k
  · exact iff_of_false (fun other => other rfl) Bool.false_ne_true
  · exact iff_of_true nonzero rfl

theorem segmentPermissions_eq (ph : ProgramHeader) : segmentPermissions ph.flags = ph.permissions := by
  have execute : ph.flags &&& 1 ≠ 0 ↔ ph.flags.getLsbD 0 = true :=
    and_twoPow_ne_zero (show 0 < 64 by decide) _
  have write : ph.flags &&& 2 ≠ 0 ↔ ph.flags.getLsbD 1 = true :=
    and_twoPow_ne_zero (show 1 < 64 by decide) _
  unfold segmentPermissions ProgramHeader.permissions
  simp only [execute, write]
  cases ph.flags.getLsbD 0 <;> cases ph.flags.getLsbD 1 <;> decide

/-- The range of an accepted segment lies in the memory. -/
theorem inside_of_passes {base : Word} (passes : Passes b memory base ph)
    (straight : ph.memoryAddress.toNat + ph.memorySize.toNat < 2 ^ 64) (positive : 0 < ph.memorySize.toNat) :
    ph.memoryAddress.toNat + ph.memorySize.toNat ≤ memory.size.toNat :=
  (Memory.outOfRange_eq_false straight).mp (passes.grant positive)

theorem next_contents (s : LoadState) (b : Binary) (ph : ProgramHeader) (low : j < s.memory.size.toNat) :
    (s.next b ph).memory.contents j =
      if ph.memoryAddress.toNat ≤ j ∧ j < ph.memoryAddress.toNat + ph.dataSize.toNat then
        b.byte (ph.fileOffset.toNat + (j - ph.memoryAddress.toNat))
      else s.memory.contents j := by
  have half := s.memory.size_le_permissionsOffset
  have offset : (copied b s.memory ph).permissionsOffset = s.memory.permissionsOffset := rfl
  have kept : (s.next b ph).memory.contents j = (copied b s.memory ph).contents j :=
    overwrite_outside _ _ _ _ (.inl (by omega))
  rw [kept]
  exact overwrite_bytesAt _ _ _ _ _ _

theorem next_permissions (s : LoadState) (b : Binary) (ph : ProgramHeader)
    (inside : 0 < ph.dataSize.toNat →
      ph.memoryAddress.toNat + ph.dataSize.toNat ≤ s.memory.size.toNat) :
    (s.next b ph).memory.permissions j =
      if ph.Covers j then ph.permissions else s.memory.permissions j := by
  have kept : (copied b s.memory ph).permissions j = s.memory.permissions j := by
    by_cases empty : ph.dataSize.toNat = 0
    · unfold copied
      simp only [empty, bytesAt, List.range_zero, List.map_nil, overwrite_nil]
    · exact Memory.permissions_overwrite s.memory _ _
        (by rw [length_bytesAt]; exact inside (Nat.pos_of_ne_zero empty)) j
  show overwrite (copied b s.memory ph).allocation _ _ (s.memory.permissionsOffset + j) = _
  rw [overwrite_replicate, segmentPermissions_eq, ← kept]
  refine if_congr ?_ rfl rfl
  unfold ProgramHeader.Covers
  have offset : (copied b s.memory ph).permissionsOffset = s.memory.permissionsOffset := rfl
  omega

/-- One accepted header fills its own range and no other. -/
theorem Filled.next {n : Nat} (separate : b.Separate) (counted : n < b.pheCount)
    (passes : b.HeaderPasses memory n) (low : j < memory.size.toNat)
    (before : b.Filled (b.stateBefore memory n).memory n j) :
    b.Filled (b.stateBefore memory (n + 1)).memory (n + 1) j := by
  have size := stateBefore_size b memory n
  cases header : b.programHeader n with
  | none =>
    rw [stateBefore_succ_of_none header]
    refine ⟨fun i below ph same => ?_, fun none => before.outside fun i below => none i (by omega)⟩
    by_cases last : i = n
    · rw [last, header] at same
      cases same
    · exact before.inside i (by omega) ph same
  | some ph =>
    have straight := separate.straight n counted ph header
    have short := dataSize_toNat ph
    have inside : 0 < ph.dataSize.toNat → ph.memoryAddress.toNat + ph.dataSize.toNat
        ≤ (b.stateBefore memory n).memory.size.toNat := fun positive => by
      have fits := inside_of_passes (passes.2 ph header) straight (by omega)
      rw [size]
      omega
    have contents := next_contents (j := j) (b.stateBefore memory n) b ph (by rw [size]; exact low)
    have permissions := next_permissions (j := j) (b.stateBefore memory n) b ph inside
    rw [stateBefore_succ_of_some header]
    refine ⟨fun i below ph' same covers => ?_, fun none => ?_⟩
    · by_cases last : i = n
      · -- the new segment: nothing has filled this byte before
        rw [last, header] at same
        cases same
        have blank := before.outside fun i below ph' same covers' =>
          separate.disjoint i (by omega) ph' same n counted ph header (by omega) j covers' covers
        rw [contents, permissions, if_pos covers, blank.1]
        refine ⟨?_, rfl⟩
        unfold segmentByte
        rw [short]
        exact if_congr (and_iff_right covers.1) rfl rfl
      · have apart : ¬ph.Covers j :=
          separate.disjoint i (by omega) ph' same n counted ph header last j covers
        have uncopied : ¬(ph.memoryAddress.toNat ≤ j ∧ j < ph.memoryAddress.toNat + ph.dataSize.toNat) := by
          unfold ProgramHeader.Covers at apart
          omega
        rw [contents, permissions, if_neg apart, if_neg uncopied]
        exact before.inside i (by omega) ph' same covers
    · have apart : ¬ph.Covers j := none n (by omega) ph header
      have uncopied : ¬(ph.memoryAddress.toNat ≤ j ∧ j < ph.memoryAddress.toNat + ph.dataSize.toNat) := by
        unfold ProgramHeader.Covers at apart
        omega
      rw [contents, permissions, if_neg apart, if_neg uncopied]
      exact before.outside fun i below => none i (by omega)

/-- The loop fills the segments in any order. -/
theorem filled_stateBefore {n : Nat} (separate : b.Separate) (counted : n ≤ b.pheCount)
    (passes : ∀ i < n, b.HeaderPasses memory i) (low : j < memory.size.toNat)
    (blank : memory.contents j = 0 ∧ memory.permissions j = MemoryFlags.none) :
    b.Filled (b.stateBefore memory n).memory n j := by
  induction n with
  | zero => exact ⟨fun i below => absurd below (Nat.not_lt_zero i), fun _ => blank⟩
  | succ n ih =>
    exact (ih (by omega) fun i below => passes i (by omega)).next separate (by omega)
      (passes n (by omega)) low

theorem accepted_of_load {result : Image × Memory} (loaded : load b memory = .ok result) :
    b.Accepted memory ∧ result = (b.image memory, (b.stateBefore memory b.pheCount).memory) := by
  have cases := load_cases b memory
  rw [loaded] at cases
  cases cases with
  | continues accepted => exact ⟨accepted, rfl⟩

/-- An accepted file with separate segments, loaded into a new memory: every segment's bytes,
zeros and permissions, and nothing else. -/
theorem load_fills (size : Word) (size_lt : size.toNat + 7 < 2 ^ 64) (b : Binary) (image : Image)
    (memory : Memory) (loaded : load b (Memory.create size size_lt) = .ok (image, memory))
    (separate : b.Separate) :
    (∀ i < b.pheCount, ∀ ph, b.programHeader i = some ph →
      (0 < ph.memorySize.toNat → ph.memoryAddress.toNat + ph.memorySize.toNat ≤ memory.size.toNat) ∧
      ph.fileOffset.toNat + min ph.fileSize.toNat ph.memorySize.toNat ≤ b.length) ∧
    ∀ j < memory.size.toNat, b.Filled memory b.pheCount j := by
  obtain ⟨accepted, same⟩ := accepted_of_load loaded
  cases same
  have size := stateBefore_size b (Memory.create size size_lt) b.pheCount
  rw [size]
  refine ⟨fun i counted ph header => ?_, fun j low => ?_⟩
  · have passes := (accepted.2 i counted).2 ph header
    have data := passes.file
    rw [dataSize_toNat] at data
    exact ⟨inside_of_passes passes (separate.straight i counted ph header), data⟩
  · exact filled_stateBefore separate (Nat.le_refl _) accepted.2 low ⟨rfl, rfl⟩

set_option maxRecDepth 4096 in
/-- Four bytes of code at `0x1000`, and one byte of data at `0x2000` with seven zeros behind it, whose
header comes first. -/
def twoSegments : Binary where
  bytes := [0x7f, 0x45, 0x4c, 0x46, 0x02, 0x01, 0x01, 0x00] ++ List.replicate 8 0 ++
    [0x02, 0x00, 0xf3, 0x00, 0x01, 0x00, 0x00, 0x00] ++
    [0x00, 0x10, 0x00, 0x00, 0x00, 0x00, 0x00, 0x00] ++
    [0x40, 0x00, 0x00, 0x00, 0x00, 0x00, 0x00, 0x00] ++ List.replicate 14 0 ++
    [0x38, 0x00, 0x02, 0x00] ++ List.replicate 6 0 ++
    -- the data
    [0x01, 0x00, 0x00, 0x00, 0x06, 0x00, 0x00, 0x00] ++
    [0xb4, 0x00, 0x00, 0x00, 0x00, 0x00, 0x00, 0x00] ++
    [0x00, 0x20, 0x00, 0x00, 0x00, 0x00, 0x00, 0x00] ++ List.replicate 8 0 ++
    [0x01, 0x00, 0x00, 0x00, 0x00, 0x00, 0x00, 0x00] ++
    [0x08, 0x00, 0x00, 0x00, 0x00, 0x00, 0x00, 0x00] ++ List.replicate 8 0 ++
    -- the code
    [0x01, 0x00, 0x00, 0x00, 0x05, 0x00, 0x00, 0x00] ++
    [0xb0, 0x00, 0x00, 0x00, 0x00, 0x00, 0x00, 0x00] ++
    [0x00, 0x10, 0x00, 0x00, 0x00, 0x00, 0x00, 0x00] ++ List.replicate 8 0 ++
    [0x04, 0x00, 0x00, 0x00, 0x00, 0x00, 0x00, 0x00] ++
    [0x04, 0x00, 0x00, 0x00, 0x00, 0x00, 0x00, 0x00] ++ List.replicate 8 0 ++
    [0x73, 0x00, 0x00, 0x00, 0x2a]
  length_lt := by decide

set_option maxRecDepth 4096 in
theorem twoSegments_headers : twoSegments.pheCount = 2 ∧
    twoSegments.programHeader 0 = some ⟨6, 0xb4, 0x2000, 1, 8⟩ ∧
    twoSegments.programHeader 1 = some ⟨5, 0xb0, 0x1000, 4, 4⟩ := ⟨by decide, rfl, rfl⟩

theorem twoSegments_separate : twoSegments.Separate := by
  obtain ⟨count, data, code⟩ := twoSegments_headers
  -- each of the two indices has its header
  have headers (i : Nat) (below : i < twoSegments.pheCount) (ph : ProgramHeader)
      (found : twoSegments.programHeader i = some ph) :
      i = 0 ∧ ph = ⟨6, 0xb4, 0x2000, 1, 8⟩ ∨ i = 1 ∧ ph = ⟨5, 0xb0, 0x1000, 4, 4⟩ := by
    rw [count] at below
    rcases show i = 0 ∨ i = 1 by omega with rfl | rfl
    · exact .inl ⟨rfl, Option.some.inj (found.symm.trans data)⟩
    · exact .inr ⟨rfl, Option.some.inj (found.symm.trans code)⟩
  constructor
  · intro i below ph found
    rcases headers i below ph found with ⟨-, rfl⟩ | ⟨-, rfl⟩ <;> decide
  · intro i below ph found i' below' ph' found' other j covers covers'
    unfold ProgramHeader.Covers at covers covers'
    have first : (0x1000 : Word).toNat = 0x1000 := rfl
    have second : (0x2000 : Word).toNat = 0x2000 := rfl
    have four : (4 : Word).toNat = 4 := rfl
    have eight : (8 : Word).toNat = 8 := rfl
    rcases headers i below ph found with ⟨here, rfl⟩ | ⟨here, rfl⟩ <;>
      rcases headers i' below' ph' found' with ⟨there, rfl⟩ | ⟨there, rfl⟩ <;>
      dsimp only at covers covers' <;> omega

set_option maxRecDepth 4096 in
theorem load_fills_twoSegments : ∃ (image : Image) (memory : Memory),
    load twoSegments (Memory.create 0x3000 (by decide)) = .ok (image, memory) ∧
      twoSegments.Filled memory twoSegments.pheCount 0x2003 ∧ memory.contents 0x2000 = 0x2a ∧
      memory.contents 0x2003 = 0 ∧ memory.contents 0x1000 = 0x73 := by
  obtain ⟨count, data, code⟩ := twoSegments_headers
  obtain ⟨⟨image, memory⟩, loaded⟩ : ∃ result,
      load twoSegments (Memory.create 0x3000 (by decide)) = .ok result := ⟨_, rfl⟩
  obtain ⟨segments, filled⟩ := load_fills _ _ _ _ _ loaded twoSegments_separate
  have size : 0x2008 ≤ memory.size.toNat := (segments 0 (by rw [count]; decide) _ data).1 (by decide)
  have byte {i j : Nat} {ph : ProgramHeader} (counted : i < twoSegments.pheCount)
      (found : twoSegments.programHeader i = some ph) (covers : ph.Covers j) (low : j < 0x2008) :
      memory.contents j = twoSegments.segmentByte ph j :=
    ((filled j (low.trans_le size)).inside i counted ph found covers).1
  refine ⟨image, memory, loaded, filled _ (by omega), ?_, ?_, ?_⟩
  · exact byte (by rw [count]; decide) data (by decide) (by decide)
  -- behind the data of the segment
  · exact byte (by rw [count]; decide) data (by decide) (by decide)
  · exact byte (by rw [count]; decide) code (by decide) (by decide)

end Segments

end Binary

end Riscv64Emulator
