import Riscv64Emulator.Elf.Segments

/-!
# The bounds of the image

The loop of `ElfLoader::load` takes the base from the first loadable header and the end from
the largest one. `main` puts the guest's stack below the base, and the JIT runs nothing at or
above the end.
-/
namespace Riscv64Emulator

open ElfLoader

namespace ElfLoader

/-- The stack pointer `main` starts the guest with. -/
def Image.stackPointer (image : Image) : Word := image.base - 8

/-- The `max_executable_address` of `main`. -/
def Image.maxExecutableAddress (image : Image) : Word := image.base + image.size

/-- The first address behind a segment. -/
def ProgramHeader.last (ph : ProgramHeader) : Nat := ph.memoryAddress.toNat + ph.memorySize.toNat

def ProgramHeader.isExecutable (ph : ProgramHeader) : Bool := ph.flags.getLsbD 0

theorem and_pageMask_eq_zero (a : Word) : a &&& 0xfff = 0 ↔ a.toNat % 4096 = 0 := by
  have low : (a &&& 0xfff).toNat = a.toNat % 2 ^ 12 := by
    rw [BitVec.toNat_and]
    exact Nat.and_two_pow_sub_one_eq_mod a.toNat 12
  rw [← BitVec.toNat_inj, low]
  rfl

theorem and_not_pageMask (a : Word) : (a &&& ~~~0xfff).toNat = a.toNat / 4096 * 4096 := by
  have split : (a &&& ~~~0xfff) + (a &&& 0xfff) = a := by
    rw [BitVec.add_comm, BitVec.add_eq_or_of_and_eq_zero]
    · ext i low
      simp only [BitVec.getElem_or, BitVec.getElem_and, BitVec.getElem_not]
      cases a[i] <;> cases (0xfff : Word)[i] <;> rfl
    · ext i low
      simp only [BitVec.getElem_and, BitVec.getElem_not, BitVec.getElem_zero]
      cases a[i] <;> cases (0xfff : Word)[i] <;> rfl
  have low : (a &&& 0xfff).toNat = a.toNat % 2 ^ 12 := by
    rw [BitVec.toNat_and]
    exact Nat.and_two_pow_sub_one_eq_mod a.toNat 12
  have high : (a &&& ~~~0xfff) = a - (a &&& 0xfff) := BitVec.eq_sub_iff_add_eq.mpr split
  rw [high, BitVec.toNat_sub_of_le (by rw [BitVec.le_def, low]; omega), low]
  omega

/-- From a base at the start of a page, the size reaches to the end of the last page. -/
theorem alignedSize_toNat {base last : Word} (aligned : base.toNat % 4096 = 0) (nonzero : base ≠ 0)
    (order : base.toNat ≤ last.toNat) :
    base.toNat + (alignedSize base last).toNat = (last.toNat + 4095) / 4096 * 4096 := by
  have positive : base.toNat ≠ 0 := fun zero => nonzero (BitVec.toNat_inj.mp zero)
  have small := last.isLt
  have size : (last - base).toNat = last.toNat - base.toNat := BitVec.toNat_sub_of_le order
  have rounded : (last - base + 0xfff).toNat = last.toNat - base.toNat + 4095 := by
    rw [BitVec.toNat_add, size, show (0xfff : Word).toNat = 4095 from rfl, Nat.mod_eq_of_lt]
    omega
  unfold alignedSize
  dsimp only
  rw [and_not_pageMask, rounded]
  omega

theorem alignedSize_paged (base last : Word) : (alignedSize base last).toNat % 4096 = 0 := by
  unfold alignedSize
  dsimp only
  rw [and_not_pageMask]
  exact Nat.mul_mod_left _ _

theorem stdMax_toNat (a b : Word) : (stdMax a b).toNat = max a.toNat b.toNat := by
  unfold stdMax
  split
  · next less =>
    rw [BitVec.lt_def] at less
    exact (Nat.max_eq_right (Nat.le_of_lt less)).symm
  · next notLess =>
    rw [BitVec.lt_def] at notLess
    exact (Nat.max_eq_left (Nat.not_lt.mp notLess)).symm

end ElfLoader

namespace Binary

/-- The segments of the loadable headers. -/
def Loads (b : Binary) (ph : ProgramHeader) : Prop := ∃ i < b.pheCount, b.programHeader i = some ph

/-- The first loadable one of some headers. -/
def firstBefore (b : Binary) (n : Nat) : Option ProgramHeader := (List.range n).findSome? b.programHeader

def firstLoadable (b : Binary) : Option ProgramHeader := b.firstBefore b.pheCount

/-- What `main` uses the image for: it holds the segments in whole pages, the stack lies below
them and what the JIT may run ends behind their code. -/
structure Bounded (b : Binary) (image : Image) : Prop where
  inside : ∀ ph, b.Loads ph → ∀ j, ph.Covers j →
    image.base.toNat ≤ j ∧ j < image.base.toNat + image.size.toNat
  paged : image.size.toNat % 4096 = 0
  stack : ∀ ph, b.Loads ph → ∀ j, ph.Covers j → image.stackPointer.toNat < j
  limit : ∀ ph, b.Loads ph → ph.isExecutable = true → ∀ j, ph.Covers j →
    j < image.maxExecutableAddress.toNat

/-- No segment lies below the first one, and if there is code, no header ends in the last page of
the address space. -/
structure WellPlaced (b : Binary) : Prop where
  first : ∀ first, b.firstLoadable = some first → ∀ ph, b.Loads ph → 0 < ph.memorySize.toNat →
    first.memoryAddress.toNat ≤ ph.memoryAddress.toNat
  last : (∃ ph, b.Loads ph ∧ ph.isExecutable = true ∧ 0 < ph.memorySize.toNat) →
    ∀ ph, b.Loads ph → ph.last ≤ 2 ^ 64 - 4096

section Bounds

variable {b : Binary} {memory : Memory} {n : Nat}

theorem firstBefore_succ (b : Binary) (n : Nat) :
    b.firstBefore (n + 1) = (b.firstBefore n).or (b.programHeader n) := by
  unfold firstBefore
  rw [List.range_succ, List.findSome?_append]
  congr 1
  cases here : b.programHeader n <;> simp [here]

/-- The base is the address of the first loadable header, which starts a page. -/
theorem baseBefore_cases (passes : ∀ i < n, b.HeaderPasses memory i) :
    (b.firstBefore n = none ∧ b.baseBefore n = 0) ∨
      ∃ first, b.firstBefore n = some first ∧ b.baseBefore n = first.memoryAddress ∧
        first.memoryAddress ≠ 0 ∧ first.memoryAddress.toNat % 4096 = 0 := by
  induction n with
  | zero => exact .inl ⟨rfl, rfl⟩
  | succ n ih =>
    rw [firstBefore_succ]
    unfold baseBefore
    rcases ih fun i below => passes i (by omega) with ⟨none, zero⟩ | ⟨first, found, base, nonzero, aligned⟩
    · -- no loadable header so far: the next one may give the base
      rw [none, zero, Option.none_or]
      cases header : b.programHeader n with
      | none => exact .inl ⟨rfl, rfl⟩
      | some ph =>
        have accepted := ((passes n (by omega)).2 ph header).base zero
        exact .inr ⟨ph, rfl, rfl, accepted.1, (and_pageMask_eq_zero _).mp accepted.2⟩
    · -- the base is found, and no later header changes it
      rw [found, base, Option.some_or]
      refine .inr ⟨first, rfl, ?_, nonzero, aligned⟩
      cases b.programHeader n with
      | none => rfl
      | some ph => exact if_neg nonzero

theorem loads_of_firstLoadable {first : ProgramHeader} (found : b.firstLoadable = some first) :
    b.Loads first := by
  obtain ⟨i, below, header⟩ := List.exists_of_findSome?_eq_some found
  exact ⟨i, List.mem_range.mp below, header⟩

theorem exists_firstLoadable {ph : ProgramHeader} (loads : b.Loads ph) :
    ∃ first, b.firstLoadable = some first := by
  obtain ⟨i, counted, header⟩ := loads
  cases found : b.firstLoadable with
  | some first => exact ⟨first, rfl⟩
  | none =>
    have absent := List.findSome?_eq_none_iff.mp found i (List.mem_range.mpr counted)
    rw [header] at absent
    cases absent

/-- The image starts with a page of its own. -/
theorem image_base (accepted : b.Accepted memory) {first : ProgramHeader}
    (found : b.firstLoadable = some first) : (b.image memory).base = first.memoryAddress ∧
      0x1000 ≤ first.memoryAddress.toNat ∧ first.memoryAddress.toNat % 4096 = 0 := by
  rcases baseBefore_cases accepted.2 with ⟨none, -⟩ | ⟨first', found', base, nonzero, aligned⟩
  · cases none.symm.trans found
  · cases found'.symm.trans found
    have positive : first.memoryAddress.toNat ≠ 0 := fun zero => nonzero (BitVec.toNat_inj.mp zero)
    exact ⟨base, by omega, aligned⟩

/-- A file with one header. -/
theorem loads_alone {ph : ProgramHeader} (count : b.pheCount = 1) (header : b.programHeader 0 = some ph) :
    ∀ ph', b.Loads ph' → ph' = ph := by
  rintro ph' ⟨i, below, same⟩
  rw [count] at below
  rw [Nat.lt_one_iff.mp below, header] at same
  exact (Option.some.inj same).symm

/-- The end is the least address that no segment reaches beyond. -/
theorem endAddress_le_iff (straight : ∀ i < n, ∀ ph, b.programHeader i = some ph → ph.last < 2 ^ 64)
    (bound : Nat) : (b.stateBefore memory n).endAddress.toNat ≤ bound ↔
      ∀ i < n, ∀ ph, b.programHeader i = some ph → ph.last ≤ bound := by
  induction n with
  | zero => exact ⟨fun _ i below => absurd below (Nat.not_lt_zero i), fun _ => Nat.zero_le _⟩
  | succ n ih =>
    have before := ih fun i below => straight i (by omega)
    cases header : b.programHeader n with
    | none =>
      rw [stateBefore_succ_of_none header, before]
      refine ⟨fun all i below ph same => ?_, fun all i below => all i (by omega)⟩
      rcases Nat.lt_succ_iff_lt_or_eq.mp below with inside | rfl
      · exact all i inside ph same
      · rw [header] at same
        cases same
    | some ph =>
      -- the range does not wrap, so the comparison of the words is that of the ends
      have last : (ph.memoryAddress + ph.memorySize).toNat = ph.last := by
        rw [BitVec.toNat_add]
        exact Nat.mod_eq_of_lt (straight n (by omega) ph header)
      have next : (b.stateBefore memory (n + 1)).endAddress.toNat
          = max (b.stateBefore memory n).endAddress.toNat ph.last := by
        rw [stateBefore_succ_of_some header]
        exact (stdMax_toNat _ _).trans (congrArg _ last)
      rw [next, max_le_iff, before]
      refine ⟨fun both i below ph' same => ?_,
        fun all => ⟨fun i below => all i (by omega), all n (by omega) ph header⟩⟩
      obtain ⟨all, new⟩ := both
      rcases Nat.lt_succ_iff_lt_or_eq.mp below with inside | rfl
      · exact all i inside ph' same
      · rw [header] at same
        cases same
        exact new

/-- The base and the size of the image of an accepted file with a segment, in terms of its
program headers. -/
theorem image_bounds (accepted : b.Accepted memory)
    (straight : ∀ ph, b.Loads ph → ph.last < 2 ^ 64) {segment : ProgramHeader} (loads : b.Loads segment) :
    ∃ first last, b.firstLoadable = some first ∧ (b.image memory).base = first.memoryAddress ∧
      0x1000 ≤ first.memoryAddress.toNat ∧ first.memoryAddress.toNat % 4096 = 0 ∧
      (∀ bound, last ≤ bound ↔ ∀ ph, b.Loads ph → ph.last ≤ bound) ∧
      (b.image memory).base.toNat + (b.image memory).size.toNat = (last + 4095) / 4096 * 4096 := by
  -- the end is the largest of the segments' ends
  have least (bound : Nat) : (b.stateBefore memory b.pheCount).endAddress.toNat ≤ bound ↔
      ∀ ph, b.Loads ph → ph.last ≤ bound := by
    rw [endAddress_le_iff fun i below ph header => straight ph ⟨i, below, header⟩]
    exact ⟨fun all ph ⟨i, below, header⟩ => all i below ph header,
      fun all i below ph header => all ph ⟨i, below, header⟩⟩
  obtain ⟨first, found⟩ := exists_firstLoadable loads
  obtain ⟨base, page, aligned⟩ := image_base accepted found
  have nonzero : first.memoryAddress ≠ 0 := fun zero => by
    rw [zero] at page
    exact absurd page (by decide)
  -- the first segment is loaded, so its start is no further than the end
  have order : first.memoryAddress.toNat ≤ (b.stateBefore memory b.pheCount).endAddress.toNat :=
    (Nat.le_add_right _ _).trans ((least _).mp (Nat.le_refl _) first (loads_of_firstLoadable found))
  refine ⟨first, _, found, base, page, aligned, least, ?_⟩
  have start : b.baseBefore b.pheCount = first.memoryAddress := base
  unfold image
  dsimp only
  rw [start, alignedSize_toNat aligned nonzero order]

/-- The image holds the segments exactly if they are placed well. -/
theorem load_bounded_iff (b : Binary) (memory : Memory) (image : Image) (memory' : Memory)
    (loaded : load b memory = .ok (image, memory')) (straight : ∀ ph, b.Loads ph → ph.last < 2 ^ 64) :
    b.Bounded image ↔ b.WellPlaced := by
  obtain ⟨accepted, same⟩ := accepted_of_load loaded
  cases same
  refine ⟨fun bounded => ⟨fun first found ph loads positive => ?_, fun code ph loads => ?_⟩,
    fun placed => ⟨fun ph loads j covers => ?_, alignedSize_paged _ _, fun ph loads j covers => ?_,
      fun ph loads code j covers => ?_⟩⟩
  · obtain ⟨first', -, found', base, -⟩ := image_bounds accepted straight loads
    rw [found] at found'
    cases found'
    rw [← base]
    exact (bounded.inside ph loads _ ⟨Nat.le_refl _, Nat.lt_add_of_pos_right positive⟩).1
  · -- beyond the last page the limit is zero, so it is not behind the code
    obtain ⟨ph', loads', executable, positive⟩ := code
    obtain ⟨-, last, -, -, -, -, least, size⟩ := image_bounds accepted straight loads
    refine (least _).mp ?_ ph loads
    by_contra beyond
    have inside := (least (2 ^ 64 - 1)).mpr fun ph loads => Nat.le_sub_one_of_lt (straight ph loads)
    have limit := bounded.limit ph' loads' executable _ ⟨Nat.le_refl _, Nat.lt_add_of_pos_right positive⟩
    unfold Image.maxExecutableAddress at limit
    rw [BitVec.toNat_add, size] at limit
    omega
  · obtain ⟨first, last, found, base, -, -, least, size⟩ := image_bounds accepted straight loads
    have low := placed.first first found ph loads (by unfold ProgramHeader.Covers at covers; omega)
    have high := (least last).mp (Nat.le_refl _) ph loads
    rw [size, base]
    unfold ProgramHeader.Covers at covers
    unfold ProgramHeader.last at high
    omega
  · obtain ⟨first, -, found, base, page, -⟩ := image_bounds accepted straight loads
    have low := placed.first first found ph loads (by unfold ProgramHeader.Covers at covers; omega)
    have below : (b.image memory).stackPointer.toNat = first.memoryAddress.toNat - 8 := by
      unfold Image.stackPointer
      rw [base, BitVec.toNat_sub_of_le (by rw [BitVec.le_def]; exact Nat.le_trans (by decide) page)]
      rfl
    rw [below]
    unfold ProgramHeader.Covers at covers
    omega
  · obtain ⟨-, last, -, -, -, -, least, size⟩ := image_bounds accepted straight loads
    have positive : 0 < ph.memorySize.toNat := by
      unfold ProgramHeader.Covers at covers
      omega
    have ends := (least _).mpr (placed.last ⟨ph, loads, code, positive⟩)
    have high := (least last).mp (Nat.le_refl _) ph loads
    unfold Image.maxExecutableAddress
    rw [BitVec.toNat_add, size]
    unfold ProgramHeader.Covers at covers
    unfold ProgramHeader.last at high
    omega

/-- Four bytes of code at `0x1000`, with four more bytes behind them. -/
def oneSegment : Binary where
  bytes := [0x7f, 0x45, 0x4c, 0x46, 0x02, 0x01, 0x01, 0x00] ++ List.replicate 8 0 ++
    [0x02, 0x00, 0xf3, 0x00, 0x01, 0x00, 0x00, 0x00] ++
    [0x00, 0x10, 0x00, 0x00, 0x00, 0x00, 0x00, 0x00] ++
    [0x40, 0x00, 0x00, 0x00, 0x00, 0x00, 0x00, 0x00] ++ List.replicate 14 0 ++
    [0x38, 0x00, 0x01, 0x00] ++ List.replicate 6 0 ++
    [0x01, 0x00, 0x00, 0x00, 0x05, 0x00, 0x00, 0x00] ++
    [0x78, 0x00, 0x00, 0x00, 0x00, 0x00, 0x00, 0x00] ++
    [0x00, 0x10, 0x00, 0x00, 0x00, 0x00, 0x00, 0x00] ++ List.replicate 8 0 ++
    [0x04, 0x00, 0x00, 0x00, 0x00, 0x00, 0x00, 0x00] ++
    [0x08, 0x00, 0x00, 0x00, 0x00, 0x00, 0x00, 0x00] ++ List.replicate 8 0 ++
    [0x73, 0x00, 0x00, 0x00]
  length_lt := by simp

set_option maxRecDepth 4096 in
theorem load_bounded_iff_oneSegment : ∃ (image : Image) (memory : Memory),
    load oneSegment (Memory.create 0x2000 (by decide)) = .ok (image, memory) ∧ oneSegment.Bounded image := by
  have only : ∀ ph, oneSegment.Loads ph → ph = ⟨5, 0x78, 0x1000, 4, 8⟩ := loads_alone (by decide) rfl
  obtain ⟨⟨image, memory⟩, loaded⟩ : ∃ result,
      load oneSegment (Memory.create 0x2000 (by decide)) = .ok result := ⟨_, rfl⟩
  refine ⟨image, memory, loaded, (load_bounded_iff _ _ _ _ loaded fun ph loads => ?_).mpr
    ⟨fun first found ph loads _ => ?_, fun _ ph loads => ?_⟩⟩
  · rw [only ph loads]
    decide
  · rw [only ph loads, only first (loads_of_firstLoadable found)]
  · rw [only ph loads]
    decide

set_option maxRecDepth 4096 in
/-- Four bytes of code at `0x2000`, and behind them in the file a page of zeros at `0x1000`. -/
def descending : Binary where
  bytes := [0x7f, 0x45, 0x4c, 0x46, 0x02, 0x01, 0x01, 0x00] ++ List.replicate 8 0 ++
    [0x02, 0x00, 0xf3, 0x00, 0x01, 0x00, 0x00, 0x00] ++
    [0x00, 0x20, 0x00, 0x00, 0x00, 0x00, 0x00, 0x00] ++
    [0x40, 0x00, 0x00, 0x00, 0x00, 0x00, 0x00, 0x00] ++ List.replicate 14 0 ++
    [0x38, 0x00, 0x02, 0x00] ++ List.replicate 6 0 ++
    [0x01, 0x00, 0x00, 0x00, 0x05, 0x00, 0x00, 0x00] ++
    [0xb0, 0x00, 0x00, 0x00, 0x00, 0x00, 0x00, 0x00] ++
    [0x00, 0x20, 0x00, 0x00, 0x00, 0x00, 0x00, 0x00] ++ List.replicate 8 0 ++
    [0x04, 0x00, 0x00, 0x00, 0x00, 0x00, 0x00, 0x00] ++
    [0x04, 0x00, 0x00, 0x00, 0x00, 0x00, 0x00, 0x00] ++ List.replicate 8 0 ++
    [0x01, 0x00, 0x00, 0x00, 0x06, 0x00, 0x00, 0x00] ++
    [0xb4, 0x00, 0x00, 0x00, 0x00, 0x00, 0x00, 0x00] ++
    [0x00, 0x10, 0x00, 0x00, 0x00, 0x00, 0x00, 0x00] ++ List.replicate 16 0 ++
    [0x00, 0x10, 0x00, 0x00, 0x00, 0x00, 0x00, 0x00] ++ List.replicate 8 0 ++
    [0x73, 0x00, 0x00, 0x00]
  length_lt := by decide

set_option maxRecDepth 4096 in
theorem load_descending : ¬∀ (b : Binary) (memory : Memory) (image : Image) (memory' : Memory),
    load b memory = .ok (image, memory') → (∀ ph, b.Loads ph → ph.last < 2 ^ 64) →
      b.Bounded image := fun claim => by
  have count : descending.pheCount = 2 := by decide
  have code : descending.programHeader 0 = some ⟨5, 0xb0, 0x2000, 4, 4⟩ := by rfl
  have data : descending.programHeader 1 = some ⟨6, 0xb4, 0x1000, 0, 0x1000⟩ := by rfl
  obtain ⟨memory, loaded⟩ : ∃ memory, load descending (Memory.create 0x3000 (by decide))
      = .ok (⟨0x2000, 0x1000, 0x2000⟩, memory) := ⟨_, rfl⟩
  have bounded := claim _ _ _ _ loaded fun ph ⟨i, below, same⟩ => by
    rw [count] at below
    obtain rfl | rfl : i = 0 ∨ i = 1 := by omega
    · rw [code] at same
      cases same
      decide
    · rw [data] at same
      cases same
      decide
  -- the stack of the guest starts inside the page of zeros
  have stack := bounded.stack _ ⟨1, by decide, data⟩ 0x1000 (by decide)
  exact absurd stack (by decide)

end Bounds

end Binary

end Riscv64Emulator
