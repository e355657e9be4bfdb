import Riscv64Emulator.Vm.Interpreter

/-!
# The ELF loader

`ElfLoader.cpp`: a view of the file whose reads are checked against its size, and the loop
over the program headers that copies loadable segments into the guest's memory. Offsets and
addresses are 64-bit and wrap; a read outside the file is undefined.
-/
namespace Riscv64Emulator

/-- The bytes of a file. No object of the host is larger. -/
structure Binary where
  bytes : List Byte
  length_lt : bytes.length < 2 ^ 63

namespace Binary

def length (b : Binary) : Nat := b.bytes.length

/-- A byte of the file; behind its end there is nothing the loader could rely on. -/
def byte (b : Binary) (i : Nat) : Byte := b.bytes.getD i 0

end Binary

/-- `BinaryFileView`: a span that starts at an offset from the first byte of the file. -/
structure BinaryFileView where
  file : Binary
  start : Word
  size : Word

namespace BinaryFileView

def ofBinary (b : Binary) : BinaryFileView := ⟨b, 0, BitVec.ofNat 64 b.length⟩

/-- The bytes behind `raw() + offset`. -/
def bytes (v : BinaryFileView) (offset : Word) : Nat → Except Abort (List Byte)
  | 0 => .ok []
  | n + 1 =>
    if (v.start + offset).toNat < v.file.length then do
      let rest ← v.bytes (offset + 1) n
      .ok (v.file.byte (v.start + offset).toNat :: rest)
    else .error .undefinedBehaviour

/-- The template `read<T>` for an unsigned `T` of `n` bytes. -/
def read (v : BinaryFileView) (n : Nat) (offset : Word) : Except Abort Word :=
  let last := offset + BitVec.ofNat 64 n
  if last ≤ v.size then do .ok (leValue (← v.bytes offset n))
  else .error (.verify "reading out of bounds")

def read8 (v : BinaryFileView) (offset : Word) : Except Abort Word := v.read 1 offset
def read16 (v : BinaryFileView) (offset : Word) : Except Abort Word := v.read 2 offset
def read32 (v : BinaryFileView) (offset : Word) : Except Abort Word := v.read 4 offset
def read64 (v : BinaryFileView) (offset : Word) : Except Abort Word := v.read 8 offset

/-- `std::dynamic_extent`. -/
def dynamicExtent : Word := BitVec.allOnes 64

/-- `std::span::subspan`, which is undefined for a range that is not in the span. The extent
`std::dynamic_extent` asks for all that is left. -/
def subspan (v : BinaryFileView) (offset count : Word) : Except Abort BinaryFileView :=
  if offset ≤ v.size ∧ (count = dynamicExtent ∨ count ≤ v.size - offset) then
    .ok ⟨v.file, v.start + offset, if count = dynamicExtent then v.size - offset else count⟩
  else .error .undefinedBehaviour

def slice (v : BinaryFileView) (offset size : Word) : Except Abort BinaryFileView :=
  let last := offset + size
  if last ≤ v.size then v.subspan offset size
  else .error (.verify "reading out of bounds")

end BinaryFileView

namespace ElfLoader

/-- The result of `load`. -/
structure Image where
  base : Word
  size : Word
  entrypoint : Word
deriving DecidableEq

/-- The fields of a loadable program header that the loop reads. -/
structure ProgramHeader where
  flags : Word
  fileOffset : Word
  memoryAddress : Word
  fileSize : Word
  memorySize : Word

/-- The variables of the loop, and the memory it fills. -/
structure LoadState where
  baseAddress : Word
  endAddress : Word
  memory : Memory

/-- `std::max`. -/
def stdMax (a b : Word) : Word := if a < b then b else a

/-- `std::min`. -/
def stdMin (a b : Word) : Word := if b < a then b else a

def verify (condition : Bool) (message : String) : Except Abort Unit :=
  if condition then .ok () else .error (.verify message)

/-- The first reads of an iteration; only the type is read of a header that is not loadable. -/
def readProgramHeader (ph : BinaryFileView) : Except Abort (Option ProgramHeader) := do
  let type ← ph.read32 0x00
  if type ≠ 1 then return none
  let flags ← ph.read32 0x04
  let fileOffset ← ph.read64 0x08
  let memoryAddress ← ph.read64 0x10
  let fileSize ← ph.read64 0x20
  let memorySize ← ph.read64 0x28
  return some ⟨flags, fileOffset, memoryAddress, fileSize, memorySize⟩

/-- The base address behind a loadable header: the address of the first one. -/
def checkBase (baseAddress memoryAddress : Word) : Except Abort Word :=
  if baseAddress = 0 then do
    verify (memoryAddress ≠ 0) "image base address is 0"
    verify (memoryAddress &&& 0xfff = 0) "image base address is not 4K aligned"
    return memoryAddress
  else return baseAddress

/-- The copy of the segment's data, which `Memory::write` reads from the view. -/
def writeSegment (memory : Memory) (address : Word) (data : BinaryFileView) (size : Word) :
    Except Abort Memory :=
  if 0 < size then
    if memory.outOfRange address size then
      .error (.verify "writing segment \x7b:x\x7d (size \x7b:x\x7d) failed")
    else do
      match memory.write address (← data.bytes 0 size.toNat) with
      | some memory => return memory
      | none => .error (.verify "writing segment \x7b:x\x7d (size \x7b:x\x7d) failed")
  else return memory

/-- The permissions the flags of a segment ask for. -/
def segmentPermissions (flags : Word) : MemoryFlags :=
  let permissions := MemoryFlags.read
  let permissions := if flags &&& 1 ≠ 0 then permissions ||| MemoryFlags.execute else permissions
  if flags &&& 2 ≠ 0 then permissions ||| MemoryFlags.write else permissions

def grantSegment (memory : Memory) (address size : Word) (permissions : MemoryFlags) :
    Except Abort Memory :=
  if 0 < size then
    match memory.setPermissions address size permissions with
    | some memory => return memory
    | none => .error
      (.verify "setting segment's permissions \x7b:x\x7d (size \x7b:x\x7d) failed")
  else return memory

/-- The rest of an iteration for a loadable header. -/
def loadSegment (elf : BinaryFileView) (s : LoadState) (ph : ProgramHeader) :
    Except Abort LoadState := do
  let baseAddress ← checkBase s.baseAddress ph.memoryAddress
  let endAddress := stdMax s.endAddress (ph.memoryAddress + ph.memorySize)
  let segmentDataSize := stdMin ph.fileSize ph.memorySize
  let segmentData ← elf.slice ph.fileOffset segmentDataSize
  let memory ← writeSegment s.memory ph.memoryAddress segmentData segmentDataSize
  let memory ← grantSegment memory ph.memoryAddress ph.memorySize (segmentPermissions ph.flags)
  return ⟨baseAddress, endAddress, memory⟩

/-- One iteration of the loop. -/
def loadHeader (elf : BinaryFileView) (phOffset pheSize : Word) (i : Nat) (s : LoadState) :
    Except Abort LoadState := do
  let entry := (BitVec.ofNat 32 i * pheSize.setWidth 32).setWidth 64
  let ph ← elf.slice (phOffset + entry) pheSize
  match ← readProgramHeader ph with
  | none => return s
  | some header => loadSegment elf s header

/-- The loop, up to an index. -/
def loadHeaders (elf : BinaryFileView) (phOffset pheSize : Word) (memory : Memory) :
    Nat → Except Abort LoadState
  | 0 => return ⟨0, 0, memory⟩
  | i + 1 => do loadHeader elf phOffset pheSize i (← loadHeaders elf phOffset pheSize memory i)

/-- The size of the image, rounded up to whole pages. -/
def alignedSize (baseAddress endAddress : Word) : Word :=
  let size := endAddress - baseAddress
  (size + 0xfff) &&& ~~~0xfff

/-- `ElfLoader::load`. -/
def load (binary : Binary) (memory : Memory) : Except Abort (Image × Memory) := do
  let elf := BinaryFileView.ofBinary binary
  verify ((← elf.read32 0x00) = 0x464c457f) "image has invalid ELF magic"
  verify ((← elf.read8 0x04) = 2) "image is not 64 bit"
  verify ((← elf.read8 0x05) = 1) "image is not little endian"
  verify ((← elf.read16 0x10) = 2) "image is not executable file"
  let entrypoint ← elf.read64 0x18
  let phOffset ← elf.read64 0x20
  let pheSize ← elf.read16 0x36
  let pheCount ← elf.read16 0x38
  verify (pheSize = 0x38) "unexpected image program header entry size"
  verify (entrypoint ≠ 0) "image has no entrypoint"
  let s ← loadHeaders elf phOffset pheSize memory pheCount.toNat
  return (⟨s.baseAddress, alignedSize s.baseAddress s.endAddress, entrypoint⟩, s.memory)

end ElfLoader

/-! ### Reads of the file -/

/-- The number at an offset of the file. -/
def Binary.value (b : Binary) (offset n : Nat) : Word := leValue (bytesAt b.byte offset n)

namespace BinaryFileView

variable {v : BinaryFileView} {b : Binary} {offset : Word} {n : Nat}

/-- Bytes inside the file are read, and others are undefined. -/
theorem bytes_eq (v : BinaryFileView) (offset : Word) (n : Nat) :
    v.bytes offset n =
      if n = 0 ∨ (v.start + offset).toNat + n ≤ v.file.length then
        .ok (bytesAt v.file.byte (v.start + offset).toNat n)
      else .error .undefinedBehaviour := by
  induction n generalizing offset with
  | zero => rfl
  | succ n ih =>
    have bound := v.file.length_lt
    unfold Binary.length at *
    unfold bytes Binary.length
    -- a file ends before 2 ^ 64, so the offset after a byte inside it does not wrap
    by_cases inside : (v.start + offset).toNat < v.file.bytes.length
    · have next : (v.start + (offset + 1)).toNat = (v.start + offset).toNat + 1 := by
        rw [← BitVec.add_assoc, BitVec.toNat_add, show (1 : Word).toNat = 1 from rfl]
        omega
      rw [if_pos inside, ih, next]
      by_cases rest : n = 0 ∨ (v.start + offset).toNat + 1 + n ≤ v.file.bytes.length
      · rw [if_pos rest, if_pos (by omega), bytesAt_succ]
        rfl
      · rw [if_neg rest, if_neg (by omega)]
        rfl
    · rw [if_neg inside, if_neg (by omega)]

/-- A read at a place of a view that lies in the file. -/
theorem read_eq_of_inside (positive : 0 < n) (short : n ≤ 8) (last : offset.toNat + n ≤ v.size.toNat)
    (inside : v.start.toNat + offset.toNat + n ≤ v.file.length) :
    v.read n offset = .ok (v.file.value (v.start.toNat + offset.toNat) n) := by
  have bound := v.file.length_lt
  have small := v.size.isLt
  unfold Binary.length at inside
  have start : (v.start + offset).toNat = v.start.toNat + offset.toNat := by
    rw [BitVec.toNat_add, Nat.mod_eq_of_lt (by omega)]
  have fits : offset + BitVec.ofNat 64 n ≤ v.size := by
    rw [BitVec.le_def, BitVec.toNat_add, BitVec.toNat_ofNat]
    omega
  unfold read
  dsimp only
  rw [if_pos fits, bytes_eq, start, if_pos (.inr (by unfold Binary.length; omega))]
  rfl

@[simp] theorem ofBinary_size (b : Binary) : (ofBinary b).size.toNat = b.length := by
  have bound := b.length_lt
  unfold ofBinary
  rw [BitVec.toNat_ofNat]
  unfold Binary.length
  omega

/-- A read of the whole file at a small offset. -/
theorem read_ofBinary (b : Binary) (positive : 0 < n) (short : n ≤ 8) (low : offset.toNat < 2 ^ 63) :
    (ofBinary b).read n offset =
      if offset.toNat + n ≤ b.length then .ok (b.value offset.toNat n)
      else .error (.verify "reading out of bounds") := by
  split
  · next inside =>
    have start : (ofBinary b).start.toNat = 0 := rfl
    have read : (ofBinary b).read n offset = .ok (b.value ((ofBinary b).start.toNat + offset.toNat) n) :=
      read_eq_of_inside positive short (by rw [ofBinary_size]; exact inside) (by rw [start, Nat.zero_add]; exact inside)
    rwa [start, Nat.zero_add] at read
  · next outside =>
    unfold read
    refine if_neg fun fits => outside ?_
    -- a low offset does not wrap, so the source's test is the exact one
    rw [BitVec.le_def, BitVec.toNat_add, BitVec.toNat_ofNat, ofBinary_size] at fits
    omega

/-- The check of a range of the file, whose end may have wrapped. -/
theorem le_size_iff (b : Binary) (offset size : Word) :
    offset + size ≤ (ofBinary b).size ↔ (offset.toNat + size.toNat) % 2 ^ 64 ≤ b.length := by
  rw [BitVec.le_def, BitVec.toNat_add, ofBinary_size]

theorem slice_refused (b : Binary) {offset size : Word}
    (refused : ¬(offset.toNat + size.toNat) % 2 ^ 64 ≤ b.length) :
    (ofBinary b).slice offset size = .error (.verify "reading out of bounds") :=
  if_neg fun fits => refused ((le_size_iff b offset size).mp fits)

/-- A slice of the whole file. -/
theorem slice_inside (b : Binary) {offset size : Word} (inside : offset.toNat + size.toNat ≤ b.length) :
    (ofBinary b).slice offset size = .ok ⟨b, offset, size⟩ := by
  have bound := b.length_lt
  have length : b.length = b.bytes.length := rfl
  have whole := ofBinary_size b
  have fits : offset + size ≤ (ofBinary b).size := (le_size_iff b offset size).mpr (by omega)
  have low : offset ≤ (ofBinary b).size := by
    rw [BitVec.le_def]
    omega
  have rest : size ≤ (ofBinary b).size - offset := by
    rw [BitVec.le_def, BitVec.toNat_sub_of_le low]
    omega
  have counted : size ≠ dynamicExtent := by
    rintro rfl
    have most : dynamicExtent.toNat = 2 ^ 64 - 1 := rfl
    omega
  have start : (ofBinary b).start + offset = offset := BitVec.zero_add offset
  unfold slice subspan
  dsimp only
  rw [if_pos fits, if_pos ⟨low, .inr rest⟩, if_neg counted, start]
  rfl

/-- A slice whose end has wrapped past the check is undefined, but for the extent that asks for
the rest of the file. -/
theorem slice_wrapped (b : Binary) {offset size : Word} (wraps : 2 ^ 64 ≤ offset.toNat + size.toNat)
    (passes : (offset.toNat + size.toNat) % 2 ^ 64 ≤ b.length) :
    (ofBinary b).slice offset size = .error .undefinedBehaviour ∨
      size = dynamicExtent ∧ ∃ rest, (ofBinary b).slice offset size = .ok ⟨b, offset, rest⟩ := by
  have bound := b.length_lt
  have length : b.length = b.bytes.length := rfl
  have whole := ofBinary_size b
  have start : (ofBinary b).start + offset = offset := BitVec.zero_add offset
  unfold slice subspan
  dsimp only
  rw [if_pos ((le_size_iff b offset size).mpr passes), start]
  by_cases defined : offset ≤ (ofBinary b).size ∧ (size = dynamicExtent ∨ size ≤ (ofBinary b).size - offset)
  · rw [if_pos defined]
    obtain ⟨low, extent | rest⟩ := defined
    · exact .inr ⟨extent, _, rfl⟩
    · -- a range that is in the file has an end that does not wrap
      rw [BitVec.le_def, BitVec.toNat_sub_of_le low] at rest
      rw [BitVec.le_def] at low
      omega
  · exact .inl (if_neg defined)

end BinaryFileView

/-! ### What the loader decides by -/

namespace ElfLoader

/-- The bytes of a segment that come from the file. -/
def ProgramHeader.dataSize (ph : ProgramHeader) : Word := stdMin ph.fileSize ph.memorySize

/-- The memory with the segment's data. -/
def copied (b : Binary) (memory : Memory) (ph : ProgramHeader) : Memory :=
  let data := bytesAt b.byte ph.fileOffset.toNat ph.dataSize.toNat
  { memory with allocation := overwrite memory.allocation ph.memoryAddress.toNat data }

/-- The memory with the segment's permissions. -/
def granted (memory : Memory) (ph : ProgramHeader) : Memory :=
  let flags := List.replicate ph.memorySize.toNat (segmentPermissions ph.flags)
  let start := memory.permissionsOffset + ph.memoryAddress.toNat
  { memory with allocation := overwrite memory.allocation start flags }

/-- The state behind an accepted segment. -/
def LoadState.next (s : LoadState) (b : Binary) (ph : ProgramHeader) : LoadState where
  baseAddress := if s.baseAddress = 0 then ph.memoryAddress else s.baseAddress
  endAddress := stdMax s.endAddress (ph.memoryAddress + ph.memorySize)
  memory := granted (copied b s.memory ph) ph

/-- The first loadable header gives the image its base. -/
def BaseAccepted (baseAddress : Word) (ph : ProgramHeader) : Prop :=
  baseAddress = 0 → ph.memoryAddress ≠ 0 ∧ ph.memoryAddress &&& 0xfff = 0

/-- The copy of the segment passes the range test of the memory. -/
def CopyAccepted (memory : Memory) (ph : ProgramHeader) : Prop :=
  0 < ph.dataSize.toNat → memory.outOfRange ph.memoryAddress ph.dataSize = false

/-- The segment's permissions pass the range test of the memory. -/
def GrantAccepted (memory : Memory) (ph : ProgramHeader) : Prop :=
  0 < ph.memorySize.toNat → memory.outOfRange ph.memoryAddress ph.memorySize = false

/-- What the loop goes on behind: a segment in the file and in the memory. -/
structure Passes (b : Binary) (memory : Memory) (baseAddress : Word) (ph : ProgramHeader) : Prop where
  base : BaseAccepted baseAddress ph
  file : ph.fileOffset.toNat + ph.dataSize.toNat ≤ b.length
  copy : CopyAccepted memory ph
  grant : GrantAccepted memory ph

/-- A segment whose range in the file goes on behind the end of the address space, with an end
that lies in the file again. -/
structure Wraps (b : Binary) (baseAddress : Word) (ph : ProgramHeader) : Prop where
  base : BaseAccepted baseAddress ph
  wraps : 2 ^ 64 ≤ ph.fileOffset.toNat + ph.dataSize.toNat
  file : ph.fileOffset.toNat + ph.dataSize.toNat ≤ 2 ^ 64 + b.length

/-- What becomes of a step of the loader: it goes on, it ends in `verify`, or it is undefined,
which only a range that wraps leads to. -/
inductive Decided {α : Type} (passes wraps : Prop) (next : α) : Except Abort α → Prop
  | continues (passed : passes) : Decided passes wraps next (.ok next)
  | stops (message : String) (fails : ¬passes) : Decided passes wraps next (.error (.verify message))
  | strays (wrapped : wraps) (fails : ¬passes) : Decided passes wraps next (.error .undefinedBehaviour)

theorem verify_bind {α : Type} (condition : Bool) (message : String) (f : Unit → Except Abort α) :
    (verify condition message >>= f) = if condition then f () else .error (.verify message) := by
  cases condition <;> rfl

theorem checkBase_cases (baseAddress : Word) (ph : ProgramHeader) :
    (BaseAccepted baseAddress ph ∧ checkBase baseAddress ph.memoryAddress
      = .ok (if baseAddress = 0 then ph.memoryAddress else baseAddress)) ∨
    (¬BaseAccepted baseAddress ph ∧
      ∃ message, checkBase baseAddress ph.memoryAddress = .error (.verify message)) := by
  unfold checkBase BaseAccepted
  simp only [verify_bind, decide_eq_true_eq]
  -- a base of zero means that no segment was loaded yet
  by_cases first : baseAddress = 0
  · simp only [if_pos first]
    by_cases nonzero : ph.memoryAddress ≠ 0
    · rw [if_pos nonzero]
      by_cases aligned : ph.memoryAddress &&& 0xfff = 0
      · exact .inl ⟨fun _ => ⟨nonzero, aligned⟩, if_pos aligned⟩
      · exact .inr ⟨fun accepted => aligned (accepted first).2, _, if_neg aligned⟩
    · exact .inr ⟨fun accepted => nonzero (accepted first).1, _, if_neg nonzero⟩
  · exact .inl ⟨fun zero => absurd zero first, by rw [if_neg first, if_neg first]; rfl⟩

section Segment

variable {b : Binary} {memory : Memory} {ph : ProgramHeader}

theorem word_pos_iff (a : Word) : 0 < a ↔ 0 < a.toNat := by
  rw [BitVec.lt_def]
  rfl

theorem writeSegment_refused (data : BinaryFileView) (refused : ¬CopyAccepted memory ph) :
    ∃ message, writeSegment memory ph.memoryAddress data ph.dataSize = .error (.verify message) := by
  unfold CopyAccepted at refused
  push Not at refused
  unfold writeSegment
  rw [if_pos ((word_pos_iff _).mpr refused.1), if_pos (by simpa using refused.2)]
  exact ⟨_, rfl⟩

/-- A copy that is let pass, from a range of the file or from one that leaves it. -/
theorem writeSegment_accepted (accepted : CopyAccepted memory ph) (size : Word) :
    writeSegment memory ph.memoryAddress ⟨b, ph.fileOffset, size⟩ ph.dataSize =
      if ph.dataSize.toNat = 0 ∨ ph.fileOffset.toNat + ph.dataSize.toNat ≤ b.length then
        .ok (copied b memory ph)
      else .error .undefinedBehaviour := by
  unfold writeSegment copied
  -- an empty segment is not copied at all, wherever its file offset points
  by_cases empty : ph.dataSize.toNat = 0
  · rw [if_neg (by rw [word_pos_iff]; omega), if_pos (.inl empty), empty]
    simp only [bytesAt, List.range_zero, List.map_nil, overwrite_nil]
    rfl
  · have positive := Nat.pos_of_ne_zero empty
    have start : ph.fileOffset + 0 = ph.fileOffset := BitVec.add_zero _
    rw [if_pos ((word_pos_iff _).mpr positive), accepted positive, if_neg Bool.false_ne_true,
      BinaryFileView.bytes_eq]
    simp only [start]
    by_cases inside : ph.dataSize.toNat = 0 ∨ ph.fileOffset.toNat + ph.dataSize.toNat ≤ b.length
    · simp only [if_pos inside, bind, Except.bind, Memory.write, length_bytesAt,
        BitVec.ofNat_toNat, BitVec.setWidth_eq, accepted positive]
      rfl
    · rw [if_neg inside, if_neg inside]
      rfl

theorem grantSegment_refused (memory : Memory) (permissions : MemoryFlags) (refused : ¬GrantAccepted memory ph) :
    ∃ message, grantSegment memory ph.memoryAddress ph.memorySize permissions
      = .error (.verify message) := by
  unfold GrantAccepted at refused
  push Not at refused
  unfold grantSegment Memory.setPermissions
  rw [if_pos ((word_pos_iff _).mpr refused.1), if_pos (by simpa using refused.2)]
  exact ⟨_, rfl⟩

theorem grantSegment_accepted (accepted : GrantAccepted memory ph) :
    grantSegment memory ph.memoryAddress ph.memorySize (segmentPermissions ph.flags)
      = .ok (granted memory ph) := by
  unfold grantSegment granted
  by_cases empty : ph.memorySize.toNat = 0
  · rw [if_neg (by rw [word_pos_iff]; omega), empty]
    simp only [List.replicate_zero, overwrite_nil]
    rfl
  · have positive := Nat.pos_of_ne_zero empty
    unfold Memory.setPermissions
    rw [if_pos ((word_pos_iff _).mpr positive), accepted positive]
    rfl

/-- The rest of an iteration, case by case. -/
theorem loadSegment_cases (b : Binary) (s : LoadState) (ph : ProgramHeader) :
    Decided (Passes b s.memory s.baseAddress ph) (Wraps b s.baseAddress ph) (s.next b ph)
      (loadSegment (.ofBinary b) s ph) := by
  have bound := b.length_lt
  have offset := ph.fileOffset.isLt
  have length : b.length = b.bytes.length := rfl
  change Decided _ _ _ ((checkBase s.baseAddress ph.memoryAddress).bind fun baseAddress =>
    ((BinaryFileView.ofBinary b).slice ph.fileOffset ph.dataSize).bind fun data =>
    (writeSegment s.memory ph.memoryAddress data ph.dataSize).bind fun memory =>
    (grantSegment memory ph.memoryAddress ph.memorySize (segmentPermissions ph.flags)).bind fun memory =>
    Except.ok (LoadState.mk baseAddress (stdMax s.endAddress (ph.memoryAddress + ph.memorySize)) memory))
  rcases checkBase_cases s.baseAddress ph with ⟨base, checked⟩ | ⟨refused, message, checked⟩
  swap
  · rw [checked]
    exact .stops message fun passes => refused passes.base
  rw [checked]
  simp only [Except.bind]
  -- the source's test on the file range, whose sum can wrap
  by_cases file : (ph.fileOffset.toNat + ph.dataSize.toNat) % 2 ^ 64 ≤ b.length
  swap
  · rw [BinaryFileView.slice_refused b file]
    refine .stops "reading out of bounds" fun passes => ?_
    have inside := passes.file
    omega
  by_cases straight : ph.fileOffset.toNat + ph.dataSize.toNat < 2 ^ 64
  swap
  · have fails : ¬Passes b s.memory s.baseAddress ph := fun passes => by
      have inside := passes.file
      omega
    have wrapped : Wraps b s.baseAddress ph := ⟨base, by omega, by omega⟩
    rcases BinaryFileView.slice_wrapped b (by omega) file with undefined | ⟨extent, rest, sliced⟩
    · rw [undefined]
      exact .strays wrapped fails
    -- the rest of the file is sliced, and the copy of more than it is refused or undefined
    rw [sliced]
    dsimp only
    by_cases copy : CopyAccepted s.memory ph
    · rw [writeSegment_accepted copy, if_neg (by omega)]
      exact .strays wrapped fails
    · obtain ⟨message, refused⟩ := writeSegment_refused ⟨b, ph.fileOffset, rest⟩ copy
      rw [refused]
      exact .stops message fails
  have inside : ph.fileOffset.toNat + ph.dataSize.toNat ≤ b.length := by omega
  rw [BinaryFileView.slice_inside b inside]
  dsimp only
  by_cases copy : CopyAccepted s.memory ph
  swap
  · obtain ⟨message, refused⟩ := writeSegment_refused ⟨b, ph.fileOffset, ph.dataSize⟩ copy
    rw [refused]
    exact .stops message fun passes => copy passes.copy
  rw [writeSegment_accepted copy, if_pos (.inr inside)]
  dsimp only
  -- the flags are set after the copy, which does not change the test on them
  by_cases grant : GrantAccepted s.memory ph
  · rw [grantSegment_accepted (show GrantAccepted (copied b s.memory ph) ph from grant)]
    exact .continues ⟨base, inside, copy, grant⟩
  · obtain ⟨message, refused⟩ := grantSegment_refused (copied b s.memory ph)
      (segmentPermissions ph.flags) grant
    rw [refused]
    exact .stops message fun passes => grant passes.grant

end Segment

end ElfLoader

/-! ### Program headers -/

namespace Binary

open ElfLoader

/-- The offset of the program headers. -/
def phOffset (b : Binary) : Nat := (b.value 0x20 8).toNat

def pheCount (b : Binary) : Nat := (b.value 0x38 2).toNat

def headerOffset (b : Binary) (i : Nat) : Nat := b.phOffset + 0x38 * i

/-- The offset as the loop computes it. -/
def headerStart (b : Binary) (i : Nat) : Word :=
  b.value 0x20 8 + (BitVec.ofNat 32 i * (0x38 : Word).setWidth 32).setWidth 64

/-- The header at an offset of the file, if it is loadable. -/
def headerAt (b : Binary) (offset : Nat) : Option ProgramHeader :=
  if b.value offset 4 = 1 then
    some ⟨b.value (offset + 0x04) 4, b.value (offset + 0x08) 8, b.value (offset + 0x10) 8,
      b.value (offset + 0x20) 8, b.value (offset + 0x28) 8⟩
  else none

def programHeader (b : Binary) (i : Nat) : Option ProgramHeader := b.headerAt (b.headerOffset i)

/-- The base address in front of a header: the address of the first loadable one. -/
def baseBefore (b : Binary) : Nat → Word
  | 0 => 0
  | i + 1 =>
    match b.programHeader i with
    | some ph => if b.baseBefore i = 0 then ph.memoryAddress else b.baseBefore i
    | none => b.baseBefore i

/-- The state in front of a header, when everything before it is accepted. -/
def stateBefore (b : Binary) (memory : Memory) : Nat → LoadState
  | 0 => ⟨0, 0, memory⟩
  | i + 1 =>
    match b.programHeader i with
    | some ph => (b.stateBefore memory i).next b ph
    | none => b.stateBefore memory i

/-- The loop goes on behind the header. -/
def HeaderPasses (b : Binary) (memory : Memory) (i : Nat) : Prop :=
  b.headerOffset i + 0x38 ≤ b.length ∧
    ∀ ph, b.programHeader i = some ph → Passes b memory (b.baseBefore i) ph

/-- The range of the header, or of its segment's data, goes on behind the end of the address
space. -/
def HeaderWraps (b : Binary) (i : Nat) : Prop :=
  2 ^ 64 ≤ b.headerOffset i + 0x38 ∨
    b.headerOffset i + 0x38 ≤ b.length ∧
      ∃ ph, b.programHeader i = some ph ∧ Wraps b (b.baseBefore i) ph

/-- The loop comes to a header whose ranges wrap. -/
def WrapsBelow (b : Binary) (memory : Memory) (n : Nat) : Prop :=
  ∃ i < n, (∀ j < i, b.HeaderPasses memory j) ∧ b.HeaderWraps i

section Headers

variable {b : Binary} {memory : Memory} {i n : Nat}

theorem stateBefore_succ_of_none (header : b.programHeader n = none) :
    b.stateBefore memory (n + 1) = b.stateBefore memory n := by
  rw [stateBefore, header]

theorem stateBefore_succ_of_some {ph : ProgramHeader} (header : b.programHeader n = some ph) :
    b.stateBefore memory (n + 1) = (b.stateBefore memory n).next b ph := by
  rw [stateBefore, header]

theorem stateBefore_base (b : Binary) (memory : Memory) (i : Nat) :
    (b.stateBefore memory i).baseAddress = b.baseBefore i := by
  induction i with
  | zero => rfl
  | succ i ih =>
    unfold stateBefore baseBefore
    cases b.programHeader i with
    | none => exact ih
    | some ph =>
      dsimp only [LoadState.next]
      rw [ih]

theorem stateBefore_size (b : Binary) (memory : Memory) (i : Nat) :
    (b.stateBefore memory i).memory.size = memory.size := by
  induction i with
  | zero => rfl
  | succ i ih =>
    unfold stateBefore
    cases b.programHeader i with
    | none => exact ih
    | some ph => exact ih

/-- What a segment passes depends on the size of the memory only. -/
theorem accepted_congr {m : Memory} (same : m.size = memory.size) (ph : ProgramHeader) :
    (CopyAccepted m ph ↔ CopyAccepted memory ph) ∧ (GrantAccepted m ph ↔ GrantAccepted memory ph) := by
  unfold CopyAccepted GrantAccepted Memory.outOfRange
  rw [same]
  exact ⟨Iff.rfl, Iff.rfl⟩

theorem passes_congr {m : Memory} (same : m.size = memory.size) {base : Word} {ph : ProgramHeader} :
    Passes b m base ph ↔ Passes b memory base ph := by
  obtain ⟨copy, grant⟩ := accepted_congr same ph
  exact ⟨fun h => ⟨h.base, h.file, copy.mp h.copy, grant.mp h.grant⟩,
    fun h => ⟨h.base, h.file, copy.mpr h.copy, grant.mpr h.grant⟩⟩

/-- The fields of a header that lies in the file. -/
theorem readProgramHeader_inside {start : Word} (inside : start.toNat + 0x38 ≤ b.length) :
    readProgramHeader ⟨b, start, 0x38⟩ = .ok (b.headerAt start.toNat) := by
  have field {n : Nat} {offset : Word} (positive : 0 < n) (short : n ≤ 8)
      (last : offset.toNat + n ≤ 0x38) :
      BinaryFileView.read ⟨b, start, 0x38⟩ n offset = .ok (b.value (start.toNat + offset.toNat) n) :=
    BinaryFileView.read_eq_of_inside positive short last (by dsimp only; omega)
  unfold readProgramHeader headerAt BinaryFileView.read32 BinaryFileView.read64
  rw [field (by decide) (by decide) (by decide), field (by decide) (by decide) (by decide),
    field (by decide) (by decide) (by decide), field (by decide) (by decide) (by decide),
    field (by decide) (by decide) (by decide), field (by decide) (by decide) (by decide)]
  have type : start.toNat + (0x00 : Word).toNat = start.toNat := rfl
  rw [type]
  dsimp only [bind, Except.bind]
  -- a header of another type is not read any further
  by_cases loadable : b.value start.toNat 4 = 1
  · rw [if_neg fun other => other loadable, if_pos loadable]
    rfl
  · rw [if_pos loadable, if_neg loadable]
    rfl

theorem toNat_headerStart (small : i < 2 ^ 16) (below : b.headerOffset i < 2 ^ 64) :
    (b.headerStart i).toNat = b.headerOffset i := by
  have entry : ((BitVec.ofNat 32 i * (0x38 : Word).setWidth 32).setWidth 64).toNat = 0x38 * i := by
    rw [BitVec.toNat_setWidth, BitVec.toNat_mul, BitVec.toNat_ofNat,
      show ((0x38 : Word).setWidth 32).toNat = 0x38 by decide, Nat.mod_eq_of_lt (by omega),
      Nat.mod_eq_of_lt (by omega), Nat.mod_eq_of_lt (by omega), Nat.mul_comm]
  unfold headerOffset phOffset at below ⊢
  unfold headerStart
  rw [BitVec.toNat_add, entry, Nat.mod_eq_of_lt below]

/-- One iteration. -/
theorem loadHeader_cases (small : i < 2 ^ 16) (below : b.headerOffset i < 2 ^ 64)
    (table : 0x38 ≤ b.length) :
    Decided (b.HeaderPasses memory i) (b.HeaderWraps i) (b.stateBefore memory (i + 1))
      (loadHeader (.ofBinary b) (b.value 0x20 8) 0x38 i (b.stateBefore memory i)) := by
  have bound := b.length_lt
  have length : b.length = b.bytes.length := rfl
  have place := toNat_headerStart small below
  have size : (0x38 : Word).toNat = 0x38 := rfl
  have equation : loadHeader (.ofBinary b) (b.value 0x20 8) 0x38 i (b.stateBefore memory i) =
      ((BinaryFileView.ofBinary b).slice (b.headerStart i) 0x38).bind fun ph =>
        (readProgramHeader ph).bind fun header => match header with
          | none => .ok (b.stateBefore memory i)
          | some header => loadSegment (.ofBinary b) (b.stateBefore memory i) header := rfl
  rw [equation]
  by_cases wraps : 2 ^ 64 ≤ b.headerOffset i + 0x38
  · rcases @BinaryFileView.slice_wrapped b (b.headerStart i) 0x38 (by omega) (by omega) with
      undefined | ⟨extent, -⟩
    · rw [undefined]
      exact .strays (.inl wraps) fun passes => by
        have inside := passes.1
        omega
    · cases extent
  by_cases inside : b.headerOffset i + 0x38 ≤ b.length
  swap
  · rw [BinaryFileView.slice_refused b (by omega)]
    exact .stops _ fun passes => inside passes.1
  rw [BinaryFileView.slice_inside b (by omega)]
  simp only [Except.bind]
  rw [readProgramHeader_inside (by omega), place]
  -- only the segment decides now
  have passes : (∀ ph, b.programHeader i = some ph → Passes b memory (b.baseBefore i) ph) ↔
      b.HeaderPasses memory i := ⟨fun h => ⟨inside, h⟩, And.right⟩
  have wrapped : (∃ ph, b.programHeader i = some ph ∧ Wraps b (b.baseBefore i) ph) ↔
      b.HeaderWraps i := ⟨fun h => .inr ⟨inside, h⟩, fun h => (h.resolve_left wraps).2⟩
  have next : b.stateBefore memory (i + 1) = match b.programHeader i with
      | some ph => (b.stateBefore memory i).next b ph
      | none => b.stateBefore memory i := rfl
  rw [← passes, ← wrapped, next]
  have here : b.headerAt (b.headerOffset i) = b.programHeader i := rfl
  rw [here]
  cases b.programHeader i with
  | none =>
    have passed : ∀ ph, none = some ph → Passes b memory (b.baseBefore i) ph := fun _ same => by
      cases same
    exact .continues passed
  | some ph =>
    have result := loadSegment_cases b (b.stateBefore memory i) ph
    rw [stateBefore_base, passes_congr (stateBefore_size b memory i)] at result
    simpa only [Option.some.injEq, forall_eq', exists_eq_left'] using result

theorem pheCount_le (b : Binary) : b.pheCount ≤ 2 ^ 16 := by
  have small := leValue_lt (bytesAt b.byte 0x38 2)
  rw [length_bytesAt] at small
  exact Nat.le_of_lt small

theorem not_wraps_of_passes (passes : b.HeaderPasses memory i) : ¬b.HeaderWraps i := by
  have bound := b.length_lt
  have length : b.length = b.bytes.length := rfl
  rintro (wraps | ⟨-, ph, header, wraps⟩)
  · have inside := passes.1
    omega
  · have inside := (passes.2 ph header).file
    have first := wraps.wraps
    omega

/-- The header before was inside the file, so the next offset does not wrap. -/
theorem headerOffset_lt (passed : ∀ j < n, b.HeaderPasses memory j) : b.headerOffset n < 2 ^ 64 := by
  have bound := b.length_lt
  have length : b.length = b.bytes.length := rfl
  cases n with
  | zero => exact (b.value 0x20 8).isLt
  | succ n =>
    have inside := (passed n (Nat.lt_succ_self n)).1
    unfold headerOffset at inside ⊢
    omega

/-- The loop, up to an index. -/
theorem loadHeaders_cases (small : n ≤ 2 ^ 16) (table : 0x38 ≤ b.length) :
    Decided (∀ i < n, b.HeaderPasses memory i) (b.WrapsBelow memory n) (b.stateBefore memory n)
      (loadHeaders (.ofBinary b) (b.value 0x20 8) 0x38 memory n) := by
  induction n with
  | zero => exact .continues fun i below => by omega
  | succ n ih =>
    have before := ih (by omega)
    unfold loadHeaders
    generalize loadHeaders (.ofBinary b) (b.value 0x20 8) 0x38 memory n = r at before
    -- a failed or stray header ends the loop, so only the first one counts
    cases before with
    | stops message fails =>
      exact .stops message fun passes => fails fun i below => passes i (by omega)
    | strays wrapped fails =>
      obtain ⟨i, below, passes, wraps⟩ := wrapped
      exact .strays ⟨i, by omega, passes, wraps⟩ fun passes => fails fun i below => passes i (by omega)
    | continues passed =>
      have step : Decided (b.HeaderPasses memory n) (b.HeaderWraps n) (b.stateBefore memory (n + 1)) _ :=
        loadHeader_cases (by omega) (headerOffset_lt passed) table
      change Decided _ _ _ (loadHeader (.ofBinary b) (b.value 0x20 8) 0x38 n (b.stateBefore memory n))
      generalize loadHeader (.ofBinary b) (b.value 0x20 8) 0x38 n (b.stateBefore memory n) = r at step
      cases step with
      | continues passes =>
        exact .continues fun i inside => by
          by_cases last : i = n
          · exact last ▸ passes
          · exact passed i (by omega)
      | stops message fails => exact .stops message fun passes => fails (passes n (by omega))
      | strays wrapped fails =>
        exact .strays ⟨n, by omega, passed, wrapped⟩ fun passes => fails (passes n (by omega))

/-- The loop comes to a header exactly where all headers before it pass. -/
theorem reached_iff (small : n ≤ 2 ^ 16) (table : 0x38 ≤ b.length) {s : LoadState} :
    loadHeaders (.ofBinary b) (b.value 0x20 8) 0x38 memory n = .ok s ↔
      (∀ i < n, b.HeaderPasses memory i) ∧ s = b.stateBefore memory n := by
  have cases := @loadHeaders_cases b memory _ small table
  generalize loadHeaders (.ofBinary b) (b.value 0x20 8) 0x38 memory n = r at cases
  cases cases with
  | continues passed =>
    rw [Except.ok.injEq]
    exact ⟨fun same => ⟨passed, same.symm⟩, fun reached => reached.2.symm⟩
  | stops message fails => exact iff_of_false nofun fun reached => fails reached.1
  | strays wrapped fails => exact iff_of_false nofun fun reached => fails reached.1

end Headers

/-! ### The whole load -/

/-- The file header the loader asks for. -/
structure Identified (b : Binary) : Prop where
  table : 0x3a ≤ b.length
  magic : b.value 0x00 4 = 0x464c457f
  wide : b.value 0x04 1 = 2
  littleEndian : b.value 0x05 1 = 1
  executable : b.value 0x10 2 = 2
  entrySize : b.value 0x36 2 = 0x38
  entrypoint : b.value 0x18 8 ≠ 0

/-- The image of an accepted file. -/
def image (b : Binary) (memory : Memory) : Image where
  base := b.baseBefore b.pheCount
  size := alignedSize (b.baseBefore b.pheCount) (b.stateBefore memory b.pheCount).endAddress
  entrypoint := b.value 0x18 8

/-- A file with a header the loader asks for, all of whose segments pass. -/
def Accepted (b : Binary) (memory : Memory) : Prop :=
  b.Identified ∧ ∀ i < b.pheCount, b.HeaderPasses memory i

/-- A file the loop of the loader comes to wrapping ranges in. -/
def Strays (b : Binary) (memory : Memory) : Prop := b.Identified ∧ b.WrapsBelow memory b.pheCount

/-- The ranges of the file that the loader checks behind the file header: that of a header the
loop comes to, and that of the data of its segment. -/
inductive Checks (b : Binary) (memory : Memory) : Word → Word → Prop
  | header {i s} (identified : b.Identified) (counted : i < b.pheCount)
    (reached : loadHeaders (.ofBinary b) (b.value 0x20 8) 0x38 memory i = .ok s) :
    Checks b memory (b.headerStart i) 0x38
  | segment {i s view ph base} (identified : b.Identified) (counted : i < b.pheCount)
    (reached : loadHeaders (.ofBinary b) (b.value 0x20 8) 0x38 memory i = .ok s)
    (sliced : (BinaryFileView.ofBinary b).slice (b.headerStart i) 0x38 = .ok view)
    (read : readProgramHeader view = .ok (some ph))
    (based : checkBase s.baseAddress ph.memoryAddress = .ok base) :
    Checks b memory ph.fileOffset ph.dataSize

section Load

variable {b : Binary} {memory : Memory}

/-- The result of a load that ends in `verify`. -/
def Stops {α : Type} (r : Except Abort α) : Prop := ∃ message, r = .error (.verify message)

theorem Stops.bind {α β : Type} {x : Except Abort α} {f : α → Except Abort β}
    (first : (∃ a, x = .ok a) ∨ Stops x) (rest : ∀ a, Stops (f a)) : Stops (x >>= f) := by
  rcases first with ⟨a, rfl⟩ | ⟨message, rfl⟩
  · exact rest a
  · exact ⟨message, rfl⟩

theorem read_or_stops (b : Binary) {n : Nat} (positive : 0 < n) (short : n ≤ 8) {offset : Word}
    (low : offset.toNat < 2 ^ 63) : (∃ v, (BinaryFileView.ofBinary b).read n offset = .ok v) ∨
      Stops ((BinaryFileView.ofBinary b).read n offset) := by
  rw [BinaryFileView.read_ofBinary b positive short low]
  split
  · exact .inl ⟨_, rfl⟩
  · exact .inr ⟨_, rfl⟩

theorem verify_or_stops (condition : Bool) (message : String) :
    (∃ v, verify condition message = .ok v) ∨ Stops (verify condition message) := by
  cases condition
  · exact .inr ⟨_, rfl⟩
  · exact .inl ⟨_, rfl⟩

/-- A file that ends in its header. -/
theorem load_short (short : b.length < 0x3a) : Stops (load b memory) := by
  unfold load
  refine .bind (read_or_stops b (by decide) (by decide) (by decide)) fun magic => ?_
  refine .bind (verify_or_stops _ _) fun _ => ?_
  refine .bind (read_or_stops b (by decide) (by decide) (by decide)) fun wide => ?_
  refine .bind (verify_or_stops _ _) fun _ => ?_
  refine .bind (read_or_stops b (by decide) (by decide) (by decide)) fun endian => ?_
  refine .bind (verify_or_stops _ _) fun _ => ?_
  refine .bind (read_or_stops b (by decide) (by decide) (by decide)) fun type => ?_
  refine .bind (verify_or_stops _ _) fun _ => ?_
  refine .bind (read_or_stops b (by decide) (by decide) (by decide)) fun entrypoint => ?_
  refine .bind (read_or_stops b (by decide) (by decide) (by decide)) fun phOffset => ?_
  refine .bind (read_or_stops b (by decide) (by decide) (by decide)) fun pheSize => ?_
  -- the number of headers is the last field
  have last : (BinaryFileView.ofBinary b).read16 0x38 = .error (.verify "reading out of bounds") := by
    unfold BinaryFileView.read16
    rw [BinaryFileView.read_ofBinary b (by decide) (by decide) (by decide)]
    exact if_neg (Nat.not_le.mpr short)
  exact ⟨_, by rw [last]; rfl⟩

theorem ok_bind {α β : Type} (a : α) (f : α → Except Abort β) : (Except.ok a >>= f) = f a := rfl

theorem decided_unidentified {result : Image × Memory} (unidentified : ¬b.Identified) (message : String) :
    Decided (b.Accepted memory) (b.Strays memory) result (.error (.verify message)) :=
  .stops message fun accepted => unidentified accepted.1

/-- The whole load, case by case. -/
theorem load_cases (b : Binary) (memory : Memory) :
    Decided (b.Accepted memory) (b.Strays memory)
      (b.image memory, (b.stateBefore memory b.pheCount).memory) (load b memory) := by
  by_cases short : b.length < 0x3a
  · obtain ⟨message, stops⟩ : Stops (load b memory) := load_short short
    rw [stops]
    exact decided_unidentified (fun identified => absurd identified.table (Nat.not_le.mpr short)) message
  have table : 0x3a ≤ b.length := Nat.not_lt.mp short
  have field {n : Nat} {offset : Word} (k : Nat) (place : offset.toNat = k) (positive : 0 < n)
      (short : n ≤ 8) (inside : k + n ≤ 0x3a) :
      (BinaryFileView.ofBinary b).read n offset = .ok (b.value k n) := by
    rw [BinaryFileView.read_ofBinary b positive short (by omega), place, if_pos (by omega)]
  unfold load
  dsimp only [BinaryFileView.read8, BinaryFileView.read16, BinaryFileView.read32, BinaryFileView.read64]
  rw [field 0x00 rfl (by decide) (by decide) (by decide),
    field 0x04 rfl (by decide) (by decide) (by decide),
    field 0x05 rfl (by decide) (by decide) (by decide),
    field 0x10 rfl (by decide) (by decide) (by decide),
    field 0x18 rfl (by decide) (by decide) (by decide),
    field 0x20 rfl (by decide) (by decide) (by decide),
    field 0x36 rfl (by decide) (by decide) (by decide),
    field 0x38 rfl (by decide) (by decide) (by decide)]
  simp only [ok_bind, verify_bind, decide_eq_true_eq]
  -- one check of the header after the other
  by_cases magic : b.value 0x00 4 = 0x464c457f
  swap
  · rw [if_neg magic]
    exact decided_unidentified (fun identified => magic identified.magic) _
  rw [if_pos magic]
  by_cases wide : b.value 0x04 1 = 2
  swap
  · rw [if_neg wide]
    exact decided_unidentified (fun identified => wide identified.wide) _
  rw [if_pos wide]
  by_cases littleEndian : b.value 0x05 1 = 1
  swap
  · rw [if_neg littleEndian]
    exact decided_unidentified (fun identified => littleEndian identified.littleEndian) _
  rw [if_pos littleEndian]
  by_cases executable : b.value 0x10 2 = 2
  swap
  · rw [if_neg executable]
    exact decided_unidentified (fun identified => executable identified.executable) _
  rw [if_pos executable]
  by_cases entrySize : b.value 0x36 2 = 0x38
  swap
  · rw [if_neg entrySize]
    exact decided_unidentified (fun identified => entrySize identified.entrySize) _
  rw [if_pos entrySize]
  by_cases entrypoint : b.value 0x18 8 ≠ 0
  swap
  · rw [if_neg entrypoint]
    exact decided_unidentified (fun identified => entrypoint identified.entrypoint) _
  rw [if_pos entrypoint]
  have identified : b.Identified := ⟨table, magic, wide, littleEndian, executable, entrySize, entrypoint⟩
  have loop : Decided (∀ i < b.pheCount, b.HeaderPasses memory i) (b.WrapsBelow memory b.pheCount)
      (b.stateBefore memory b.pheCount) _ :=
    loadHeaders_cases (pheCount_le b) (show 0x38 ≤ b.length by omega)
  rw [entrySize]
  change Decided _ _ _ ((loadHeaders (.ofBinary b) (b.value 0x20 8) 0x38 memory b.pheCount).bind
    fun s => .ok (Image.mk s.baseAddress (alignedSize s.baseAddress s.endAddress) (b.value 0x18 8), s.memory))
  generalize loadHeaders (.ofBinary b) (b.value 0x20 8) 0x38 memory b.pheCount = r at loop
  cases loop with
  | continues passed =>
    have base := stateBefore_base b memory b.pheCount
    simp only [Except.bind, base]
    exact .continues ⟨identified, passed⟩
  | stops message fails => exact .stops message fun accepted => fails accepted.2
  | strays wrapped fails => exact .strays ⟨identified, wrapped⟩ fun accepted => fails accepted.2

/-- What keeps a load inside of the file: it reads bytes of the file only and ends in `verify`
where it cannot go on, and no check passes for a sum that has wrapped. -/
structure StaysInside (b : Binary) (memory : Memory) : Prop where
  ends : (∃ result, load b memory = .ok result) ∨ Stops (load b memory)
  straight : ∀ offset size, b.Checks memory offset size → offset + size ≤ (BinaryFileView.ofBinary b).size →
    offset.toNat + size.toNat < 2 ^ 64

/-- A header that the loader slices lies in the file, or its range wraps. -/
theorem inside_of_slice {i : Nat} {view : BinaryFileView} (small : i < 2 ^ 16)
    (below : b.headerOffset i < 2 ^ 64)
    (sliced : (BinaryFileView.ofBinary b).slice (b.headerStart i) 0x38 = .ok view) :
    b.headerOffset i + 0x38 ≤ b.length ∧ view = ⟨b, b.headerStart i, 0x38⟩ := by
  have place := toNat_headerStart small below
  have size : (0x38 : Word).toNat = 0x38 := rfl
  by_cases passes : ((b.headerStart i).toNat + (0x38 : Word).toNat) % 2 ^ 64 ≤ b.length
  swap
  · cases (BinaryFileView.slice_refused b passes).symm.trans sliced
  by_cases straight : (b.headerStart i).toNat + (0x38 : Word).toNat < 2 ^ 64
  · have inside : (b.headerStart i).toNat + (0x38 : Word).toNat ≤ b.length := by omega
    cases (BinaryFileView.slice_inside b inside).symm.trans sliced
    exact ⟨by omega, rfl⟩
  · rcases BinaryFileView.slice_wrapped b (Nat.not_lt.mp straight) passes with undefined | ⟨extent, -⟩
    · cases undefined.symm.trans sliced
    · cases extent

/-- The loader stays inside of the file exactly where it comes to no range that wraps. -/
theorem load_inside_iff (b : Binary) (memory : Memory) : b.StaysInside memory ↔ ¬b.Strays memory := by
  have count := pheCount_le b
  constructor
  · rintro ⟨-, exact⟩ ⟨identified, i, counted, passed, wraps⟩
    have table := identified.table
    have reached := (reached_iff (by omega) (by omega)).mpr ⟨passed, rfl⟩
    have place := toNat_headerStart (by omega) (headerOffset_lt passed)
    have size : (0x38 : Word).toNat = 0x38 := rfl
    rcases wraps with header | ⟨inside, ph, found, segment⟩
    · -- the header's own range has passed the check
      have fits := (BinaryFileView.le_size_iff b (b.headerStart i) 0x38).mpr (by
        have start := (b.headerStart i).isLt
        omega)
      have straight := exact _ _ (.header identified counted reached) fits
      omega
    · have sliced := @BinaryFileView.slice_inside b (b.headerStart i) 0x38 (by omega)
      have read := @readProgramHeader_inside b (b.headerStart i) (by omega)
      rw [place] at read
      have base := segment.base
      rcases checkBase_cases (b.baseBefore i) ph with ⟨-, based⟩ | ⟨refused, -⟩
      swap
      · exact refused base
      rw [← stateBefore_base b memory i] at based
      have wrapped := segment.wraps
      have file := segment.file
      have offset := ph.fileOffset.isLt
      have data := ph.dataSize.isLt
      have fits := (BinaryFileView.le_size_iff b ph.fileOffset ph.dataSize).mpr (by omega)
      have straight := exact _ _
        (.segment identified counted reached sliced (read.trans (congrArg Except.ok found)) based) fits
      omega
  · intro straight
    refine ⟨?_, fun offset size checked fits => ?_⟩
    · have cases := load_cases b memory
      generalize load b memory = r at cases
      cases cases with
      | continues accepted => exact .inl ⟨_, rfl⟩
      | stops message fails => exact .inr ⟨message, rfl⟩
      | strays wrapped => exact absurd wrapped straight
    · by_contra wraps
      rw [Nat.not_lt] at wraps
      rw [BinaryFileView.le_size_iff] at fits
      refine straight ?_
      cases checked with
      | @header i s identified counted reached =>
        have passed := ((reached_iff (by omega) (Nat.le_trans (by decide) identified.table)).mp reached).1
        have place := toNat_headerStart (by omega) (headerOffset_lt passed)
        have size : (0x38 : Word).toNat = 0x38 := rfl
        exact ⟨identified, i, counted, passed, .inl (by omega)⟩
      | @segment i s view ph base identified counted reached sliced read based =>
        obtain ⟨passed, rfl⟩ := (reached_iff (by omega) (Nat.le_trans (by decide) identified.table)).mp reached
        have below := headerOffset_lt passed
        have place := toNat_headerStart (by omega) below
        obtain ⟨inside, rfl⟩ := inside_of_slice (by omega) below sliced
        rw [readProgramHeader_inside (by omega), place] at read
        have found : b.programHeader i = some ph := Except.ok.inj read
        rw [stateBefore_base] at based
        have accepted : BaseAccepted (b.baseBefore i) ph := by
          rcases checkBase_cases (b.baseBefore i) ph with ⟨accepted, -⟩ | ⟨-, message, refused⟩
          · exact accepted
          · cases refused.symm.trans based
        exact ⟨identified, i, counted, passed, .inr ⟨inside, ph, found, accepted, wraps, by omega⟩⟩

/-- A file header that puts its only program header in the last 56 bytes of the address space. -/
def straying : Binary where
  bytes := [0x7f, 0x45, 0x4c, 0x46, 0x02, 0x01, 0x01, 0x00] ++ List.replicate 8 0 ++
    [0x02, 0x00, 0xf3, 0x00, 0x01, 0x00, 0x00, 0x00] ++
    [0x00, 0x00, 0x40, 0x00, 0x00, 0x00, 0x00, 0x00] ++
    [0xc8, 0xff, 0xff, 0xff, 0xff, 0xff, 0xff, 0xff] ++ List.replicate 14 0 ++
    [0x38, 0x00, 0x01, 0x00]
  length_lt := by decide

theorem load_straying : ¬∀ (b : Binary) (memory : Memory), b.StaysInside memory := fun claim => by
  have undefined : load straying (Memory.create 16 (by decide)) = .error .undefinedBehaviour := rfl
  have outcome := (claim straying (Memory.create 16 (by decide))).ends
  rw [undefined] at outcome
  rcases outcome with ⟨_, same⟩ | ⟨_, same⟩ <;> cases same

end Load

end Binary

end Riscv64Emulator
