import Riscv64Emulator.Lib.Frames
import Riscv64Emulator.Jit.CodeBuffer

/-!
# The dump of the generated code

`CodeDump.cpp` writes the blocks a `CodeBuffer` publishes to a file, and `ViewJit.py` reads
them back. The host is little endian, and a write to the file writes all of its bytes. They are there
behind the flush at the end of `CodeDump::write`, and all of them where the file is closed.
-/
namespace Riscv64Emulator.Jit

/-! ### `CodeDump` -/

/-- `CodeDump`, with the bytes that were written to its file. -/
structure CodeDump where
  file : List Byte

namespace CodeDump

inductive Architecture where
  | aarch64
  | x64
deriving DecidableEq, Repr

def Architecture.value : Architecture → Word
  | .aarch64 => 1
  | .x64 => 2

def magic : Word := 0xab773acf

/-- `CodeDump::CodeDump`. -/
def create (architecture : Architecture) : CodeDump :=
  ⟨leBytes 4 magic ++ leBytes 4 architecture.value⟩

/-- A block in the file: its address, its size and its contents. -/
def blockBytes (block : Word × List Byte) : List Byte :=
  leBytes 8 block.1 ++ (leBytes 8 (BitVec.ofNat 64 block.2.length) ++ block.2)

/-- `CodeDump::write`. -/
def write (dump : CodeDump) (pc : Word) (code : List Byte) : CodeDump :=
  ⟨dump.file ++ blockBytes (pc, code)⟩

end CodeDump

/-- The JIT a build has: the macro `VM_JIT_X64`, the macro `VM_JIT_AARCH64`, or neither. -/
inductive JitTarget where
  | x64
  | aarch64
  | other
deriving DecidableEq, Repr

def codeDumpArchitecture : JitTarget → Except Abort CodeDump.Architecture
  | .x64 => .ok .x64
  | .aarch64 => .ok .aarch64
  | .other => .error (.fatalError "cannot enable jit dumping to file: unknown code architecture")

/-! ### `ViewJit.py` -/

namespace ViewJit

open CodeDump (Architecture)

/-- Why the loop of the script ends: `read` got no whole header, it got a part of the code only,
or it was asked for more than a C `ssize_t` counts. -/
inductive BlockEnd where
  | noHeader
  | truncated (pc : Word)
  | overflow
deriving DecidableEq, Repr

/-- `read_block`. -/
def readBlock (file : List Byte) : Scan Byte (Word × List Byte) BlockEnd :=
  let headerBytes := file.take 16
  if headerBytes.length ≠ 16 then .stop .noHeader
  else
    let pc := leValue (headerBytes.take 8)
    let size := (leValue (headerBytes.drop 8)).toNat
    if 2 ^ 63 ≤ size then .stop .overflow
    else
      let codeBlock := (file.drop 16).take size
      if codeBlock.length ≠ size then .stop (.truncated pc)
      else .item (pc, codeBlock) ((file.drop 16).drop size)

theorem readBlock_forward {file rest : List Byte} {block : Word × List Byte}
    (read : readBlock file = .item block rest) : rest.length < file.length := by
  unfold readBlock at read
  dsimp only at read
  split at read
  · cases read
  next header =>
    rw [List.length_take] at header
    split at read
    · cases read
    · split at read
      · cases read
      · cases read
        rw [List.length_drop, List.length_drop]
        omega

/-- The loop over the blocks. -/
def blocks : FrameReader Byte (Word × List Byte) BlockEnd := ⟨readBlock, readBlock_forward⟩

@[simp] theorem next_blocks (file : List Byte) : blocks.next file = readBlock file := rfl

/-- The script: the architecture it prints and the blocks it hands to the disassembler. -/
def view (file : List Byte) : Except String (Architecture × List (Word × List Byte) × BlockEnd) := do
  let headerBytes := file.take 8
  if headerBytes.length ≠ 8 then throw "invalid jit dump header"
  let magic := leValue (headerBytes.take 4)
  let arch := leValue (headerBytes.drop 4)
  if magic ≠ 0xab773acf then throw "invalid jit dump magic"
  let architecture ← match arch.toNat with
    | 1 => pure Architecture.aarch64
    | 2 => pure Architecture.x64
    | arch => throw ("invalid jit dump architecture " ++ toString arch)
  return (architecture, blocks.readAll (file.drop 8))

/-! ### One block -/

theorem leValue_leBytes_eight (v : Word) : leValue (leBytes 8 v) = v := by
  rw [leValue_leBytes]
  simp

/-- Behind a whole header it depends on the bytes that are left. -/
theorem readBlock_header (pc size : Word) (rest : List Byte) (small : size.toNat < 2 ^ 63) :
    readBlock (leBytes 8 pc ++ (leBytes 8 size ++ rest)) =
      if rest.length < size.toNat then .stop (.truncated pc)
      else .item (pc, rest.take size.toNat) (rest.drop size.toNat) := by
  have length : (leBytes 8 pc ++ leBytes 8 size).length = 16 := by
    rw [List.length_append, length_leBytes, length_leBytes]
  have header : (leBytes 8 pc ++ (leBytes 8 size ++ rest)).take 16 = leBytes 8 pc ++ leBytes 8 size := by
    rw [← List.append_assoc]
    exact List.take_left' length
  have behind : (leBytes 8 pc ++ (leBytes 8 size ++ rest)).drop 16 = rest := by
    rw [← List.append_assoc]
    exact List.drop_left' length
  have first : (leBytes 8 pc ++ leBytes 8 size).take 8 = leBytes 8 pc := List.take_left' (length_leBytes 8 pc)
  have second : (leBytes 8 pc ++ leBytes 8 size).drop 8 = leBytes 8 size :=
    List.drop_left' (length_leBytes 8 pc)
  unfold readBlock
  dsimp only
  rw [header, behind, if_neg (fun other => other length), first, second, leValue_leBytes_eight,
    leValue_leBytes_eight, if_neg (Nat.not_le.mpr small), List.length_take]
  refine if_congr ?_ rfl rfl
  omega

/-- A block that fits into a buffer is read back, and a part of it is not a block. -/
theorem reads_block {block : Word × List Byte} (short : block.2.length < 2 ^ 63) :
    blocks.Reads CodeDump.blockBytes (· ≠ .overflow) block := by
  obtain ⟨pc, code⟩ := block
  have small : code.length < 2 ^ 63 := short
  have size : (BitVec.ofNat 64 code.length).toNat = code.length := by
    rw [BitVec.toNat_ofNat]
    omega
  have read (rest : List Byte) := readBlock_header pc (BitVec.ofNat 64 code.length) rest (by omega)
  rw [size] at read
  refine ⟨fun rest => ?_, fun k cut => ?_⟩
  · rw [next_blocks]
    unfold CodeDump.blockBytes
    dsimp only
    rw [List.append_assoc, List.append_assoc, read, List.length_append, if_neg (by omega), List.take_left,
      List.drop_left]
  · unfold FrameReader.StopsAt
    rw [next_blocks]
    unfold CodeDump.blockBytes at cut ⊢
    dsimp only at cut ⊢
    rw [List.length_append, List.length_append, length_leBytes, length_leBytes] at cut
    by_cases header : k < 16
    · refine ⟨.noHeader, if_pos ?_, nofun⟩
      rw [List.length_take, List.length_take]
      omega
    · -- the header is whole, and the code is not
      refine ⟨.truncated pc, ?_, nofun⟩
      rw [List.take_append, length_leBytes, List.take_of_length_le (by rw [length_leBytes]; omega),
        List.take_append, length_leBytes, List.take_of_length_le (by rw [length_leBytes]; omega), read,
        List.length_take, if_pos (by omega)]

theorem length_header (architecture : Architecture) : (CodeDump.create architecture).file.length = 8 := by
  unfold CodeDump.create
  rw [List.length_append, length_leBytes, length_leBytes]

/-- Without a whole header the script fails. -/
theorem view_short {file : List Byte} (short : file.length < 8) : view file = .error "invalid jit dump header" := by
  have length : (file.take 8).length ≠ 8 := by
    rw [List.length_take]
    omega
  unfold view
  dsimp only
  rw [if_pos length]
  rfl

/-- The header is that of the dump, and the blocks follow it. -/
theorem view_header (architecture : Architecture) (rest : List Byte) :
    view ((CodeDump.create architecture).file ++ rest) = .ok (architecture, blocks.readAll rest) := by
  have length := length_header architecture
  have header : ((CodeDump.create architecture).file ++ rest).take 8 = (CodeDump.create architecture).file :=
    List.take_left' length
  have behind : ((CodeDump.create architecture).file ++ rest).drop 8 = rest := List.drop_left' length
  unfold view
  dsimp only
  rw [header, behind]
  cases architecture <;> rfl

end ViewJit

/-! ### The buffer with its dump -/

/-- `CodeBuffer` with the bytes of its executable memory and with its dump. -/
structure DumpedBuffer where
  buffer : CodeBuffer (List Byte)
  executable : Nat → Byte
  codeDump : Option CodeDump

/-- A call of the class behind its constructor. -/
inductive BufferCall where
  | insert (guestAddress : Word) (code : List Byte)
  | insertStandalone (code : List Byte)

namespace DumpedBuffer

/-- `CodeBuffer::CodeBuffer`, for a size that the offsets in its table reach: `main` asks for
16 MiB. -/
def create (flags : CodeBufferFlags) (size : Nat) (size_lt : size < 2 ^ 32)
    (maxExecutableGuestAddress : Word) : DumpedBuffer where
  buffer := .create flags size (Nat.le_of_lt size_lt) maxExecutableGuestAddress
  executable _ := 0
  codeDump := none

/-- `dump_code_to_file`, for a file that can be opened. -/
def dumpCodeToFile (b : DumpedBuffer) (target : JitTarget) : Except Abort DumpedBuffer :=
  if b.codeDump.isSome then
    .error (.verify "JIT code buffer has dumping to file already enabled")
  else do
    let architecture ← codeDumpArchitecture target
    return { b with codeDump := some (.create architecture) }

/-- `allocate_executable_memory`. -/
def allocateExecutableMemory (b : DumpedBuffer) (code : List Byte) :
    Except Abort (BitVec 32 × DumpedBuffer) := do
  let (offset, buffer) ← b.buffer.allocateExecutableMemory code.length code
  let startOffset := CodeBuffer.alignedOffset b.buffer.nextFreeOffset
  return (offset, { b with
    buffer := buffer
    executable := overwrite b.executable startOffset code })

/-- The store to the table. -/
def publish (b : DumpedBuffer) (guestAddress : Word) (offset : BitVec 32) : DumpedBuffer :=
  { b with buffer := { b.buffer with
      blockToOffset := fun block =>
        if block = guestAddress.toNat / 4 then offset else b.buffer.blockToOffset block } }

/-- The write to the dump, if there is one. -/
def writeDump (b : DumpedBuffer) (guestAddress : Word) (code : List Byte) : DumpedBuffer :=
  { b with codeDump := b.codeDump.map fun dump => dump.write guestAddress code }

/-- `CodeBuffer::insert`. -/
def insert (b : DumpedBuffer) (guestAddress : Word) (code : List Byte) :
    Except Abort (BitVec 32 × DumpedBuffer) :=
  if guestAddress &&& 3 ≠ 0 then .error (.verify "guest address is misaligned")
  else do
    match ← b.buffer.get guestAddress with
    | some offset => return (offset, b)
    | none => do
      let (offset, b) ← b.allocateExecutableMemory code
      return (offset, (b.publish guestAddress offset).writeDump guestAddress code)

/-- `CodeBuffer::insert_standalone`, which writes nothing to the dump. -/
def insertStandalone (b : DumpedBuffer) (code : List Byte) : Except Abort (BitVec 32 × DumpedBuffer) :=
  b.allocateExecutableMemory code

def perform (b : DumpedBuffer) : BufferCall → Except Abort DumpedBuffer
  | .insert guestAddress code => do return (← b.insert guestAddress code).2
  | .insertStandalone code => do return (← b.insertStandalone code).2

/-- The dump changes nothing about what the buffer does. -/
theorem insert_buffer (b : DumpedBuffer) (guestAddress : Word) (code : List Byte) :
    (b.insert guestAddress code).map (fun result => (result.1, result.2.buffer)) =
      b.buffer.insert guestAddress code.length code := by
  unfold insert CodeBuffer.insert
  split
  next => rfl
  next aligned =>
    cases b.buffer.get guestAddress with
    | error e => rfl
    | ok found =>
      cases found with
      | some offset => rfl
      -- the dump is written after the block, and reads nothing back
      | none =>
        cases allocated : b.buffer.allocateExecutableMemory code.length code with
        | error e => simp only [allocateExecutableMemory, allocated, bind, Except.bind, Except.map]
        | ok result =>
          simp only [allocateExecutableMemory, allocated, bind, Except.bind, pure, Except.pure, Except.map]
          rfl

/-- Calls one after the other. -/
def run (b : DumpedBuffer) (calls : List BufferCall) : Except Abort DumpedBuffer :=
  calls.foldlM perform b

/-- The buffers of a program: a new one, and what its calls and `dump_code_to_file` make of it. -/
inductive Reached : DumpedBuffer → Prop
  | create (flags : CodeBufferFlags) (size : Nat) (size_lt : size < 2 ^ 32) (max : Word) :
    Reached (create flags size size_lt max)
  | dumpCodeToFile {b b' : DumpedBuffer} {target : JitTarget} (before : Reached b)
    (done : b.dumpCodeToFile target = .ok b') : Reached b'
  | perform {b b' : DumpedBuffer} {call : BufferCall} (before : Reached b)
    (done : b.perform call = .ok b') : Reached b'

/-! ### What is published -/

/-- The table has code for a guest address. -/
def isPublished (b : DumpedBuffer) (guestAddress : Word) : Bool :=
  match b.buffer.get guestAddress with
  | .ok (some _) => true
  | _ => false

/-- The block a call has published. -/
def published (b b' : DumpedBuffer) : BufferCall → List (Word × List Byte)
  | .insert guestAddress code =>
    if !b.isPublished guestAddress && b'.isPublished guestAddress then [(guestAddress, code)] else []
  | .insertStandalone _ => []

/-- The blocks some calls publish, in their order. -/
def publications (b : DumpedBuffer) : List BufferCall → List (Word × List Byte)
  | [] => []
  | call :: rest =>
    match b.perform call with
    | .ok b' => b.published b' call ++ b'.publications rest
    | .error _ => []

/-- The blocks published between two states, each address once, with the bytes that the table
leads to. -/
structure Publishes (b b' : DumpedBuffer) (blocks : List (Word × List Byte)) : Prop where
  once : (blocks.map Prod.fst).Nodup
  exact : ∀ a, a ∈ blocks.map Prod.fst ↔ b.isPublished a = false ∧ b'.isPublished a = true
  placed : ∀ block ∈ blocks, ∃ offset, b'.buffer.get block.1 = .ok (some offset) ∧
    bytesAt b'.executable offset.toNat block.2.length = block.2

/-- What the allocator keeps: it starts at the first line, and offsets fit into 32 bits. -/
structure WF (b : DumpedBuffer) : Prop where
  low : 16 ≤ b.buffer.nextFreeOffset
  small : b.buffer.size < 2 ^ 32

/-- What a run has done: it has published some blocks and written them to the dump, and it has
kept the code that was there. -/
structure Logs (b b' : DumpedBuffer) (blocks : List (Word × List Byte)) : Prop where
  once : (blocks.map Prod.fst).Nodup
  exact : ∀ a, a ∈ blocks.map Prod.fst ↔ b.isPublished a = false ∧ b'.isPublished a = true
  placed : ∀ block ∈ blocks, ∃ offset, b'.buffer.get block.1 = .ok (some offset) ∧
    offset.toNat + block.2.length ≤ b'.buffer.nextFreeOffset ∧
    bytesAt b'.executable offset.toNat block.2.length = block.2
  short : ∀ block ∈ blocks, block.2.length ≤ b.buffer.size
  stays : ∀ a offset, b.buffer.get a = .ok (some offset) → b'.buffer.get a = .ok (some offset)
  grows : b.buffer.nextFreeOffset ≤ b'.buffer.nextFreeOffset
  kept : ∀ i < b.buffer.nextFreeOffset, b'.executable i = b.executable i
  size : b'.buffer.size = b.buffer.size
  dump : b'.codeDump = b.codeDump.map fun dump => ⟨dump.file ++ blocks.flatMap CodeDump.blockBytes⟩

section Runs

variable {b b' b'' : DumpedBuffer} {a guestAddress : Word} {code : List Byte} {offset : BitVec 32}
  {call : BufferCall} {calls : List BufferCall} {blocks blocks' : List (Word × List Byte)}

theorem isPublished_iff : b.isPublished a = true ↔ ∃ offset, b.buffer.get a = .ok (some offset) := by
  unfold isPublished
  cases got : b.buffer.get a with
  | error e => simp
  | ok found => cases found <;> simp

theorem get_iff : b.buffer.get a = .ok (some offset) ↔
    b.buffer.Admits a ∧ offset = b.buffer.blockToOffset (a.toNat / 4) ∧ offset ≠ 0 := by
  refine ⟨fun got => ⟨CodeBuffer.admits_of_get got, CodeBuffer.get_eq_some got⟩, fun ⟨admits, found, set⟩ => ?_⟩
  subst found
  rw [CodeBuffer.get_of_admits admits, if_pos set]

theorem WF.of_logs (wf : b.WF) (logs : b.Logs b' blocks) : b'.WF :=
  ⟨wf.low.trans logs.grows, logs.size.symm ▸ wf.small⟩

theorem Logs.refl (b : DumpedBuffer) : b.Logs b [] where
  once := List.nodup_nil
  exact a := by simp
  placed _ member := absurd member List.not_mem_nil
  short _ member := absurd member List.not_mem_nil
  stays _ _ got := got
  grows := Nat.le_refl _
  kept _ _ := rfl
  size := rfl
  dump := by cases b.codeDump <;> simp

theorem Logs.keeps (logs : b.Logs b' blocks) (published : b.isPublished a = true) :
    b'.isPublished a = true := by
  obtain ⟨offset, got⟩ := isPublished_iff.mp published
  exact isPublished_iff.mpr ⟨offset, logs.stays a offset got⟩

theorem Logs.trans (first : b.Logs b' blocks) (second : b'.Logs b'' blocks') :
    b.Logs b'' (blocks ++ blocks') where
  once := by
    rw [List.map_append]
    refine List.nodup_append'.mpr ⟨first.once, second.once, fun a early late => ?_⟩
    -- the table never loses an entry, so no address is new twice
    rw [first.exact] at early
    rw [second.exact, early.2] at late
    cases late.1
  exact a := by
    have through : b.isPublished a = true → b'.isPublished a = true := first.keeps
    have through' : b'.isPublished a = true → b''.isPublished a = true := second.keeps
    rw [List.map_append, List.mem_append, first.exact, second.exact]
    cases here : b.isPublished a <;> cases there : b'.isPublished a <;> simp_all
  placed block member := by
    rcases List.mem_append.mp member with early | late
    · -- later code lies behind the code that is there
      obtain ⟨offset, got, inside, bytes⟩ := first.placed block early
      have same : bytesAt b''.executable offset.toNat block.2.length
          = bytesAt b'.executable offset.toNat block.2.length :=
        List.map_congr_left fun i below => second.kept _ (by
          have low := List.mem_range.mp below
          omega)
      exact ⟨offset, second.stays _ _ got, inside.trans second.grows, same.trans bytes⟩
    · exact second.placed block late
  short block member := by
    rcases List.mem_append.mp member with early | late
    · exact first.short block early
    · exact first.size ▸ second.short block late
  stays a offset got := second.stays a offset (first.stays a offset got)
  grows := first.grows.trans second.grows
  kept i below := (second.kept i (below.trans_le first.grows)).trans (first.kept i below)
  size := second.size.trans first.size
  dump := by
    rw [second.dump, first.dump]
    cases b.codeDump <;> simp

/-- An allocation writes the code behind everything else. -/
theorem allocate_cases (done : b.allocateExecutableMemory code = .ok (offset, b')) :
    CodeBuffer.alignedOffset b.buffer.nextFreeOffset + code.length ≤ b.buffer.size ∧
      offset = BitVec.ofNat 32 (CodeBuffer.alignedOffset b.buffer.nextFreeOffset) ∧
      b'.buffer.nextFreeOffset = CodeBuffer.alignedOffset b.buffer.nextFreeOffset + code.length ∧
      b'.executable =
        overwrite b.executable (CodeBuffer.alignedOffset b.buffer.nextFreeOffset) code ∧
      b'.buffer.blockToOffset = b.buffer.blockToOffset ∧ b'.buffer.maxBlocks = b.buffer.maxBlocks ∧
      b'.buffer.size = b.buffer.size ∧ b'.codeDump = b.codeDump := by
  unfold allocateExecutableMemory CodeBuffer.allocateExecutableMemory at done
  dsimp only at done
  split at done
  next fits =>
    cases done
    exact ⟨fits, rfl, rfl, rfl, rfl, rfl, rfl, rfl⟩
  next => cases done

theorem get_congr (blocks : b'.buffer.blockToOffset = b.buffer.blockToOffset)
    (maxBlocks : b'.buffer.maxBlocks = b.buffer.maxBlocks) (a : Word) :
    b'.buffer.get a = b.buffer.get a := by
  unfold CodeBuffer.get
  rw [blocks, maxBlocks]

theorem get_publish_other (aligned : guestAddress &&& 3 = 0) (other : a ≠ guestAddress) :
    (b.publish guestAddress offset).buffer.get a = b.buffer.get a := by
  unfold CodeBuffer.get publish
  dsimp only
  split
  next => rfl
  next aligned' =>
    -- aligned addresses have entries of their own
    have apart : a.toNat / 4 ≠ guestAddress.toNat / 4 := fun same => other (BitVec.toNat_inj.mp (by
      rw [CodeBuffer.toNat_of_aligned (Decidable.not_not.mp aligned'), CodeBuffer.toNat_of_aligned aligned,
        same]))
    rw [if_neg apart]

theorem get_publish_same (admits : b.buffer.Admits guestAddress) (set : offset ≠ 0) :
    (b.publish guestAddress offset).buffer.get guestAddress = .ok (some offset) :=
  get_iff.mpr ⟨admits, (if_pos rfl).symm, set⟩

/-- Code without an address is not published. -/
theorem Logs.allocate (done : b.allocateExecutableMemory code = .ok (offset, b')) : b.Logs b' [] := by
  obtain ⟨fits, -, next, executable, table, maxBlocks, size, dump⟩ := allocate_cases done
  have same := get_congr table maxBlocks
  have behind := CodeBuffer.le_alignedOffset b.buffer.nextFreeOffset
  refine ⟨List.nodup_nil, fun a => ?_, fun _ member => absurd member List.not_mem_nil,
    fun _ member => absurd member List.not_mem_nil, fun a offset got => ?_, by omega, fun i below => ?_, size, ?_⟩
  · unfold isPublished
    rw [same]
    simp
  · rw [same]
    exact got
  · rw [executable]
    exact overwrite_outside _ _ _ _ (.inl (by omega))
  · rw [dump]
    cases b.codeDump <;> simp

/-- A new block, published and written to the dump. -/
theorem Logs.publish (wf : b.WF) (aligned : guestAddress &&& 3 = 0)
    (absent : b.buffer.get guestAddress = .ok none)
    (done : b.allocateExecutableMemory code = .ok (offset, b')) :
    b.Logs ((b'.publish guestAddress offset).writeDump guestAddress code) [(guestAddress, code)] := by
  have allocated := Logs.allocate done
  obtain ⟨fits, place, next, executable, table, maxBlocks, size, dump⟩ := allocate_cases done
  have behind := CodeBuffer.le_alignedOffset b.buffer.nextFreeOffset
  have low := wf.low
  have small := wf.small
  have start : offset.toNat = CodeBuffer.alignedOffset b.buffer.nextFreeOffset := by
    rw [place, BitVec.toNat_ofNat, Nat.mod_eq_of_lt (by omega)]
  -- offset zero in the table means that there is no code
  have set : offset ≠ 0 := fun zero => by
    rw [zero] at start
    have first : (0 : BitVec 32).toNat = 0 := rfl
    omega
  have admits : b.buffer.Admits guestAddress := by
    refine ⟨aligned, ?_⟩
    unfold CodeBuffer.get at absent
    rw [if_neg fun misaligned => misaligned aligned] at absent
    split at absent
    · assumption
    · cases absent
  have same := get_congr table maxBlocks
  have here : (b'.publish guestAddress offset).buffer.get guestAddress = .ok (some offset) :=
    get_publish_same ⟨admits.1, maxBlocks ▸ admits.2⟩ set
  have there (a : Word) (other : a ≠ guestAddress) :
      (b'.publish guestAddress offset).buffer.get a = b.buffer.get a := by
    rw [get_publish_other aligned other, same]
  have unpublished : b.isPublished guestAddress = false := by
    unfold isPublished
    rw [absent]
  refine ⟨List.nodup_singleton _, fun a => ?_, fun block member => ?_, fun block member => ?_,
    fun a found got => ?_, allocated.grows, allocated.kept, size, ?_⟩
  · show a ∈ [guestAddress] ↔ b.isPublished a = false ∧ (b'.publish guestAddress offset).isPublished a = true
    rw [List.mem_singleton]
    by_cases new : a = guestAddress
    · subst new
      exact iff_of_true rfl ⟨unpublished, isPublished_iff.mpr ⟨offset, here⟩⟩
    · refine iff_of_false new fun ⟨before, after⟩ => ?_
      unfold isPublished at before after
      rw [there a new] at after
      rw [before] at after
      cases after
  · rw [List.mem_singleton.mp member]
    refine ⟨offset, here, ?_, ?_⟩
    · show offset.toNat + code.length ≤ b'.buffer.nextFreeOffset
      omega
    · show bytesAt b'.executable offset.toNat code.length = code
      rw [executable, start]
      exact bytesAt_overwrite_same _ _ _
  · rw [List.mem_singleton.mp member]
    show code.length ≤ b.buffer.size
    omega
  · have other : a ≠ guestAddress := by
      rintro rfl
      rw [absent] at got
      cases got
    exact (there a other).trans got
  · show b'.codeDump.map _ = _
    rw [dump]
    cases b.codeDump <;> simp [CodeDump.write]

theorem published_insert (b b' : DumpedBuffer) (guestAddress : Word) (code : List Byte) :
    b.published b' (.insert guestAddress code) =
      if !b.isPublished guestAddress && b'.isPublished guestAddress then [(guestAddress, code)] else [] := rfl

/-- An insertion finds its block, or publishes it. -/
theorem insert_cases (done : b.insert guestAddress code = .ok (offset, b')) :
    (b.buffer.get guestAddress = .ok (some offset) ∧ b' = b) ∨
      (guestAddress &&& 3 = 0 ∧ b.buffer.get guestAddress = .ok none ∧ ∃ b₁,
        b.allocateExecutableMemory code = .ok (offset, b₁) ∧
        b' = (b₁.publish guestAddress offset).writeDump guestAddress code) := by
  unfold insert at done
  split at done
  next => cases done
  next aligned =>
    cases got : b.buffer.get guestAddress with
    | error e =>
      simp only [got, bind, Except.bind] at done
      cases done
    | ok found =>
      cases found with
      -- there is a block already: its offset is returned
      | some found =>
        simp only [got, bind, Except.bind, pure, Except.pure] at done
        cases done
        exact .inl ⟨rfl, rfl⟩
      | none =>
        cases allocated : b.allocateExecutableMemory code with
        | error e =>
          simp only [got, allocated, bind, Except.bind] at done
          cases done
        -- the new block is written, published and dumped
        | ok result =>
          obtain ⟨offset', b₁⟩ := result
          simp only [got, allocated, bind, Except.bind, pure, Except.pure] at done
          cases done
          exact .inr ⟨Decidable.not_not.mp aligned, rfl, b₁, rfl, rfl⟩

theorem perform_insert (done : b.perform (.insert guestAddress code) = .ok b') :
    ∃ offset, b.insert guestAddress code = .ok (offset, b') := by
  unfold perform at done
  dsimp only at done
  cases inserted : b.insert guestAddress code with
  | error e =>
    simp only [inserted, bind, Except.bind] at done
    cases done
  | ok result =>
    simp only [inserted, bind, Except.bind, pure, Except.pure] at done
    cases done
    exact ⟨_, rfl⟩

/-- One call. -/
theorem logs_perform (wf : b.WF) (done : b.perform call = .ok b') :
    b.Logs b' (b.published b' call) := by
  cases call with
  | insertStandalone code =>
    cases allocated : b.allocateExecutableMemory code with
    | error e =>
      simp only [perform, insertStandalone, allocated, bind, Except.bind] at done
      cases done
    | ok result =>
      obtain ⟨offset, b₁⟩ := result
      simp only [perform, insertStandalone, allocated, bind, Except.bind, pure, Except.pure,
        Except.ok.injEq] at done
      exact done ▸ .allocate allocated
  | insert guestAddress code =>
    obtain ⟨offset, inserted⟩ := perform_insert done
    rcases insert_cases inserted with ⟨got, rfl⟩ | ⟨aligned, got, b₁, allocated, rfl⟩
    -- an address that was published before adds nothing
    · have present := isPublished_iff.mpr ⟨offset, got⟩
      rw [published_insert, present]
      exact .refl _
    · have logs := Logs.publish wf aligned got allocated
      obtain ⟨before, after⟩ := (logs.exact guestAddress).mp (List.mem_singleton_self _)
      rw [published_insert, before, after]
      exact logs

/-- What was inserted can be got. -/
theorem isPublished_perform (wf : b.WF) (done : b.perform (.insert guestAddress code) = .ok b') :
    b'.isPublished guestAddress = true := by
  obtain ⟨offset, inserted⟩ := perform_insert done
  rcases insert_cases inserted with ⟨got, rfl⟩ | ⟨aligned, got, b₁, allocated, rfl⟩
  · exact isPublished_iff.mpr ⟨offset, got⟩
  · exact ((Logs.publish wf aligned got allocated).exact guestAddress).mp (List.mem_singleton_self _) |>.2

/-- A run of calls. -/
theorem logs_run (wf : b.WF) (ran : b.run calls = .ok b') : b.Logs b' (b.publications calls) := by
  induction calls generalizing b with
  | nil =>
    cases ran
    exact .refl _
  | cons call rest ih =>
    unfold run at ran
    rw [List.foldlM_cons] at ran
    unfold publications
    cases step : b.perform call with
    | error e =>
      rw [step] at ran
      cases ran
    | ok middle =>
      rw [step] at ran
      dsimp only
      have first := logs_perform wf step
      exact first.trans (ih (wf.of_logs first) ran)

/-- Of a run that comes to its end all insertions have published their blocks. -/
theorem isPublished_run (wf : b.WF) (ran : b.run calls = .ok b') (asked : .insert guestAddress code ∈ calls) :
    b'.isPublished guestAddress = true := by
  induction calls generalizing b with
  | nil => cases asked
  | cons call rest ih =>
    unfold run at ran
    rw [List.foldlM_cons] at ran
    cases step : b.perform call with
    | error e =>
      rw [step] at ran
      cases ran
    | ok middle =>
      rw [step] at ran
      have wf' := wf.of_logs (logs_perform wf step)
      rcases List.mem_cons.mp asked with rfl | later
      · exact (logs_run wf' ran).keeps (isPublished_perform wf step)
      · exact ih wf' ran later

theorem dumpCodeToFile_cases {target : JitTarget} (enabled : b.dumpCodeToFile target = .ok b') :
    ∃ architecture, codeDumpArchitecture target = .ok architecture ∧
      b' = { b with codeDump := some (.create architecture) } := by
  unfold DumpedBuffer.dumpCodeToFile at enabled
  split at enabled
  next => cases enabled
  next =>
    cases known : codeDumpArchitecture target with
    | error e =>
      rw [known] at enabled
      cases enabled
    | ok architecture =>
      rw [known] at enabled
      cases enabled
      exact ⟨architecture, rfl, rfl⟩

theorem Reached.wf (reached : b.Reached) : b.WF := by
  induction reached with
  | create flags size size_lt max => exact ⟨Nat.le_refl _, size_lt⟩
  | dumpCodeToFile before done ih =>
    obtain ⟨architecture, -, rfl⟩ := dumpCodeToFile_cases done
    exact ⟨ih.low, ih.small⟩
  | perform before done ih => exact ih.of_logs (logs_perform ih done)

open FrameReader (Complete)
open ViewJit (view)

/-- The script reads back the blocks that were published since the dump was asked for, which those of all
insertions are, if not before. Of a file that was cut off behind its header it reads the blocks that are
complete. -/
theorem view_dump {target : JitTarget} (reached : b.Reached) (enabled : b.dumpCodeToFile target = .ok b')
    (ran : b'.run calls = .ok b'') :
    ∃ architecture dump, codeDumpArchitecture target = .ok architecture ∧ b''.codeDump = some dump ∧
      view dump.file = .ok (architecture, b'.publications calls, .noHeader) ∧
      b'.Publishes b'' (b'.publications calls) ∧
      (∀ guestAddress code, .insert guestAddress code ∈ calls → b''.isPublished guestAddress = true) ∧
      ∀ k, 8 ≤ k → ∃ m reason,
        view (dump.file.take k) = .ok (architecture, (b'.publications calls).take m, reason) ∧
        reason ≠ .overflow ∧ Complete CodeDump.blockBytes (b'.publications calls) (k - 8) m := by
  have wf := (Reached.dumpCodeToFile reached enabled).wf
  have logs := logs_run wf ran
  obtain ⟨architecture, known, opened⟩ := dumpCodeToFile_cases enabled
  have dump := logs.dump
  rw [congrArg DumpedBuffer.codeDump opened] at dump
  generalize b'.publications calls = log at logs dump ⊢
  have reads : ∀ block ∈ log, ViewJit.blocks.Reads CodeDump.blockBytes (· ≠ .overflow) block :=
    fun block member => ViewJit.reads_block (by
      have short := logs.short block member
      have small := wf.small
      omega)
  refine ⟨architecture, _, known, dump, ?_, ⟨logs.once, logs.exact, fun block member => ?_⟩,
    fun _ _ asked => isPublished_run wf ran asked, fun k behind => ?_⟩
  · -- the whole file
    have ends : ViewJit.blocks.readAll [] = ([], .noHeader) := FrameReader.readAll_stop rfl
    have all := FrameReader.readAll_frames reads []
    rw [List.append_nil, ends, List.append_nil] at all
    rw [ViewJit.view_header, all]
  · -- where the bytes of a block are in the buffer
    obtain ⟨offset, got, -, bytes⟩ := logs.placed block member
    exact ⟨offset, got, bytes⟩
  · -- the file cut behind its header
    have length := ViewJit.length_header architecture
    obtain ⟨m, reason, read, stops⟩ := FrameReader.readAll_cut reads ⟨.noHeader, rfl, nofun⟩ (k - 8)
    refine ⟨m, reason, ?_, stops⟩
    rw [List.take_append, length, List.take_of_length_le (by rw [length]; exact behind),
      ViewJit.view_header, read]

/-- Two blocks, one of them inserted twice, and code without an address. -/
def someCalls : List BufferCall :=
  [.insert 0x1000 [0xc3], .insertStandalone [0x90], .insert 0x1000 [0xcc], .insert 0x1004 []]

theorem view_dump_someCalls : ∃ (b' b'' : DumpedBuffer) (dump : CodeDump),
    (create {} 0x1000 (by decide) 0x2000).dumpCodeToFile .x64 = .ok b' ∧ b'.run someCalls = .ok b'' ∧
      b''.codeDump = some dump ∧
      view dump.file = .ok (.x64, b'.publications someCalls, .noHeader) ∧ b''.isPublished 0x1004 = true := by
  obtain ⟨b', enabled⟩ : ∃ b', (create {} 0x1000 (by decide) 0x2000).dumpCodeToFile .x64 = .ok b' := ⟨_, rfl⟩
  obtain ⟨b'', ran⟩ : ∃ b'', b'.run someCalls = .ok b'' := by
    cases enabled
    exact ⟨_, rfl⟩
  obtain ⟨architecture, dump, known, written, read, -, found, -⟩ := view_dump (.create _ _ _ _) enabled ran
  cases known
  exact ⟨b', b'', dump, enabled, ran, written, read, found 0x1004 [] (by simp [someCalls])⟩

end Runs

end DumpedBuffer

end Riscv64Emulator.Jit
