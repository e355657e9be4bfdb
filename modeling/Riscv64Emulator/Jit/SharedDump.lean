import Riscv64Emulator.Jit.CodeDump
import Riscv64Emulator.Jit.CallProgress

/-!
# The dump of a shared buffer

`CodeBuffer` with its dump between executors. `insert` has the mutex until `CodeDump::write`
has written the address, the size and the code of the block it has published and has flushed them,
and `dump_code_to_file` takes the mutex too. The stream of the file is buffered: what is written
reaches the file at the latest when it is flushed, so the header of a new dump need not be there
before its first block.
-/
namespace Riscv64Emulator.Jit

open LabelledRuns (Run)

/-- A call of `base::File`. -/
inductive FileCall where
  | write (bytes : List Byte)
  | flush

def FileCall.bytes : FileCall → List Byte
  | .write bytes => bytes
  | .flush => []

/-- The shared buffer with its dump, how many bytes of the stream have reached the file, and what the
insertion with the mutex is still to call. -/
structure SharedDump (Executor : Type) where
  calls : SharedBuffer Executor
  codeDump : Option CodeDump
  onDisk : Nat
  pending : List FileCall

/-- A step of a call, with the block if it publishes one, or a step of the dump. -/
inductive DumpEvent (Executor : Type) where
  | calls (e : Event Executor)
  | published (t : Executor) (block : Word × MachineCode) (offset : BitVec 32)
  | wrote (t : Executor)
  | flushed (t : Executor)
  | drained
  | enabled (architecture : CodeDump.Architecture)

def DumpEvent.block {Executor : Type} : DumpEvent Executor → Option (Word × MachineCode)
  | .published _ block _ => some block
  | _ => none

/-- The calls of `CodeDump::write`. -/
def CodeDump.fileCalls (block : Word × MachineCode) : List FileCall :=
  [.write (leBytes 8 block.1), .write (leBytes 8 (BitVec.ofNat 64 block.2.length)), .write block.2, .flush]

theorem CodeDump.bytes_fileCalls (block : Word × MachineCode) :
    (fileCalls block).flatMap FileCall.bytes = blockBytes block := by
  simp [fileCalls, blockBytes, FileCall.bytes]

namespace SharedDump

variable {Executor : Type}

def create (flags : CodeBufferFlags) (size : Nat) (size_le : size ≤ 2 ^ 32)
    (maxExecutableGuestAddress : Word) : SharedDump Executor :=
  ⟨.create flags size size_le maxExecutableGuestAddress, none, 0, []⟩

/-- What the file holds. -/
def disk (d : SharedDump Executor) : List Byte :=
  match d.codeDump with
  | some dump => dump.file.take d.onDisk
  | none => []

/-- The blocks that are published in a run. -/
def publications (events : List (DumpEvent Executor)) : List (Word × MachineCode) :=
  events.filterMap DumpEvent.block

section Steps

variable [DecidableEq Executor]

/-- A step of an executor. The mutex is given back when the block is written. -/
inductive Step : SharedDump Executor → DumpEvent Executor → SharedDump Executor → Prop
  | calls {d e calls} (stepped : SharedBuffer.Step d.calls e calls)
      (kept : ∀ t guestAddress offset, e ≠ .published t guestAddress offset)
      (written : ∀ t, e = .unlocked t → d.pending = []) :
      Step d (.calls e) { d with calls := calls }
  | publish {d t guestAddress code offset calls}
      (here : d.calls.phase t = .allocated (.insert guestAddress code) offset)
      (stepped : SharedBuffer.Step d.calls (.published t guestAddress offset) calls) :
      Step d (.published t (guestAddress, code) offset)
        { d with
          calls := calls
          pending := if d.codeDump.isSome then CodeDump.fileCalls (guestAddress, code) else [] }
  | write {d t call offset dump bytes rest} (here : d.calls.phase t = .unlocking call offset)
      (enabled : d.codeDump = some dump) (next : d.pending = .write bytes :: rest) :
      Step d (.wrote t) { d with codeDump := some ⟨dump.file ++ bytes⟩, pending := rest }
  | flush {d t call offset dump rest} (here : d.calls.phase t = .unlocking call offset)
      (enabled : d.codeDump = some dump) (next : d.pending = .flush :: rest) :
      Step d (.flushed t) { d with onDisk := dump.file.length, pending := rest }
  -- the C library may pass on what is in its buffer at any time
  | drain {d dump n} (enabled : d.codeDump = some dump) (more : d.onDisk ≤ n) (inside : n ≤ dump.file.length) :
      Step d .drained { d with onDisk := n }
  -- the constructor of the dump does not flush its header
  | enable {d target architecture} (free : d.calls.mutex = none) (off : d.codeDump = none)
      (known : codeDumpArchitecture target = .ok architecture) :
      Step d (.enabled architecture) { d with codeDump := some (.create architecture), onDisk := 0 }

end Steps

/-! ### What is in the file -/

/-- What holds behind the call of `dump_code_to_file`, of the blocks published since: the header with
their frames is what the stream was given and what is still to be written of the last one. All but the
last one are in the file. -/
structure Logs (architecture : CodeDump.Architecture) (table : Nat → BitVec 32)
    (blocks : List (Word × MachineCode)) (d : SharedDump Executor) : Prop where
  inv : d.calls.Inv
  stays : ∀ index, table index ≠ 0 → d.calls.buffer.blockToOffset index ≠ 0
  once : (blocks.map Prod.fst).Nodup
  exact : ∀ index, d.calls.buffer.blockToOffset index ≠ 0 ∧ table index = 0 ↔
    ∃ block ∈ blocks, block.1.toNat / 4 = index
  first : ∀ block ∈ blocks, d.calls.first (block.1.toNat / 4) = some block.2
  holder : d.pending ≠ [] → ∃ t call offset, d.calls.phase t = .unlocking call offset
  flushes : d.pending = [] ∨ ∃ calls, d.pending = calls ++ [.flush]
  stream : ∃ dump, d.codeDump = some dump ∧ dump.file ++ d.pending.flatMap FileCall.bytes
    = (CodeDump.create architecture).file ++ blocks.flatMap CodeDump.blockBytes ∧
    d.onDisk ≤ dump.file.length ∧ (d.pending = [] → blocks ≠ [] → d.onDisk = dump.file.length)
  flushed : 1 < blocks.length → 8 + (blocks.dropLast.flatMap CodeDump.blockBytes).length ≤ d.onDisk

/-- What the script makes of a file: before its header is there it fails, and then it reads all blocks but
perhaps the last one. -/
inductive Reads (architecture : CodeDump.Architecture) (blocks : List (Word × MachineCode)) (file : List Byte) :
    Prop where
  | failed (short : file.length < 8) (failed : ViewJit.view file = .error "invalid jit dump header")
      (first : blocks.length ≤ 1)
  | read (m : Nat) (reason : ViewJit.BlockEnd)
      (read : ViewJit.view file = .ok (architecture, blocks.take m, reason)) (regular : reason ≠ .overflow)
      (all : blocks.length ≤ m + 1)

/-- What the script reads of the file of a dump. -/
structure Dumps (architecture : CodeDump.Architecture) (d d' : SharedDump Executor)
    (blocks : List (Word × MachineCode)) : Prop where
  once : (blocks.map Prod.fst).Nodup
  exact : ∀ index, d'.calls.buffer.blockToOffset index ≠ 0 ∧ d.calls.buffer.blockToOffset index = 0 ↔
    ∃ block ∈ blocks, block.1.toNat / 4 = index
  placed : ∀ block ∈ blocks,
    d'.calls.Holds ⟨(d'.calls.buffer.blockToOffset (block.1.toNat / 4)).toNat, block.2⟩
  reads : Reads architecture blocks d'.disk
  whole : d'.pending = [] → blocks ≠ [] → ViewJit.view d'.disk = .ok (architecture, blocks, .noHeader)

section Runs

variable {architecture : CodeDump.Architecture} {table : Nat → BitVec 32}
  {blocks : List (Word × MachineCode)} {d d' : SharedDump Executor} {e : DumpEvent Executor}

/-- A block in the file is a region of the buffer. -/
theorem Logs.placed (logs : d.Logs architecture table blocks) {block : Word × MachineCode}
    (member : block ∈ blocks) :
    ⟨(d.calls.buffer.blockToOffset (block.1.toNat / 4)).toNat, block.2⟩ ∈ d.calls.regions ∧
      d.calls.Holds ⟨(d.calls.buffer.blockToOffset (block.1.toNat / 4)).toNat, block.2⟩ := by
  obtain ⟨present, -⟩ := (logs.exact _).mpr ⟨block, member, rfl⟩
  obtain ⟨code, first, region, settled⟩ := logs.inv.published _ present
  cases (logs.first block member).symm.trans first
  exact ⟨region, settled.2⟩

theorem Logs.short (logs : d.Logs architecture table blocks) {block : Word × MachineCode}
    (member : block ∈ blocks) : block.2.length < 2 ^ 63 := by
  obtain ⟨-, -, stop⟩ := logs.inv.inside _ (logs.placed member).1
  have size := d.calls.buffer.size_le
  unfold Region.stop at stop
  dsimp only at stop
  omega

/-- The file is a part of the header with the frames. -/
theorem Logs.disk (logs : d.Logs architecture table blocks) : d.disk =
    ((CodeDump.create architecture).file ++ blocks.flatMap CodeDump.blockBytes).take d.onDisk := by
  obtain ⟨dump, enabled, stream, inside, -⟩ := logs.stream
  have file : d.disk = dump.file.take d.onDisk := by
    unfold SharedDump.disk
    rw [enabled]
  rw [file, ← stream, List.take_append_of_le_length inside]

theorem Logs.whole (logs : d.Logs architecture table blocks) (idle : d.pending = []) (some : blocks ≠ []) :
    ViewJit.view d.disk = .ok (architecture, blocks, .noHeader) := by
  obtain ⟨dump, enabled, stream, -, all⟩ := logs.stream
  rw [idle, List.flatMap_nil, List.append_nil] at stream
  have ends : ViewJit.blocks.readAll [] = ([], .noHeader) := FrameReader.readAll_stop rfl
  have read := FrameReader.readAll_frames (fun block member => ViewJit.reads_block (logs.short member)) []
  rw [List.append_nil, ends, List.append_nil] at read
  rw [logs.disk, all idle some, stream, List.take_length, ViewJit.view_header, read]

/-- While a block is written, the others are read. -/
theorem Logs.reads (logs : d.Logs architecture table blocks) : Reads architecture blocks d.disk := by
  have header := ViewJit.length_header architecture
  have file := logs.disk
  by_cases short : d.onDisk < 8
  · have length : d.disk.length < 8 := by
      rw [file, List.length_take]
      omega
    refine .failed length (ViewJit.view_short length) (Nat.le_of_not_lt fun more => ?_)
    have flushed := logs.flushed more
    omega
  · -- behind the header the file is cut off in the last frame
    rw [List.take_append, header, List.take_of_length_le (by omega)] at file
    obtain ⟨m, reason, read, regular, complete⟩ := FrameReader.readAll_cut
      (fun block member => ViewJit.reads_block (logs.short member)) ⟨.noHeader, rfl, nofun⟩ (d.onDisk - 8)
    refine .read m reason (by rw [file, ViewJit.view_header, read]) regular ?_
    rcases List.eq_nil_or_concat blocks with rfl | ⟨earlier, block, rfl⟩
    · exact Nat.zero_le _
    · have flushed := logs.flushed
      rw [List.concat_eq_append] at complete flushed ⊢
      rw [List.length_append, List.length_singleton] at flushed ⊢
      rw [List.dropLast_concat] at flushed
      refine Nat.succ_le_succ (complete.of_last ?_)
      cases earlier with
      | nil => exact Nat.zero_le _
      | cons first later =>
        have flushed := flushed (Nat.succ_lt_succ (Nat.succ_pos _))
        omega

theorem flushes_tail {call : FileCall} {rest : List FileCall}
    (flushes : d.pending = [] ∨ ∃ calls, d.pending = calls ++ [.flush]) (next : d.pending = call :: rest) :
    (rest = [] ∧ call = .flush) ∨ ∃ calls, rest = calls ++ [.flush] := by
  rcases flushes with none | ⟨calls, last⟩
  · cases next.symm.trans none
  · have same := next.symm.trans last
    cases calls with
    | nil =>
      cases same
      exact .inl ⟨rfl, rfl⟩
    | cons first calls =>
      cases same
      exact .inr ⟨calls, rfl⟩

theorem Logs.write {dump : CodeDump} {bytes : List Byte} {rest : List FileCall}
    (logs : d.Logs architecture table blocks) (enabled : d.codeDump = some dump)
    (next : d.pending = .write bytes :: rest) :
    Logs architecture table blocks { d with codeDump := some ⟨dump.file ++ bytes⟩, pending := rest } := by
  have behind : ∃ calls, rest = calls ++ [.flush] :=
    (flushes_tail logs.flushes next).resolve_left fun last => by cases last.2
  refine { logs with
    holder := fun _ => logs.holder (by rw [next]; exact List.cons_ne_nil _ _)
    flushes := .inr behind
    stream := ?_ }
  obtain ⟨dump', enabled', stream, inside, -⟩ := logs.stream
  cases enabled.symm.trans enabled'
  rw [next, List.flatMap_cons] at stream
  refine ⟨_, rfl, (List.append_assoc _ _ _).trans stream, ?_, fun none => ?_⟩
  · rw [List.length_append]
    exact Nat.le_add_right_of_le inside
  · -- the flush is still to come
    obtain ⟨calls, rfl⟩ := behind
    exact absurd none (List.append_ne_nil_of_right_ne_nil _ (List.cons_ne_nil _ _))

theorem Logs.flush {dump : CodeDump} {rest : List FileCall} (logs : d.Logs architecture table blocks)
    (enabled : d.codeDump = some dump) (next : d.pending = .flush :: rest) :
    Logs architecture table blocks { d with onDisk := dump.file.length, pending := rest } := by
  obtain ⟨dump', enabled', stream, inside, -⟩ := logs.stream
  cases enabled.symm.trans enabled'
  rw [next, List.flatMap_cons] at stream
  exact { logs with
    holder := fun _ => logs.holder (by rw [next]; exact List.cons_ne_nil _ _)
    flushes := (flushes_tail logs.flushes next).imp_left And.left
    stream := ⟨dump, enabled, stream, Nat.le_refl _, fun _ _ => rfl⟩
    flushed := fun more => (logs.flushed more).trans inside }

theorem Logs.drain {dump : CodeDump} {n : Nat} (logs : d.Logs architecture table blocks)
    (enabled : d.codeDump = some dump) (more : d.onDisk ≤ n) (inside : n ≤ dump.file.length) :
    Logs architecture table blocks { d with onDisk := n } := by
  obtain ⟨dump', enabled', stream, -, all⟩ := logs.stream
  cases enabled.symm.trans enabled'
  exact { logs with
    stream := ⟨dump, enabled, stream, inside, fun idle some =>
      Nat.le_antisymm inside ((all idle some).symm.trans_le more)⟩
    flushed := fun several => (logs.flushed several).trans more }

variable [DecidableEq Executor]

/-- Behind its publication an executor can only unlock the mutex. -/
theorem unlocked_of_unlocking {s s' : SharedBuffer Executor} {e : Event Executor} {call : Call}
    {offset : BitVec 32} (step : SharedBuffer.Step s e s')
    (here : s.phase e.executor = .unlocking call offset) : e = .unlocked e.executor := by
  cases step with
  | unlock before => rfl
  | call before | look before | lock before | found before | missed before | lockStandalone before
  | allocate before | copy before | advance before | publish before | keep before | finish before =>
    cases before.symm.trans here

theorem Logs.calls {e : Event Executor} {calls : SharedBuffer Executor}
    (logs : d.Logs architecture table blocks) (stepped : SharedBuffer.Step d.calls e calls)
    (kept : ∀ t guestAddress offset, e ≠ .published t guestAddress offset)
    (written : ∀ t, e = .unlocked t → d.pending = []) :
    Logs architecture table blocks { d with calls := calls } := by
  have same := stepped.table kept
  refine { logs with
    inv := logs.inv.step stepped
    stays := fun index before => ?_
    exact := fun index => ?_
    first := fun block member => stepped.first (logs.first block member)
    holder := fun busy => ?_ }
  · -- no address is published by this step, and the table stays as it is
    rw [same]
    exact logs.stays index before
  · rw [same]
    exact logs.exact index
  · -- bytes still to be written belong to the thread with the mutex
    obtain ⟨t, call, offset, here⟩ := logs.holder busy
    refine ⟨t, call, offset, (stepped.other ?_).trans here⟩
    rintro rfl
    exact busy (written _ (unlocked_of_unlocking stepped here))

/-- Only the insertion with the mutex writes to the dump. -/
theorem Logs.idle (logs : d.Logs architecture table blocks) {t : Executor} {call : Call} {offset : BitVec 32}
    (here : d.calls.phase t = .allocated call offset) : d.pending = [] := by
  by_contra busy
  obtain ⟨t', call', offset', there⟩ := logs.holder busy
  by_cases same : t' = t
  · subst same
    cases here.symm.trans there
  · have free := logs.inv.alone (t := t) (by rw [here]; rfl) same
    rw [there] at free
    cases free

theorem Logs.publish {t : Executor} {guestAddress : Word} {code : MachineCode} {offset : BitVec 32}
    {calls : SharedBuffer Executor} (logs : d.Logs architecture table blocks)
    (here : d.calls.phase t = .allocated (.insert guestAddress code) offset)
    (stepped : SharedBuffer.Step d.calls (.published t guestAddress offset) calls) :
    Logs architecture table (blocks ++ [(guestAddress, code)])
      { d with
        calls := calls
        pending := if d.codeDump.isSome then CodeDump.fileCalls (guestAddress, code) else [] } := by
  -- the insertion was the first of its block, and the dump has nothing left to write
  have idle := logs.idle here
  have phase := logs.inv.phases t
  rw [here] at phase
  obtain ⟨⟨-, works⟩, nonzero, -⟩ := phase
  obtain ⟨absent, first⟩ := works guestAddress code rfl
  obtain ⟨dump, enabled, stream, inside, all⟩ := logs.stream
  -- the publication changes the entry of its block alone
  have inv := logs.inv.step stepped
  have firsts {index : Nat} {code : MachineCode} (first : d.calls.first index = some code) :=
    stepped.first first
  have keeps {index : Nat} (before : d.calls.buffer.blockToOffset index ≠ 0) :=
    stepped.keepsBlock logs.inv before
  have entry (index : Nat) : calls.buffer.blockToOffset index
      = if index = guestAddress.toNat / 4 then offset else d.calls.buffer.blockToOffset index := by
    cases stepped with
    | publish before => rfl
  have unlocking : ∃ call offset, calls.phase t = .unlocking call offset := by
    cases stepped with
    | publish before => exact ⟨_, _, SharedBuffer.setPhase_self _ _ _⟩
  rw [enabled, Option.isSome_some, if_pos rfl]
  refine ⟨inv, fun index before => ?stays, ?once, fun index => ?exact, fun block member => ?first,
    fun _ => ⟨t, unlocking⟩, .inr ⟨[.write _, .write _, .write _], rfl⟩, ⟨dump, rfl, ?stream, inside, nofun⟩,
    fun more => ?flushed⟩
  case stays =>
    have stays := logs.stays index before
    exact (keeps stays).trans_ne stays
  -- a block that was in the table is not published again
  case once =>
    rw [List.map_append, List.nodup_append]
    refine ⟨logs.once, List.nodup_singleton _, fun a member b new => ?_⟩
    cases List.mem_singleton.mp new
    obtain ⟨block, member', rfl⟩ := List.mem_map.mp member
    rintro same
    refine ((logs.exact (block.1.toNat / 4)).mpr ⟨block, member', rfl⟩).1 ?_
    rw [same]
    exact absent
  -- the new entries are the old new ones and that of the publication
  case exact =>
    rw [entry]
    by_cases same : index = guestAddress.toNat / 4
    · subst same
      refine ⟨fun _ => ⟨_, List.mem_append_right _ (List.mem_singleton_self _), rfl⟩, fun _ => ?_⟩
      rw [if_pos rfl]
      exact ⟨nonzero, Classical.not_not.mp fun before => logs.stays _ before absent⟩
    · rw [if_neg same, logs.exact index]
      refine ⟨fun ⟨block, member, leads⟩ => ⟨block, List.mem_append_left _ member, leads⟩,
        fun ⟨block, member, leads⟩ => ?_⟩
      rcases List.mem_append.mp member with old | new
      · exact ⟨block, old, leads⟩
      · cases List.mem_singleton.mp new
        exact absurd leads.symm same
  case first =>
    rcases List.mem_append.mp member with old | new
    · exact firsts (logs.first block old)
    · cases List.mem_singleton.mp new
      exact firsts first
  -- the frame of the block is still to be written
  case stream =>
    rw [idle, List.flatMap_nil, List.append_nil] at stream
    rw [stream, CodeDump.bytes_fileCalls, List.flatMap_append, List.append_assoc, List.flatMap_singleton]
  -- and the frames of the others were flushed
  case flushed =>
    rw [List.length_append, List.length_singleton] at more
    have earlier : blocks ≠ [] := List.ne_nil_of_length_pos (Nat.lt_of_succ_lt_succ more)
    rw [idle, List.flatMap_nil, List.append_nil] at stream
    rw [List.dropLast_concat]
    show _ ≤ d.onDisk
    rw [all idle earlier, stream, List.length_append, ViewJit.length_header]

theorem Logs.step (logs : d.Logs architecture table blocks) (step : Step d e d') :
    d'.Logs architecture table (blocks ++ e.block.toList) := by
  cases step with
  | calls stepped kept written =>
    show Logs architecture table (blocks ++ []) _
    rw [List.append_nil]
    exact logs.calls stepped kept written
  | publish here stepped => exact logs.publish here stepped
  | write here enabled next =>
    show Logs architecture table (blocks ++ []) _
    rw [List.append_nil]
    exact logs.write enabled next
  | flush here enabled next =>
    show Logs architecture table (blocks ++ []) _
    rw [List.append_nil]
    exact logs.flush enabled next
  | drain enabled more inside =>
    show Logs architecture table (blocks ++ []) _
    rw [List.append_nil]
    exact logs.drain enabled more inside
  | enable free off known =>
    -- the dump is on, so it is not asked for again
    obtain ⟨dump, enabled, -⟩ := logs.stream
    cases off.symm.trans enabled

/-- Before the dump is asked for nothing is written. -/
theorem quiet_step (quiet : d.calls.Inv ∧ (d.codeDump = none → d.pending = [])) (step : Step d e d') :
    d'.calls.Inv ∧ (d'.codeDump = none → d'.pending = []) := by
  obtain ⟨inv, quiet⟩ := quiet
  cases step with
  | calls stepped => exact ⟨inv.step stepped, quiet⟩
  | publish here stepped =>
    refine ⟨inv.step stepped, fun off => ?_⟩
    dsimp only at off ⊢
    rw [off]
    rfl
  | write | enable => exact ⟨inv, fun off => by cases off⟩
  | flush here enabled | drain enabled => exact ⟨inv, fun off => by cases off.symm.trans enabled⟩

/-- The file of a dump that was just asked for. -/
theorem logs_enabled (quiet : d.calls.Inv ∧ (d.codeDump = none → d.pending = []))
    (asked : Step d (.enabled architecture) d') :
    d'.Logs architecture d'.calls.buffer.blockToOffset [] := by
  obtain ⟨inv, quiet⟩ := quiet
  cases asked with
  | enable free off known =>
    have idle := quiet off
    refine ⟨inv, fun _ same => same, List.nodup_nil, fun index => ?_,
      fun _ none => absurd none List.not_mem_nil, fun busy => absurd idle busy, .inl idle,
      ⟨_, rfl, ?_, Nat.zero_le _, fun _ some => absurd rfl some⟩, nofun⟩
    · refine ⟨fun ⟨present, absent⟩ => absurd absent present, ?_⟩
      rintro ⟨block, none, -⟩
      cases none
    · dsimp only
      rw [idle, List.flatMap_nil, List.flatMap_nil]

theorem Logs.run {events : List (DumpEvent Executor)} (logs : d.Logs architecture table [])
    (run : Run Step d events d') : d'.Logs architecture table (publications events) := by
  refine run.invariant (P := fun events d' => d'.Logs architecture table (publications events)) logs
    fun logs step => ?_
  have next := logs.step step
  unfold publications at next ⊢
  rw [List.filterMap_append]
  exact next

/-- However executors use a buffer with a dump, and however much of the stream is in the file, the script reads
the blocks that were published since the dump was asked for, each of them once and in this order, but for the
one that is being written. Before the first block is flushed it may fail, since the header may be missing. -/
theorem view_sharedDump {flags : CodeBufferFlags} {size : Nat} {size_le : size ≤ 2 ^ 32} {limit : Word}
    {before after : List (DumpEvent Executor)} {d₀ : SharedDump Executor}
    (run : Run Step (create flags size size_le limit) before d₀)
    (asked : Step d₀ (.enabled architecture) d) (run' : Run Step d after d') :
    Dumps architecture d d' (publications after) := by
  have quiet : d₀.calls.Inv ∧ (d₀.codeDump = none → d₀.pending = []) :=
    run.keeps (P := fun d => d.calls.Inv ∧ (d.codeDump = none → d.pending = []))
      ⟨SharedBuffer.inv_create flags size_le limit, fun _ => rfl⟩ fun _ => quiet_step
  have logs := (logs_enabled quiet asked).run run'
  exact ⟨logs.once, logs.exact, fun _ member => (logs.placed member).2, logs.reads, logs.whole⟩

end Runs

/-- A step of a call that neither publishes nor unlocks. -/
theorem Step.inside {d : SharedDump Bool} {e : Event Bool} {calls : SharedBuffer Bool}
    (stepped : SharedBuffer.Step d.calls e calls) (kept : ∀ t guestAddress offset, e ≠ .published t guestAddress offset)
    (held : ∀ t, e ≠ .unlocked t) : Step d (.calls e) { d with calls := calls } :=
  .calls stepped kept fun t same => absurd same (held t)

/-- Where the dump is asked for the file is empty. In the insertion of a block its address gets there first, and
with the flush the script reads the block. -/
theorem view_sharedDump_insert : ∃ (d d' d'' : SharedDump Bool) (after after' : List (DumpEvent Bool)),
    (d.disk = [] ∧ Dumps .x64 d d []) ∧
    (publications after = [(4, [0x90])] ∧ d'.disk.length = 8 + 8 ∧ Dumps .x64 d d' (publications after)) ∧
    publications after' = [(4, [0x90])] ∧
      ViewJit.view d''.disk = .ok (.x64, publications after', .noHeader) := by
  have run : Run Step (create {} 64 (by decide) 16 : SharedDump Bool) [] _ := .start
  let d : SharedDump Bool := ⟨.create {} 64 (by decide) 16, some (.create .x64), 0, []⟩
  have asked : Step (create {} 64 (by decide) 16 : SharedDump Bool) (.enabled .x64) d :=
    .enable rfl rfl (show codeDumpArchitecture .x64 = .ok .x64 from rfl)
  have run' : Run Step d [] _ := .start
  have run' := run'.next (.inside
    (show SharedBuffer.Step _ (.called true (.insert 4 [0x90])) _ from
      .call rfl ⟨by decide, List.cons_ne_nil _ _⟩) nofun nofun)
  have run' := run'.next (.inside (.lock (t := true) rfl rfl) nofun nofun)
  have run' := run'.next (.inside (.missed (t := true) rfl rfl) nofun nofun)
  have run' := run'.next (.inside (.allocate (t := true) rfl rfl (by decide)) nofun nofun)
  have run' := run'.next (.inside (.copy (t := true) (i := 0) rfl (by decide) rfl) nofun nofun)
  have run' := run'.next (.inside (.advance (t := true) rfl rfl) nofun nofun)
  have run' := run'.next (.publish (t := true) rfl (.publish rfl))
  have run' := run'.next (.write (t := true) rfl rfl rfl)
  -- the header of the file and the address of the block reach it
  have run' := run'.next (.drain (n := 16) rfl (by decide) (by decide))
  have cut := view_sharedDump run asked run'
  -- the rest is written, and the flush brings it all to the file
  have run'' := run'.next (.write (t := true) rfl rfl rfl)
  have run'' := run''.next (.write (t := true) rfl rfl rfl)
  have run'' := run''.next (.flush (t := true) rfl rfl rfl)
  have whole := (view_sharedDump run asked run'').whole rfl (List.cons_ne_nil _ _)
  exact ⟨d, _, _, _, _, ⟨rfl, view_sharedDump run asked .start⟩, ⟨rfl, rfl, cut⟩, rfl, whole⟩

end SharedDump

end Riscv64Emulator.Jit
