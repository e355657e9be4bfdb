import Riscv64Emulator.Jit.Equivalence
import Riscv64Emulator.Jit.FixedCode
import Riscv64Emulator.StartUp

/-!
# The program as a whole

`main.cpp` from the file to the report: what it has loaded is what either engine executes, both
engines come to the same end, and what is printed there is about the instruction the guest stopped
at.
-/
namespace Riscv64Emulator

open ElfLoader Jit Interpreter

/-! ### What is run -/

/-- The guest as `main` starts it. -/
def StartUp.vm (s : StartUp) : VmState := ⟨s.memory, s.cpu, {}⟩

theorem codeBuffer_le : 0x1000000 ≤ 2 ^ 32 := by decide

/-- The executor of `main` has put its trampoline into a new buffer, and the objects of the run lie
where they do not overlap. -/
structure StartUp.Uses (s : StartUp) (build : Build) {arch : Arch} (buffer : Buffer arch) : Prop where
  made : ∃ (length : Nat) (offset : BitVec 32), 0 < length ∧
    (CodeBuffer.create {} 0x1000000 codeBuffer_le s.image.maxExecutableAddress : Buffer arch).insertStandalone
      length .trampoline = .ok (offset, buffer)
  layout : build.layout.Valid (guestOf s.vm).extent (4 * buffer.maxBlocks.toNat)

namespace Binary

/-- The segments do not overlap, and none may be both written and executed. -/
structure Protected (b : Binary) : Prop where
  separate : b.Separate
  fixed : ∀ ph, b.Loads ph → ph.isExecutable = true → ph.flags.getLsbD 1 = false

/-- The instruction at `pc` in the executable segments of the file. -/
def Encodes (b : Binary) (pc : Word) (i : Instruction) : Prop :=
  ∃ byte : Nat → Byte, i = .ofWord ((leValue (bytesAt byte pc.toNat 4)).setWidth 32) ∧
    ∀ k < 4, ∃ ph, b.Loads ph ∧ ph.isExecutable = true ∧ ph.Covers (pc.toNat + k) ∧
      byte (pc.toNat + k) = b.segmentByte ph (pc.toNat + k)

end Binary

/-! ### The memory of the guest -/

section Memory

variable {b : Binary} {memory : Memory} {ph : ProgramHeader} {j : Nat}

theorem permissions_execute (ph : ProgramHeader) :
    ph.permissions &&& MemoryFlags.execute = MemoryFlags.execute ↔ ph.isExecutable = true := by
  unfold ProgramHeader.permissions ProgramHeader.isExecutable
  cases ph.flags.getLsbD 0 <;> cases ph.flags.getLsbD 1 <;> decide

theorem permissions_write (ph : ProgramHeader) :
    ph.permissions &&& MemoryFlags.write = MemoryFlags.write ↔ ph.flags.getLsbD 1 = true := by
  unfold ProgramHeader.permissions
  cases ph.flags.getLsbD 0 <;> cases ph.flags.getLsbD 1 <;> decide

/-- The call for the stack changes permissions only. -/
theorem contents_grantStack (image : Image) (memory : Memory) (inside : j < memory.permissionsOffset) :
    (grantStack image memory).contents j = memory.contents j := by
  unfold grantStack Memory.setPermissions
  split
  · rfl
  · exact overwrite_outside _ _ _ _ (.inl (by omega))

/-- What is executable in the memory of an accepted file belongs to an executable segment. -/
theorem executable_granted (accepted : b.Accepted memory) (size : memory.size = memorySize)
    (blank : ∀ j, memory.permissions j = 0)
    (execute : (grantStack (b.image memory) (b.stateBefore memory b.pheCount).memory).permissions j
      &&& MemoryFlags.execute = MemoryFlags.execute) :
    ∃ ph, b.Loads ph ∧ ph.isExecutable = true ∧ ph.Covers j ∧
      (grantStack (b.image memory) (b.stateBefore memory b.pheCount).memory).permissions j = ph.permissions := by
  rw [Binary.permissions_granted accepted size] at execute ⊢
  split at execute
  · exact absurd execute (by decide)
  · next other =>
    rw [if_neg other]
    rcases Binary.permissions_stateBefore (by rw [size]; decide) accepted.2 j with
      ⟨-, old⟩ | ⟨i, counted, ph, header, covers, last⟩
    · rw [old, blank] at execute
      exact absurd execute (by decide)
    · rw [last] at execute
      exact ⟨ph, ⟨i, counted, header⟩, (permissions_execute ph).mp execute, covers, last⟩

theorem size_grantStack (image : Image) (memory : Memory) : (grantStack image memory).size = memory.size := by
  unfold grantStack Memory.setPermissions
  split <;> rfl

/-- An accepted segment is copied and granted by calls whose ranges do not wrap. -/
theorem reachable_next {l : LoadState} (reached : l.memory.Reachable) (passes : Passes b l.memory l.baseAddress ph)
    (straight : ph.memoryAddress.toNat + ph.memorySize.toNat < 2 ^ 64) : (l.next b ph).memory.Reachable := by
  have short := Binary.dataSize_toNat ph
  -- the copy, and then the permissions; an empty range is no call's range
  have written : (copied b l.memory ph).Reachable := by
    by_cases empty : ph.dataSize.toNat = 0
    · unfold copied
      simp only [empty, bytesAt, List.range_zero, List.map_nil, overwrite_nil]
      exact reached
    · have accepted : l.memory.write ph.memoryAddress (bytesAt b.byte ph.fileOffset.toNat ph.dataSize.toNat)
          = some (copied b l.memory ph) := by
        unfold Memory.write
        rw [length_bytesAt, BitVec.ofNat_toNat, BitVec.setWidth_eq, passes.copy (Nat.pos_of_ne_zero empty)]
        rfl
      exact .write reached (by rw [length_bytesAt]; omega) accepted
  by_cases empty : ph.memorySize.toNat = 0
  · show (granted (copied b l.memory ph) ph).Reachable
    unfold granted
    simp only [empty, List.replicate_zero, overwrite_nil]
    exact written
  · have accepted : (copied b l.memory ph).setPermissions ph.memoryAddress ph.memorySize
        (segmentPermissions ph.flags) = some (l.next b ph).memory := by
      have range : (copied b l.memory ph).outOfRange ph.memoryAddress ph.memorySize = false :=
        passes.grant (Nat.pos_of_ne_zero empty)
      unfold Memory.setPermissions
      rw [range]
      rfl
    exact .setPermissions written straight accepted

theorem reachable_stateBefore {n : Nat} (reached : memory.Reachable) (passes : ∀ i < n, b.HeaderPasses memory i)
    (straight : ∀ i < n, ∀ ph, b.programHeader i = some ph →
      ph.memoryAddress.toNat + ph.memorySize.toNat < 2 ^ 64) : (b.stateBefore memory n).memory.Reachable := by
  induction n with
  | zero => exact reached
  | succ n ih =>
    have before := ih (fun i below => passes i (by omega)) fun i below => straight i (by omega)
    cases header : b.programHeader n with
    | none =>
      rw [Binary.stateBefore_succ_of_none header]
      exact before
    | some ph =>
      rw [Binary.stateBefore_succ_of_some header]
      refine reachable_next before ?_ (straight n (by omega) ph header)
      rw [Binary.stateBefore_base]
      exact (Binary.passes_congr (Binary.stateBefore_size b memory n)).mpr ((passes n (by omega)).2 ph header)

theorem reachable_grantStack {image : Image} (reached : memory.Reachable) (aligned : image.base.toNat % 4096 = 0) :
    (grantStack image memory).Reachable := by
  unfold grantStack
  cases granted : memory.setPermissions 0x10 image.base stackPermissions with
  | none => exact reached
  | some memory' =>
    have base := image.base.isLt
    have start : (0x10 : Word).toNat = 16 := rfl
    exact .setPermissions reached (by rw [start]; omega) granted

end Memory

section Started

variable {target : JitTarget} {b : Binary} {s : StartUp}

/-- The memory `main` starts the guest in. -/
theorem startUp_memory (started : startUp target b = .ok s) :
    ∃ memory, b.Accepted memory ∧ memory.size = memorySize ∧ memory.Reachable ∧
      (∀ j, memory.allocation j = 0) ∧ s.image = b.image memory ∧
      s.memory = grantStack (b.image memory) (b.stateBefore memory b.pheCount).memory := by
  obtain ⟨memory, loaded, granted, -⟩ := startUp_cases started
  obtain ⟨accepted, same⟩ := Binary.accepted_of_load loaded
  obtain ⟨image, left⟩ := Prod.mk.inj same
  exact ⟨_, accepted, rfl, .create _ _, fun _ => rfl, image, by rw [granted, left, image]⟩

theorem startUp_size (started : startUp target b = .ok s) : s.memory.size = memorySize := by
  obtain ⟨memory, -, size, -, -, -, same⟩ := startUp_memory started
  rw [same, size_grantStack, Binary.stateBefore_size, size]

theorem startUp_moderate (started : startUp target b = .ok s) : s.memory.size.toNat ≤ 2 ^ 63 := by
  rw [startUp_size started]
  decide

theorem startUp_executable (started : startUp target b = .ok s) {j : Nat}
    (execute : s.memory.permissions j &&& MemoryFlags.execute = MemoryFlags.execute) :
    ∃ ph, b.Loads ph ∧ ph.isExecutable = true ∧ ph.Covers j ∧ s.memory.permissions j = ph.permissions := by
  obtain ⟨memory, accepted, size, -, blank, -, same⟩ := startUp_memory started
  rw [same] at execute ⊢
  exact executable_granted accepted size (fun _ => blank _) execute

/-- The stack is not executable, so what may be executed cannot be written. -/
theorem startUp_writeXorExecute (started : startUp target b = .ok s) (guarded : b.Protected) :
    s.memory.WriteXorExecute := by
  rintro j ⟨write, execute⟩
  obtain ⟨ph, loads, executable, -, granted⟩ := startUp_executable started execute
  rw [granted, permissions_write, guarded.fixed ph loads executable] at write
  cases write

/-- What is fetched from the memory comes from the file. -/
theorem startUp_encodes (started : startUp target b = .ok s) (guarded : b.Protected) {pc : Word} {i : Instruction}
    (here : codeAt s.memory pc = some i) : b.Encodes pc i := by
  obtain ⟨w, read, rfl⟩ := Option.map_eq_some_iff.mp here
  obtain ⟨granted, rfl⟩ := grants_of_readT (startUp_moderate started) (by decide) read
  refine ⟨s.memory.contents, rfl, fun k low => ?_⟩
  obtain ⟨inside, execute⟩ := granted k low
  obtain ⟨ph, loads, executable, covers, -⟩ := startUp_executable started execute
  refine ⟨ph, loads, executable, covers, ?_⟩
  obtain ⟨memory, accepted, size, -, blank, -, same⟩ := startUp_memory started
  obtain ⟨i, counted, header⟩ := loads
  rw [startUp_size started, ← size] at inside
  have half := (b.stateBefore memory b.pheCount).memory.size_le_permissionsOffset
  rw [Binary.stateBefore_size] at half
  rw [same, contents_grantStack _ _ (by omega)]
  exact ((Binary.filled_stateBefore guarded.separate (Nat.le_refl _) accepted.2 inside
    ⟨blank _, blank _⟩).inside i counted ph header covers).1

theorem startUp_reachable (started : startUp target b = .ok s) (guarded : b.Protected) : s.memory.Reachable := by
  obtain ⟨memory, accepted, size, reached, -, -, same⟩ := startUp_memory started
  rw [same]
  exact reachable_grantStack (reachable_stateBefore reached accepted.2 guarded.separate.straight)
    (Binary.image_aligned accepted)

/-! ### The executor of `main` -/

section Uses

variable {build : Build} {arch : Arch} {buffer : Buffer arch}

/-- The buffer of `main` holds no block yet. -/
theorem StartUp.Uses.fresh (uses : s.Uses build buffer) :
    GenuineBuffer build.singleStep s.vm.memory.size buffer ∧ buffer.flags = {} ∧
      buffer.maxBlocks = (s.image.maxExecutableAddress + 4 - 1) / 4 ∧
      ∀ P, GenuineBuffer.CompiledFrom P buffer := by
  obtain ⟨length, offset, positive, inserted⟩ := uses.made
  have allocated := CodeBuffer.allocated positive inserted
  refine ⟨(genuine_create _ _ _ _ _).insertStandalone positive inserted, allocated.flags, allocated.maxBlocks,
    fun P index inside published => ?_⟩
  rw [allocated.blocks] at published
  exact absurd rfl published

theorem StartUp.Uses.starts (started : startUp target b = .ok s) (uses : s.Uses build buffer) :
    Starts build s.vm buffer where
  genuine := uses.fresh.1
  zero := by
    obtain ⟨-, -, -, -, -, zero, -⟩ := startUp_cases started
    exact zero
  layout := uses.layout

end Uses

/-- The code both engines execute is that of the file: the instructions the interpreter fetches, the
memory generated code works on, and the blocks it consists of. -/
theorem main_executesFile (target : JitTarget) (b : Binary) (s : StartUp) (started : startUp target b = .ok s)
    (guarded : b.Protected) :
    (∀ v i, Run s.vm v → fetched v = some i → b.Encodes v.cpu.pc i) ∧
    ∀ (host : Host) (build : Build) (buffer : Buffer host.arch), s.Uses build buffer →
      ∀ c, Runs host.arch build (.lookup s.vm buffer) c →
        (∀ pc i, codeAt c.guest.memory pc = some i → b.Encodes pc i) ∧
        ∀ exit buffer' block m, c = .inside exit buffer' block m →
          block.Genuine build.singleStep s.memory.size buffer' ∧
            ∀ pc i, codeAt block.memory pc = some i → b.Encodes pc i := by
  have fixed := startUp_writeXorExecute started guarded
  have encodes : ∀ {pc i}, codeAt s.memory pc = some i → b.Encodes pc i := startUp_encodes started guarded
  refine ⟨fun v i run fetch => ?_, fun host build buffer uses c run => ?_⟩
  · -- the interpreter
    have aligned := (and_mask_eq_zero v.cpu.pc (k := 2) (by decide)).mpr (aligned_of_fetched fetch).1
    rw [fetched_of_codeAt aligned, codeAt_run fixed (startUp_moderate started) run] at fetch
    exact encodes fetch
  · -- generated code
    have starts := uses.starts started
    obtain ⟨-, flags, -, blocks⟩ := uses.fresh
    have executing := executing_runs starts fixed (by rw [flags]) (blocks _) run
    refine ⟨fun pc i here => encodes (by rwa [executing.guest] at here), ?_⟩
    rintro exit buffer' block m rfl
    refine ⟨((starts.sound host.refines).run run).2.2, fun pc i here => encodes ?_⟩
    rwa [executing.inside exit buffer' block m rfl] at here

end Started

/-! ### A file with a program that counts to five -/

namespace CountingFile

/-- `addi x1, x0, 5` and `ecall` behind the first 16 bytes of the image. -/
def file : Binary where
  bytes := [0x7f, 0x45, 0x4c, 0x46, 0x02, 0x01, 0x01, 0x00] ++ List.replicate 8 0 ++
    [0x02, 0x00, 0xf3, 0x00, 0x01, 0x00, 0x00, 0x00] ++
    [0x10, 0x10, 0x00, 0x00, 0x00, 0x00, 0x00, 0x00] ++
    [0x40, 0x00, 0x00, 0x00, 0x00, 0x00, 0x00, 0x00] ++ List.replicate 14 0 ++
    [0x38, 0x00, 0x01, 0x00] ++ List.replicate 6 0 ++
    [0x01, 0x00, 0x00, 0x00, 0x05, 0x00, 0x00, 0x00] ++
    [0x78, 0x00, 0x00, 0x00, 0x00, 0x00, 0x00, 0x00] ++
    [0x00, 0x10, 0x00, 0x00, 0x00, 0x00, 0x00, 0x00] ++ List.replicate 8 0 ++
    [0x18, 0x00, 0x00, 0x00, 0x00, 0x00, 0x00, 0x00] ++
    [0x18, 0x00, 0x00, 0x00, 0x00, 0x00, 0x00, 0x00] ++ List.replicate 8 0 ++
    List.replicate 16 0 ++ [0x93, 0x00, 0x50, 0x00, 0x73, 0x00, 0x00, 0x00]
  length_lt := by simp

theorem only (ph : ProgramHeader) (loads : file.Loads ph) : ph = ⟨5, 0x78, 0x1000, 0x18, 0x18⟩ :=
  Binary.loads_alone (by decide) rfl ph loads

theorem guarded : file.Protected where
  separate := by
    have count : file.pheCount = 1 := by decide
    constructor
    · intro i below ph same
      rw [only ph ⟨i, below, same⟩]
      decide
    · intro i below ph _ i' below' _ _ other
      rw [count] at below below'
      omega
  fixed ph loads _ := by
    rw [only ph loads]
    rfl

theorem placed : file.WellPlaced where
  first first found ph loads _ := by
    rw [only ph loads, only first (Binary.loads_of_firstLoadable found)]
  last _ ph loads := by
    rw [only ph loads]
    decide

/-- What `main` has when it starts the guest. -/
structure Ready (s : StartUp) : Prop where
  started : startUp .x64 file = .ok s
  image : s.image = ⟨0x1000, 0x1000, 0x1010⟩
  addition : s.memory.readT 4 0x1010 MemoryFlags.execute = some 0x00500093
  call : s.memory.readT 4 0x1014 MemoryFlags.execute = some 0x00000073

variable {s : StartUp}

/-- The state at the system call. -/
def counted (s : StartUp) : VmState := retire s.vm (s.vm.cpu.set 1 5)

theorem Ready.zero (ready : Ready s) : s.vm.cpu.get Register.zero = 0 := by
  obtain ⟨-, -, -, -, -, zero, -⟩ := startUp_cases ready.started
  exact zero

theorem Ready.pc (ready : Ready s) : s.vm.cpu.pc = 0x1010 := by
  obtain ⟨-, -, -, -, -, -, -, entry⟩ := startUp_cases ready.started
  exact entry.trans (congrArg Image.entrypoint ready.image)

theorem Ready.pc_counted (ready : Ready s) : (counted s).cpu.pc = 0x1014 := by
  have next : (counted s).cpu.pc = s.vm.cpu.pc + 4 := pc_set _ _
  rw [next, ready.pc]
  rfl

theorem Ready.codeAt_addition (ready : Ready s) : codeAt s.memory 0x1010 = some (.ofWord 0x00500093) := by
  unfold codeAt
  rw [ready.addition]
  rfl

theorem Ready.codeAt_call (ready : Ready s) : codeAt s.memory 0x1014 = some (.ofWord 0x00000073) := by
  unfold codeAt
  rw [ready.call]
  rfl

theorem Ready.fetches (ready : Ready s) : fetched s.vm = some (.ofWord 0x00500093) := by
  rw [fetched_of_codeAt (by rw [ready.pc]; rfl), ready.pc]
  exact ready.codeAt_addition

theorem Ready.fetches_call (ready : Ready s) : fetched (counted s) = some (.ofWord 0x00000073) := by
  rw [fetched_of_codeAt (by rw [ready.pc_counted]; rfl), ready.pc_counted]
  exact ready.codeAt_call

theorem Ready.steps (ready : Ready s) : Steps s.vm (counted s) := by
  have value : Isa.result (.ofWord 0x00500093) s.vm.cpu.pc s.vm.cpu = 5 := by
    show s.vm.cpu.get Register.zero + 5 = 5
    rw [ready.zero]
    rfl
  refine (step_computes ready.fetches (by decide)).trans ?_
  show Except.ok (true, retire s.vm (s.vm.cpu.set 1 (Isa.result _ s.vm.cpu.pc s.vm.cpu))) = _
  rw [value]
  rfl

theorem Ready.stops (ready : Ready s) :
    step (counted s) = .ok (false, { counted s with exit := { reason := .ecall } }) := by
  rw [step_of_fetched ready.fetches_call]
  rfl

theorem Ready.returns (ready : Ready s) :
    Interpreter.Returns s.vm { counted s with exit := { reason := .ecall } } :=
  ⟨counted s, .single ready.steps, ready.stops⟩

theorem Ready.run_cases (ready : Ready s) {v : VmState} (run : Run s.vm v) : v = s.vm ∨ v = counted s := by
  rcases run.cases_head with rfl | ⟨w, first, rest⟩
  · exact .inl rfl
  · cases ready.steps.symm.trans first
    exact .inr (run_of_stops ready.stops rest)

/-- The buffer of the executor, with its trampoline. -/
theorem Ready.uses (ready : Ready s) : ∃ buffer : Buffer Counting.host.arch,
    s.Uses (Counting.build false) buffer ∧ buffer.flags = {} ∧ buffer.maxBlocks = 0x800 ∧
      (∀ index, buffer.blockToOffset index = 0) ∧ buffer.nextFreeOffset = 17 ∧ buffer.size = 0x1000000 := by
  have fits : CodeBuffer.alignedOffset 16 + 1 ≤ 0x1000000 := by decide
  have blocks : (s.image.maxExecutableAddress + 4 - 1) / 4 = 0x800 := by
    rw [ready.image]
    rfl
  have extent : (guestOf s.vm).extent = 0x4000000 := by
    show 2 * s.memory.permissionsOffset = _
    unfold Memory.permissionsOffset
    rw [startUp_size ready.started]
    rfl
  refine ⟨_, ⟨⟨1, _, by decide, if_pos fits⟩, ?_⟩, rfl, blocks, fun _ => rfl,
    show CodeBuffer.alignedOffset 16 + 1 = 17 by decide, rfl⟩
  rw [extent]
  show Overwrite.build.layout.Valid _ (4 * ((s.image.maxExecutableAddress + 4 - 1) / 4).toNat)
  rw [blocks]
  constructor <;> decide

theorem Ready.regular (ready : Ready s) {v : VmState} {i : Instruction} (run : Run s.vm v)
    (fetched : fetched v = some i) : Regular Counting.host false 0x800 v i := by
  rcases ready.run_cases run with rfl | rfl
  · cases fetched.symm.trans ready.fetches
    refine Counting.regular_of_type (.inl (by decide)) fun _ _ => ?_
    rw [ready.pc]
    exact ⟨rfl, by decide⟩
  · cases fetched.symm.trans ready.fetches_call
    exact Counting.regular_of_type (.inr (by decide)) fun v' steps => by cases ready.stops.symm.trans steps

/-- The block at the entry point ends with the system call. -/
theorem Ready.outcome (ready : Ready s) (st : Setting) (running : st.singleStep = false) :
    ∃ g, blockEffect Counting.host.backEnd st s.memory (blockFuel s.memory) 0x1010 (guestOf s.vm)
      = .depart (.exit .ecall 0x1014) g := by
  let added := (guestOf s.vm).setRegister 1 (s.vm.cpu.get Register.zero + 5)
  have second : codeAt s.memory (0x1010 + 4) = some (.ofWord 0x00000073) := ready.codeAt_call
  have adds : effect Counting.host.backEnd st 0x1010 (.ofWord 0x00500093) (guestOf s.vm) = .next added := rfl
  have calls : effect Counting.host.backEnd st (0x1010 + 4) (.ofWord 0x00000073) added
      = .depart (.exit .ecall 0x1014) added := rfl
  refine ⟨added, ?_⟩
  unfold blockFuel
  simp only [blockEffect, ready.codeAt_addition, adds, running, second, calls, Bool.false_eq_true, if_false]

/-- The executor compiles the block at the entry point, enters it, and leaves with the system call. -/
theorem Ready.enters (ready : Ready s) {buffer : Buffer Counting.host.arch}
    (uses : s.Uses (Counting.build false) buffer) (flags : buffer.flags = {}) (blocks : buffer.maxBlocks = 0x800)
    (unpublished : ∀ index, buffer.blockToOffset index = 0)
    (fits : CodeBuffer.alignedOffset buffer.nextFreeOffset + 1 ≤ buffer.size) :
    ∃ (buffer' : Buffer Counting.host.arch) (block : CompiledBlock Counting.host.arch.Code)
      (state : Counting.host.arch.State) (v : VmState), block.pc = 0x1010 ∧ block.memory = s.memory ∧
        Runs Counting.host.arch (Counting.build false) (.lookup s.vm buffer) (.inside {} buffer' block state) ∧
        Next Counting.host.arch (Counting.build false) (.inside {} buffer' block state) (.stopped v buffer') := by
  obtain ⟨code, generated⟩ := Counting.generates {} 0x800 s.memory false 0x1010
  have admits : buffer.Admits s.vm.cpu.pc := by
    unfold CodeBuffer.Admits
    rw [ready.pc, blocks]
    decide
  have sound := (uses.starts ready.started).sound Counting.host.refines
  obtain ⟨-, buffer', state, miss, compiled, -, -, before, -⟩ :=
    sound.enters (fun _ => (0 : Word)) admits (unpublished _) (by rw [flags, blocks, ready.pc]; exact generated) fits
  obtain ⟨g, outcome⟩ := ready.outcome ((Counting.build false).setting buffer') rfl
  obtain ⟨state', ran, reason, -⟩ := ((sound.next miss).next compiled).exits (by
    rw [before, ready.pc]
    exact outcome)
  exact ⟨buffer', _, state, _, ready.pc, rfl, (Relation.ReflTransGen.single miss).tail compiled,
    .leaves .ecall rfl ran reason⟩

set_option maxRecDepth 8192 in
theorem ready : ∃ s, Ready s := ⟨_, rfl, rfl, rfl, rfl⟩

end CountingFile

/-- The interpreter at the system call, and generated code in the block in front of it. -/
theorem main_executesFile_addi : ∃ (s : StartUp) (v : VmState) (buffer buffer' : Buffer Counting.host.arch)
    (block : CompiledBlock Counting.host.arch.Code) (state : Counting.host.arch.State),
    startUp .x64 CountingFile.file = .ok s ∧ Run s.vm v ∧ v.cpu.get 1 = 5 ∧
      CountingFile.file.Encodes v.cpu.pc (.ofWord 0x00000073) ∧
      Runs Counting.host.arch (Counting.build false) (.lookup s.vm buffer) (.inside {} buffer' block state) ∧
      block.pc = 0x1010 ∧ CountingFile.file.Encodes 0x1010 (.ofWord 0x00500093) ∧
      CountingFile.file.Encodes 0x1014 (.ofWord 0x00000073) := by
  obtain ⟨s, ready⟩ := CountingFile.ready
  obtain ⟨buffer, uses, flags, blocks, unpublished, next, size⟩ := ready.uses
  obtain ⟨buffer', block, state, -, at_pc, compiled, run, -⟩ := ready.enters uses flags blocks unpublished
    (by rw [next, size]; decide)
  obtain ⟨interpreted, executed⟩ := main_executesFile .x64 CountingFile.file s ready.started CountingFile.guarded
  obtain ⟨-, inside⟩ := executed Counting.host (Counting.build false) buffer uses _ run
  have encodes := (inside {} buffer' block state rfl).2
  rw [compiled] at encodes
  have written : (CountingFile.counted s).cpu.get 1 = 5 := by
    have kept := RegisterState.get_set_other (s.vm.cpu.set 1 5) (s.vm.cpu.pc + 4)
      (show (1 : Register) ≠ Register.pc by decide)
    exact kept.trans (RegisterState.get_set_same _ _ _ (by decide))
  exact ⟨s, CountingFile.counted s, buffer, buffer', block, state, ready.started, .single ready.steps, written,
    interpreted _ _ (.single ready.steps) ready.fetches_call, run, at_pc, encodes _ _ ready.codeAt_addition,
    encodes _ _ ready.codeAt_call⟩

section Started

variable {target : JitTarget} {b : Binary} {s : StartUp}

/-! ### Both engines -/

/-- Executable bytes lie below the limit of the buffer. -/
theorem StartUp.Uses.covered {build : Build} {arch : Arch} {buffer : Buffer arch} (uses : s.Uses build buffer)
    (started : startUp target b = .ok s) (guarded : b.Protected) (placed : b.WellPlaced) {j : Nat}
    (execute : s.memory.permissions j &&& MemoryFlags.execute = MemoryFlags.execute) :
    j < 4 * buffer.maxBlocks.toNat := by
  obtain ⟨ph, loads, executable, covers, -⟩ := startUp_executable started execute
  obtain ⟨memory, accepted, -, -, -, image, -⟩ := startUp_memory started
  have straight : ∀ ph, b.Loads ph → ph.last < 2 ^ 64 := fun ph ⟨i, counted, header⟩ =>
    guarded.separate.straight i counted ph header
  -- the byte is of a segment, the image reaches as far as the segments, and the buffer as far as the image
  obtain ⟨first, last, -, -, -, -, bounds, sum⟩ := Binary.image_bounds accepted straight loads
  have positive : 0 < ph.memorySize.toNat := Nat.pos_of_lt_add_right (Nat.lt_of_le_of_lt covers.1 covers.2)
  have below : last ≤ 2 ^ 64 - 4096 := (bounds _).mpr (placed.last ⟨ph, loads, executable, positive⟩)
  have inside : ph.last ≤ last := (bounds last).mp (Nat.le_refl _) ph loads
  obtain ⟨-, -, limit, -⟩ := uses.fresh
  rw [← image] at sum
  have limit' : s.image.maxExecutableAddress.toNat = s.image.base.toNat + s.image.size.toNat := by
    unfold Image.maxExecutableAddress
    rw [BitVec.toNat_add]
    omega
  have blocks : buffer.maxBlocks.toNat = (s.image.maxExecutableAddress.toNat + 3) / 4 := by
    rw [limit, BitVec.toNat_udiv]
    have plus : (s.image.maxExecutableAddress + 4 - 1).toNat = s.image.maxExecutableAddress.toNat + 3 := by bv_omega
    rw [plus]
    rfl
  have end_of : j < ph.last := covers.2
  omega

theorem StartUp.Uses.comparable {host : Host} {build : Build} {buffer : Buffer host.arch}
    (uses : s.Uses build buffer) (started : startUp target b = .ok s) (guarded : b.Protected)
    (placed : b.WellPlaced) (entry : fetched s.vm ≠ none) : Comparable host build s.vm buffer where
  starts := uses.starts started
  admitted := by
    obtain ⟨i, fetch⟩ := Option.ne_none_iff_exists'.mp entry
    obtain ⟨aligned, w, read⟩ := aligned_of_fetched fetch
    have execute := ((grants_of_readT (startUp_moderate started) (by decide) read).1 0 (by decide)).2
    have below := uses.covered started guarded placed execute
    exact ⟨(and_mask_eq_zero _ (k := 2) (by decide)).mpr aligned, by omega⟩
  reached := startUp_reachable started guarded
  covered j granted := uses.covered started guarded placed granted.2
  current := uses.fresh.2.2.2 _
  unmodified v run w run' _ := by
    have fixed := startUp_writeXorExecute started guarded
    rw [codeAt_run fixed (startUp_moderate started) run, codeAt_run fixed (startUp_moderate started) run']

end Started

/-! ### The report -/

/-- What `main` prints when the guest has stopped. -/
structure Report where
  reason : ExitReason
  pc : Word
  faultyAddress : Option Word
  writtenValue : Option Word
deriving DecidableEq, Repr

def report (vm : VmState) : Report where
  reason := vm.exit.reason
  pc := vm.cpu.pc
  faultyAddress :=
    if vm.exit.reason = .memoryReadFault ∨ vm.exit.reason = .memoryWriteFault then some vm.exit.faultyAddress
    else none
  writtenValue :=
    if vm.exit.reason = .memoryWriteFault then some (vm.cpu.get vm.exit.targetRegister) else none

/-- Two reports that say the same, where the engines give a fetch beyond the table two names. -/
structure Report.Matches (r r' : Report) : Prop where
  reason : Counted r.reason r'.reason
  pc : r.pc = r'.pc
  faultyAddress : r.faultyAddress = r'.faultyAddress
  writtenValue : r.writtenValue = r'.writtenValue

theorem report_matches {v final : VmState} (same : SameResult v final) : (report v).Matches (report final) := by
  obtain ⟨-, cpu, reason, address, register⟩ := same
  rcases reason with reason | ⟨reason, reason'⟩
  · refine ⟨.inl reason, congrArg RegisterState.pc cpu, ?_, ?_⟩ <;>
      simp only [report, reason, address, register, cpu]
  · refine ⟨.inr ⟨reason, reason'⟩, congrArg RegisterState.pc cpu, ?_, ?_⟩ <;> simp [report, reason, reason']

/-- The report is about the access of an instruction at the pc it names: its address, for a store its
value, and the memory refuses it. -/
structure Report.Names (r : Report) (v : VmState) (i : Instruction) (write : Bool) : Prop where
  fetched : fetched v = some i
  report : r = ⟨if write then .memoryWriteFault else .memoryReadFault, v.cpu.pc, some (accessAddress v i),
    if write then some (v.cpu.get i.rs2) else none⟩
  refused : ∃ n, (if write then storeWidth i.type else loadWidth i.type) = some n ∧
    v.memory.verifyPermissions (accessAddress v i) (BitVec.ofNat 64 n) (accessFlag write) = false

theorem names_of_refused {v : VmState} (stepped : step v = .ok (false, v)) (fault : v.exit.reason.isFault = true) :
    ∃ i write, (report v).Names v i write := by
  -- a name of its own for the state behind, so that the cases can be told apart
  obtain ⟨v', same, stepped⟩ : ∃ v', v' = v ∧ step v = .ok (false, v') := ⟨v, rfl, stepped⟩
  have after := step_cases v
  rw [stepped] at after
  have exit : v'.exit = v.exit := congrArg VmState.exit same
  rw [← exit] at fault
  cases after with
  | unalignedPc | fetchFault => cases fault
  | @executed i _ fetch after =>
    cases after with
    | stopped after =>
      cases after with
      | @readFault n width refused =>
        refine ⟨i, false, fetch, ?_, n, width, ?_⟩
        · simp only [report, ← exit]
          rfl
        · rw [Memory.readT_eq _ _ _ _ (Nat.lt_of_le_of_lt (loadWidth_le width).2 (by decide))] at refused
          simpa [accessFlag] using refused
      | @writeFault n width refused =>
        refine ⟨i, true, fetch, ?_, n, width, ?_⟩
        · simp only [report, ← exit]
          rfl
        · rw [Memory.writeT_eq] at refused
          simpa [accessFlag] using refused
      | ecall | ebreak | undefined => cases fault

/-- What is printed about a refused access is true, whichever engine has come to it. -/
theorem report_names (vm : VmState) :
    (∀ final, Interpreter.Returns vm final → final.exit.reason.isFault = true →
      ∃ i write, (report final).Names final i write) ∧
    ∀ (host : Host) (build : Build) (buffer buffer' : Buffer host.arch) (v : VmState), Starts build vm buffer →
      Runs host.arch build (.lookup vm buffer) (.stopped v buffer') → v.exit.reason.isFault = true →
        ∃ i write, (report v).Names v i write := by
  refine ⟨fun final returns fault => ?_, fun host build buffer buffer' v _ run fault => ?_⟩
  · obtain ⟨u, -, stepped⟩ := returns
    exact names_of_refused (step_refused_again stepped) fault
  · rcases run.cases_tail with same | ⟨c, -, next⟩
    · cases same
    · exact names_of_refused (next.reports.2 fault) fault

/-! ### A program that loads its own code -/

namespace ForbiddenLoad

/-- `addi x1, x0, 5` in front of `lb x2, 0(x0)`, in a memory that is only executable. -/
def memory : Memory := Memory.ofImage 16 Overwrite.size_lt [0x93, 0x00, 0x50, 0x00, 0x03, 0x01, 0x00, 0x00]
  MemoryFlags.execute

def vm : VmState := ⟨memory, ⟨fun _ => 0⟩, {}⟩

def buffer : Buffer Overwrite.host.arch := CodeBuffer.create {} (2 ^ 20) Overwrite.capacity_le 16

/-- The guest at the load. -/
def added : Guest := (guestOf vm).setRegister 1 5

def refused : VmState := { added.toVm 4 {} with exit := ⟨.memoryReadFault, 0, 2⟩ }

theorem steps : Steps vm (added.toVm 4 {}) := rfl

theorem stops : step (added.toVm 4 {}) = .ok (false, refused) := rfl

theorem starts : Starts Overwrite.build vm buffer where
  genuine := genuine_create _ _ _ _ _
  zero := rfl
  layout := by
    have extent : (guestOf vm).extent = 2 * memory.permissionsOffset := rfl
    rw [extent]
    constructor <;> decide

theorem effect_lb (st : Setting) (checks : st.flags = {}) :
    effect Overwrite.host.backEnd st (0 + 4) (.ofWord 0x00000103) added
      = .depart (.exit .memoryReadFault 4) added := by
  have denied : st.accessAllowed memory 0 MemoryFlags.read 0 = false := by
    unfold Setting.accessAllowed
    rw [checks]
    decide
  rw [effect_load _ _ _ _ (by decide), if_neg (by decide)]
  exact if_neg (Bool.eq_false_iff.mp denied)

/-- The addition is made, and the load departs. -/
theorem outcome (st : Setting) (checks : st.flags = {}) (running : st.singleStep = false) :
    blockEffect Overwrite.host.backEnd st memory (blockFuel memory) 0 (guestOf vm)
      = .depart (.exit .memoryReadFault 4) added := by
  have fuel : blockFuel memory = 6 := by decide
  have first : codeAt memory 0 = some (.ofWord 0x00500093) := by decide
  have second : codeAt memory (0 + 4) = some (.ofWord 0x00000103) := by decide
  have adds : effect Overwrite.host.backEnd st 0 (.ofWord 0x00500093) (guestOf vm) = .next added := rfl
  rw [fuel]
  simp only [blockEffect, first, adds, running, second, effect_lb st checks, Bool.false_eq_true, if_false]

/-- Generated code makes the addition and hands the load back to the interpreter, which refuses it. -/
theorem stopped : ∃ (buffer' : Buffer Overwrite.host.arch) (block : CompiledBlock Overwrite.host.arch.Code)
    (s : Overwrite.host.arch.State),
    Runs Overwrite.host.arch Overwrite.build (.lookup vm buffer) (.inside {} buffer' block s) ∧
      Runs Overwrite.host.arch Overwrite.build (.inside {} buffer' block s) (.stopped refused buffer') := by
  obtain ⟨code, generated⟩ : ∃ code,
      Overwrite.host.arch.generateBlockCode {} 4 memory false 0 = .ok code := ⟨_, rfl⟩
  have start := starts.sound Overwrite.host.refines
  obtain ⟨-, buffer', s, miss, compiled, -, -, before, flags, -⟩ := start.enters (fun _ => (0 : Word))
    (show buffer.Admits 0 by decide) rfl generated (show CodeBuffer.alignedOffset 16 + 1 ≤ 2 ^ 20 by decide)
  obtain ⟨s', ran, reason, at_pc, guest⟩ := ((start.next miss).next compiled).exits (by
    rw [before]
    exact outcome (Overwrite.build.setting buffer') flags rfl)
  have handedBack : Next Overwrite.host.arch Overwrite.build (.inside {} buffer' ⟨code, 0, memory⟩ s)
      (.fallBack (added.toVm 4 {}) buffer') := by
    rw [← guest, ← at_pc]
    exact .fallsBack .memoryReadFault rfl ran reason
  exact ⟨buffer', _, s, (Relation.ReflTransGen.single miss).tail compiled,
    (Relation.ReflTransGen.single handedBack).tail (.refused stops)⟩

end ForbiddenLoad

/-- The interpreter reports the load, and so does the executor when generated code has come to it. -/
theorem report_names_lb : ∃ (buffer' : Buffer Overwrite.host.arch)
    (block : CompiledBlock Overwrite.host.arch.Code) (s : Overwrite.host.arch.State) (i j : Instruction),
    Interpreter.Returns ForbiddenLoad.vm ForbiddenLoad.refused ∧
      (report ForbiddenLoad.refused).Names ForbiddenLoad.refused i false ∧
    Runs Overwrite.host.arch Overwrite.build (.lookup ForbiddenLoad.vm ForbiddenLoad.buffer)
        (.inside {} buffer' block s) ∧
      Runs Overwrite.host.arch Overwrite.build (.inside {} buffer' block s)
        (.stopped ForbiddenLoad.refused buffer') ∧
      (report ForbiddenLoad.refused).Names ForbiddenLoad.refused j false := by
  have returns : Interpreter.Returns ForbiddenLoad.vm ForbiddenLoad.refused :=
    ⟨_, .single ForbiddenLoad.steps, ForbiddenLoad.stops⟩
  obtain ⟨buffer', block, s, entered, left⟩ := ForbiddenLoad.stopped
  have names := report_names ForbiddenLoad.vm
  obtain ⟨i, write, interpreted⟩ := names.1 ForbiddenLoad.refused returns rfl
  obtain ⟨j, write', generated⟩ := names.2 Overwrite.host Overwrite.build ForbiddenLoad.buffer buffer'
    ForbiddenLoad.refused ForbiddenLoad.starts (entered.trans left) rfl
  cases write with
  | true => cases interpreted.report
  | false =>
    cases write' with
    | true => cases generated.report
    | false => exact ⟨buffer', block, s, i, j, returns, interpreted, entered, left, generated⟩

/-- Generated code comes to the end of the interpreter, unless code generation gives up. -/
theorem StartUp.Uses.agrees {target : JitTarget} {b : Binary} {s : StartUp} {host : Host} {build : Build}
    {buffer : Buffer host.arch} {final : VmState} (uses : s.Uses build buffer)
    (started : startUp target b = .ok s) (guarded : b.Protected) (placed : b.WellPlaced)
    (entry : fetched s.vm ≠ none)
    (regular : ∀ v i, Run s.vm v → fetched v = some i → Regular host build.singleStep buffer.maxBlocks v i)
    (returns : Interpreter.Returns s.vm final) :
    Agrees host build s.vm final buffer (GivesUp host build) := by
  have comparable := uses.comparable started guarded placed entry
  obtain ⟨n, start⟩ := comparable.tracks (by rw [uses.fresh.2.1]) regular returns
  exact start.agrees comparable.unmodified

/-- Whichever engine `main` runs a file on, it comes to the same report, unless code generation gives
up. The program may do nothing the engines do differently; all else is up to the file. -/
theorem main_reports (target : JitTarget) (b : Binary) (s : StartUp) (started : startUp target b = .ok s)
    (guarded : b.Protected) (placed : b.WellPlaced) (entry : fetched s.vm ≠ none) (host : Host) (build : Build)
    (buffer : Buffer host.arch) (uses : s.Uses build buffer)
    (regular : ∀ v i, Run s.vm v → fetched v = some i → Regular host build.singleStep buffer.maxBlocks v i)
    (final : VmState) (returns : Interpreter.Returns s.vm final) :
    Acc (fun c' c => Next host.arch build c c') (.lookup s.vm buffer) ∧
      ∀ c, Runs host.arch build (.lookup s.vm buffer) c → (∃ c', Next host.arch build c c') ∨
        (∃ v buffer', c = .stopped v buffer' ∧ v.memory = final.memory ∧ (report v).Matches (report final)) ∨
          GivesUp host build c := by
  have agrees := uses.agrees started guarded placed entry regular returns
  refine ⟨agrees.terminates, fun c run => ?_⟩
  rcases agrees.returns c run with next | returned | gives
  · exact .inl next
  · cases c with
    | stopped v buffer' => exact .inr (.inl ⟨v, buffer', rfl, returned.memory, report_matches returned⟩)
    | lookup | compile | inside | fallBack => exact returned.elim
  · exact .inr (.inr gives)

/-- Both engines come to the system call behind the addition, and `main` reports it. -/
theorem main_reports_addi : ∃ (s : StartUp) (buffer buffer' : Buffer Counting.host.arch) (v final : VmState),
    startUp .x64 CountingFile.file = .ok s ∧ Interpreter.Returns s.vm final ∧ final.cpu.pc = 0x1014 ∧
      Runs Counting.host.arch (Counting.build false) (.lookup s.vm buffer) (.stopped v buffer') ∧
      v.memory = final.memory ∧ (report v).Matches (report final) := by
  obtain ⟨s, ready⟩ := CountingFile.ready
  obtain ⟨buffer, uses, flags, blocks, unpublished, next, size⟩ := ready.uses
  obtain ⟨buffer', block, state, v, -, -, entered, left⟩ := ready.enters uses flags blocks unpublished
    (by rw [next, size]; decide)
  obtain ⟨-, reports⟩ := main_reports .x64 CountingFile.file s ready.started CountingFile.guarded
    CountingFile.placed (by rw [ready.fetches]; exact Option.some_ne_none _) Counting.host (Counting.build false)
    buffer uses (fun v i run fetched => by rw [blocks]; exact ready.regular run fetched) _ ready.returns
  have run := entered.tail left
  rcases reports _ run with ⟨c, further⟩ | ⟨v', buffer'', stopped, memory, same⟩ | gives
  · cases further
  · cases stopped
    exact ⟨s, buffer, buffer', v, _, ready.started, ready.returns, ready.pc_counted, run, memory, same⟩
  · exact gives.elim

end Riscv64Emulator
