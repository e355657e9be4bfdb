import Riscv64Emulator.Elf.Image
import Riscv64Emulator.Jit.CodeDump

/-!
# The start of the program

`main.cpp` up to the run of the guest: the image is loaded, the memory below it is opened for
the stack, and the code buffer and the registers are set up.
-/
namespace Riscv64Emulator

open ElfLoader Jit

/-- `32 * 1024 * 1024`. -/
def memorySize : Word := 0x2000000

def stackPermissions : MemoryFlags := MemoryFlags.read ||| MemoryFlags.write

/-- The call of `set_permissions`, whose result is not looked at. -/
def grantStack (image : Image) (memory : Memory) : Memory :=
  (memory.setPermissions 0x10 image.base stackPermissions).getD memory

/-- What `main` runs the guest with. -/
structure StartUp where
  image : Image
  memory : Memory
  codeBuffer : DumpedBuffer
  cpu : Cpu

/-- `main`, for the contents of the file it is given. -/
def startUp (target : JitTarget) (file : Binary) : Except Abort StartUp := do
  let (image, memory) ← load file (Memory.create memorySize (by decide))
  let memory := grantStack image memory
  let codeBuffer := DumpedBuffer.create {} 0x1000000 (by decide) image.maxExecutableAddress
  let codeBuffer ← codeBuffer.dumpCodeToFile target
  let cpu : Cpu := ⟨fun _ => 0⟩
  let cpu := cpu.set Register.sp image.stackPointer
  let cpu := cpu.set Register.pc image.entrypoint
  return ⟨image, memory, codeBuffer, cpu⟩

/-- The guest starts at the entry point, with the stack below the image it was loaded from, and the
JIT runs nothing behind the image. -/
theorem startUp_cases {target : JitTarget} {file : Binary} {s : StartUp} (started : startUp target file = .ok s) :
    ∃ memory, load file (Memory.create memorySize (by decide)) = .ok (s.image, memory) ∧
      s.memory = grantStack s.image memory ∧ s.codeBuffer.Reached ∧
      s.codeBuffer.buffer.maxBlocks = (s.image.maxExecutableAddress + 4 - 1) / 4 ∧
      s.cpu.get Register.zero = 0 ∧ s.cpu.get Register.sp = s.image.stackPointer ∧
      s.cpu.pc = s.image.entrypoint := by
  unfold startUp at started
  cases loaded : load file (Memory.create memorySize (by decide)) with
  | error e =>
    simp only [loaded, bind, Except.bind] at started
    cases started
  | ok result =>
    obtain ⟨image, memory⟩ := result
    let new := DumpedBuffer.create {} 0x1000000 (by decide) image.maxExecutableAddress
    cases enabled : new.dumpCodeToFile target with
    | error e =>
      simp only [loaded, enabled, new, bind, Except.bind] at started
      cases started
    | ok codeBuffer =>
      simp only [loaded, enabled, new, bind, Except.bind, pure, Except.pure, Except.ok.injEq] at started
      -- both calls have returned, and nothing behind them can fail
      subst started
      have reached : codeBuffer.Reached := .dumpCodeToFile (.create _ _ _ _) enabled
      obtain ⟨architecture, -, same⟩ := DumpedBuffer.dumpCodeToFile_cases enabled
      exact ⟨memory, rfl, rfl, reached, by rw [same]; rfl, rfl, rfl, rfl⟩

namespace Binary

/-- Every segment has the permissions it asks for, and below the image there is a stack. -/
structure KeepsPermissions (b : Binary) (image : Image) (memory : Memory) : Prop where
  segments : ∀ ph, b.Loads ph → ∀ j, ph.Covers j → memory.permissions j = ph.permissions
  stack : ∀ j, 0x10 ≤ j → j < image.base.toNat →
    memory.permissions j &&& stackPermissions = stackPermissions

/-- Segments agree about the bytes they share, the first 16 bytes behind the base are asked for with
the permissions of the stack if they are loaded at all, and the base lies in the memory. -/
structure Compatible (b : Binary) : Prop where
  shared : ∀ ph, b.Loads ph → ∀ ph', b.Loads ph' → ∀ j, ph.Covers j → ph'.Covers j →
    ph.permissions = ph'.permissions
  start : ∀ first, b.firstLoadable = some first → ∀ ph, b.Loads ph → ∀ j, ph.Covers j →
    j < first.memoryAddress.toNat + 0x10 → ph.permissions = stackPermissions
  room : ∀ first, b.firstLoadable = some first →
    first.memoryAddress.toNat + 0x10 ≤ memorySize.toNat

section Permissions

variable {b : Binary} {memory : Memory} {image : Image} {n j : Nat}

/-- The permissions behind some headers are those of a segment that covers the byte, or the old
ones if there is none. -/
theorem permissions_stateBefore (small : memory.size.toNat < 2 ^ 63)
    (passes : ∀ i < n, b.HeaderPasses memory i) (j : Nat) :
    ((∀ i < n, ∀ ph, b.programHeader i = some ph → ¬ph.Covers j) ∧
      (b.stateBefore memory n).memory.permissions j = memory.permissions j) ∨
    ∃ i < n, ∃ ph, b.programHeader i = some ph ∧ ph.Covers j ∧
      (b.stateBefore memory n).memory.permissions j = ph.permissions := by
  induction n with
  | zero => exact .inl ⟨fun i below => absurd below (Nat.not_lt_zero i), rfl⟩
  | succ n ih =>
    have before := ih fun i below => passes i (by omega)
    cases header : b.programHeader n with
    | none =>
      rw [stateBefore_succ_of_none header]
      rcases before with ⟨uncovered, old⟩ | ⟨i, below, found⟩
      · refine .inl ⟨fun i below ph same => ?_, old⟩
        rcases Nat.lt_succ_iff_lt_or_eq.mp below with inside | rfl
        · exact uncovered i inside ph same
        · rw [header] at same
          cases same
      · exact .inr ⟨i, by omega, found⟩
    | some ph =>
      have passed := (passes n (by omega)).2 ph header
      have size := stateBefore_size b memory n
      have inside : 0 < ph.dataSize.toNat → ph.memoryAddress.toNat + ph.dataSize.toNat
          ≤ (b.stateBefore memory n).memory.size.toNat := fun positive => by
        -- the address passed the range test and the file is short, so the sum does not wrap
        have range := passed.copy positive
        have file := passed.file
        have bound := b.length_lt
        unfold length at file
        have address : ph.memoryAddress.toNat ≤ memory.size.toNat := by
          unfold Memory.outOfRange at range
          rw [Bool.or_eq_false_iff, decide_eq_false_iff_not, BitVec.lt_def] at range
          omega
        rw [size]
        exact (Memory.outOfRange_eq_false (by omega)).mp range
      have next := next_permissions (j := j) (b.stateBefore memory n) b ph inside
      rw [stateBefore_succ_of_some header]
      by_cases covers : ph.Covers j
      · rw [if_pos covers] at next
        exact .inr ⟨n, by omega, ph, header, covers, next⟩
      · rw [if_neg covers] at next
        rcases before with ⟨uncovered, old⟩ | ⟨i, below, ph', same, covers', found⟩
        · refine .inl ⟨fun i below ph' same => ?_, next.trans old⟩
          rcases Nat.lt_succ_iff_lt_or_eq.mp below with inside | rfl
          · exact uncovered i inside ph' same
          · rw [header] at same
            cases same
            exact covers
        · exact .inr ⟨i, by omega, ph', same, covers', next.trans found⟩

/-- What the call for the stack does to the permissions. -/
theorem permissions_grantStack (image : Image) (memory : Memory) (aligned : image.base.toNat % 4096 = 0)
    (j : Nat) : (grantStack image memory).permissions j =
      if image.base.toNat + 0x10 ≤ memory.size.toNat ∧ 0x10 ≤ j ∧ j < image.base.toNat + 0x10 then
        stackPermissions
      else memory.permissions j := by
  have base := image.base.isLt
  have start : (0x10 : Word).toNat = 16 := rfl
  have range : memory.outOfRange 0x10 image.base = false ↔ image.base.toNat + 0x10 ≤ memory.size.toNat := by
    rw [Memory.outOfRange_eq_false (by omega), start, Nat.add_comm]
  unfold grantStack Memory.setPermissions
  by_cases inside : image.base.toNat + 0x10 ≤ memory.size.toNat
  · -- the call is made: from address 16 on, as many bytes as the base says
    rw [range.mpr inside]
    show overwrite memory.allocation (memory.permissionsOffset + 16)
      (List.replicate image.base.toNat stackPermissions) (memory.permissionsOffset + j) = _
    rw [overwrite_replicate]
    refine if_congr ?_ rfl rfl
    omega
  · -- the call is refused, and nobody looks
    have refused : memory.outOfRange 0x10 image.base = true := by
      rw [← Bool.not_eq_false, range]
      exact inside
    rw [refused]
    exact (if_neg fun all => inside all.1).symm

/-- Without a segment the base is zero. -/
theorem image_base_of_unloaded (accepted : b.Accepted memory) (none : b.firstLoadable = none) :
    (b.image memory).base = 0 := by
  rcases baseBefore_cases accepted.2 with ⟨-, base⟩ | ⟨first, found, -⟩
  · exact base
  · cases none.symm.trans found

theorem image_aligned (accepted : b.Accepted memory) : (b.image memory).base.toNat % 4096 = 0 := by
  cases found : b.firstLoadable with
  | none =>
    rw [image_base_of_unloaded accepted found]
    rfl
  | some first =>
    obtain ⟨base, -, aligned⟩ := image_base accepted found
    rw [base]
    exact aligned

/-- The permissions that an accepted file ends up with, in a memory of the size of `main`'s. -/
theorem permissions_granted (accepted : b.Accepted memory) (size : memory.size = memorySize) (j : Nat) :
    (grantStack (b.image memory) (b.stateBefore memory b.pheCount).memory).permissions j =
      if (b.image memory).base.toNat + 0x10 ≤ memorySize.toNat ∧ 0x10 ≤ j ∧
          j < (b.image memory).base.toNat + 0x10 then stackPermissions
      else (b.stateBefore memory b.pheCount).memory.permissions j := by
  rw [permissions_grantStack _ _ (image_aligned accepted), stateBefore_size, size]

theorem compatible_of_keeps (accepted : b.Accepted memory) (size : memory.size = memorySize)
    (blank : ∀ j, memory.permissions j = 0)
    (above : ∀ ph, b.Loads ph → ∀ j, ph.Covers j → (b.image memory).base.toNat ≤ j)
    (keeps : b.KeepsPermissions (b.image memory)
      (grantStack (b.image memory) (b.stateBefore memory b.pheCount).memory)) : b.Compatible := by
  -- the stack is granted at all, because nothing else grants the byte `0x10`
  have room (first : ProgramHeader) (found : b.firstLoadable = some first) :
      first.memoryAddress.toNat + 0x10 ≤ memorySize.toNat := by
    obtain ⟨base, page, -⟩ := image_base accepted found
    by_contra outside
    have stack := keeps.stack 0x10 (Nat.le_refl _) (by rw [base]; omega)
    rw [permissions_granted accepted size, if_neg (by rw [base]; exact fun all => outside all.1)] at stack
    rcases permissions_stateBefore (by rw [size]; decide) accepted.2 0x10 with
      ⟨-, old⟩ | ⟨i, counted, ph, header, covers, -⟩
    · rw [old, blank] at stack
      exact absurd stack (by decide)
    · have low := above ph ⟨i, counted, header⟩ 0x10 covers
      rw [base] at low
      omega
  refine ⟨fun ph loads ph' loads' j covers covers' => ?_, fun first found ph loads j covers near => ?_, room⟩
  · exact (keeps.segments ph loads j covers).symm.trans (keeps.segments ph' loads' j covers')
  · obtain ⟨base, page, -⟩ := image_base accepted found
    have low := above ph loads j covers
    have segment := keeps.segments ph loads j covers
    rw [base] at low
    rw [permissions_granted accepted size,
      if_pos (by rw [base]; exact ⟨room first found, by omega, near⟩)] at segment
    exact segment.symm

theorem keeps_of_compatible (accepted : b.Accepted memory) (size : memory.size = memorySize)
    (above : ∀ ph, b.Loads ph → ∀ j, ph.Covers j → (b.image memory).base.toNat ≤ j)
    (compatible : b.Compatible) : b.KeepsPermissions (b.image memory)
      (grantStack (b.image memory) (b.stateBefore memory b.pheCount).memory) := by
  refine ⟨fun ph loads j covers => ?_, fun j low below => ?_⟩
  · obtain ⟨first, found⟩ := exists_firstLoadable loads
    obtain ⟨base, page, -⟩ := image_base accepted found
    have low := above ph loads j covers
    rw [base] at low
    rw [permissions_granted accepted size, base]
    by_cases near : j < first.memoryAddress.toNat + 0x10
    · rw [if_pos ⟨compatible.room first found, by omega, near⟩]
      exact (compatible.start first found ph loads j covers near).symm
    · rw [if_neg fun all => near all.2.2]
      -- the last segment that covers the byte agrees with the others
      rcases permissions_stateBefore (by rw [size]; decide) accepted.2 j with
        ⟨uncovered, -⟩ | ⟨i, counted, ph', header, covers', last⟩
      · obtain ⟨i, counted, header⟩ := loads
        exact absurd covers (uncovered i counted ph header)
      · rw [last]
        exact compatible.shared ph' ⟨i, counted, header⟩ ph loads j covers' covers
  · have inside : (b.image memory).base.toNat + 0x10 ≤ memorySize.toNat := by
      cases found : b.firstLoadable with
      | some first =>
        rw [(image_base accepted found).1]
        exact compatible.room first found
      | none =>
        rw [image_base_of_unloaded accepted found] at below
        exact absurd below (Nat.not_lt_zero _)
    rw [permissions_granted accepted size, if_pos ⟨inside, low, by omega⟩]
    exact BitVec.and_self

/-- The image keeps its permissions exactly if it is compatible with what is done for the stack. -/
theorem grantStack_keeps_iff (b : Binary) (image : Image) (memory : Memory)
    (loaded : load b (Memory.create memorySize (by decide)) = .ok (image, memory))
    (above : ∀ ph, b.Loads ph → ∀ j, ph.Covers j → image.base.toNat ≤ j) :
    b.KeepsPermissions image (grantStack image memory) ↔ b.Compatible := by
  obtain ⟨accepted, same⟩ := accepted_of_load loaded
  cases same
  exact ⟨compatible_of_keeps accepted rfl (fun _ => rfl) above, keeps_of_compatible accepted rfl above⟩

/-- The file with one segment, which may be written instead of run. -/
def writable : Binary where
  bytes := oneSegment.bytes.set 0x44 6
  length_lt := by
    rw [List.length_set]
    exact oneSegment.length_lt

set_option maxRecDepth 4096 in
theorem grantStack_keeps_iff_writable : ∃ (image : Image) (memory : Memory),
    load writable (Memory.create memorySize (by decide)) = .ok (image, memory) ∧
      writable.KeepsPermissions image (grantStack image memory) := by
  have only : ∀ ph, writable.Loads ph → ph = ⟨6, 0x78, 0x1000, 4, 8⟩ := loads_alone (by decide) rfl
  obtain ⟨memory, loaded⟩ : ∃ memory, load writable (Memory.create memorySize (by decide))
      = .ok (⟨0x1000, 0x1000, 0x1000⟩, memory) := ⟨_, rfl⟩
  refine ⟨_, memory, loaded, (grantStack_keeps_iff _ _ _ loaded fun ph loads j covers => ?_).mpr
    ⟨fun ph loads ph' loads' _ _ _ => ?_, fun first _ ph loads _ _ _ => ?_, fun first found => ?_⟩⟩
  · rw [only ph loads] at covers
    exact covers.1
  · rw [only ph loads, only ph' loads']
  · rw [only ph loads]
    decide
  · rw [only first (loads_of_firstLoadable found)]
    decide

set_option maxRecDepth 4096 in
/-- Code at the start of the image may not be run any more. -/
theorem grantStack_oneSegment : ¬∀ (b : Binary) (image : Image) (memory : Memory),
    load b (Memory.create memorySize (by decide)) = .ok (image, memory) →
      (∀ ph, b.Loads ph → ∀ j, ph.Covers j → image.base.toNat ≤ j) →
        b.KeepsPermissions image (grantStack image memory) := fun claim => by
  have header : oneSegment.programHeader 0 = some ⟨5, 0x78, 0x1000, 4, 8⟩ := by rfl
  obtain ⟨memory, loaded⟩ : ∃ memory, load oneSegment (Memory.create memorySize (by decide))
      = .ok (⟨0x1000, 0x1000, 0x1000⟩, memory) := ⟨_, rfl⟩
  have keeps := claim _ _ _ loaded fun ph loads j covers => by
    rw [loads_alone (by decide) header ph loads] at covers
    exact covers.1
  have code := keeps.segments _ ⟨0, by decide, header⟩ 0x1000 (by decide)
  obtain ⟨-, same⟩ := accepted_of_load loaded
  have size : memory.size = memorySize := by
    rw [(Prod.mk.inj same).2]
    exact stateBefore_size _ _ _
  rw [permissions_grantStack _ _ (by decide), size, if_pos (by decide)] at code
  exact absurd code (by decide)

end Permissions

end Binary

end Riscv64Emulator
