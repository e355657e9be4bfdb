import Riscv64Emulator.Lib.Interference
import Riscv64Emulator.Jit.Equivalence
import Riscv64Emulator.Jit.Isolation

/-!
# Several `Vm`s with one code buffer

`Vm::use_jit` takes a `std::shared_ptr`, so that several `Vm`s, each in a thread of its own, can run
the code any of them has compiled. Their steps interleave in any order. A lookup, an insertion and
the code of a block are one step each: the insertion has the mutex, and the code of a block
loads from the table once, where it leaves.
-/
namespace Riscv64Emulator.Jit

open Interference (System)
open Interpreter (Run step)

/-! ### Places without the buffer -/

/-- A place of a run of `Vm::run`. -/
inductive Place (arch : Arch) where
  | lookup (vm : VmState)
  | compile (vm : VmState)
  | inside (exit : Exit) (block : CompiledBlock arch.Code) (s : arch.State)
  | fallBack (vm : VmState)
  | stopped (vm : VmState)

section Places

variable {arch : Arch}

def Place.config (place : Place arch) (buffer : Buffer arch) : Config arch :=
  match place with
  | .lookup vm => .lookup vm buffer
  | .compile vm => .compile vm buffer
  | .inside exit block s => .inside exit buffer block s
  | .fallBack vm => .fallBack vm buffer
  | .stopped vm => .stopped vm buffer

def Config.place : Config arch → Place arch
  | .lookup vm _ => .lookup vm
  | .compile vm _ => .compile vm
  | .inside exit _ block s => .inside exit block s
  | .fallBack vm _ => .fallBack vm
  | .stopped vm _ => .stopped vm

@[simp] theorem Config.config_place (c : Config arch) : c.place.config c.buffer = c := by
  cases c <;> rfl

@[simp] theorem Place.buffer_config (place : Place arch) (buffer : Buffer arch) :
    (place.config buffer).buffer = buffer := by
  cases place <;> rfl

theorem Place.rank_config (place : Place arch) (buffer buffer' : Buffer arch) :
    (place.config buffer').rank = (place.config buffer).rank := by
  cases place <;> rfl

theorem Place.guest_config (place : Place arch) (buffer buffer' : Buffer arch) :
    (place.config buffer').guest = (place.config buffer).guest := by
  cases place <;> rfl

end Places

/-! ### What the others do to the buffer -/

section Grown

variable {arch : Arch} {build : Build} {size : Word} {singleStep : Bool} {buffer buffer' : Buffer arch}

/-- The buffer behind an insertion. -/
structure Grown (singleStep : Bool) (size : Word) (buffer buffer' : Buffer arch) : Prop where
  flags : buffer'.flags = buffer.flags
  maxBlocks : buffer'.maxBlocks = buffer.maxBlocks
  genuine : GenuineBuffer singleStep size buffer'

theorem Grown.admits {pc : Word} (grown : Grown singleStep size buffer buffer') (admits : buffer.Admits pc) :
    buffer'.Admits pc := by
  unfold CodeBuffer.Admits
  rwa [grown.maxBlocks]

/-- A step of the run loop inserts a block for its guest, if anything. -/
theorem Next.inserts {c c' : Config arch} (next : Next arch build c c') : c'.buffer = c.buffer ∨
    ∃ vm code offset, c = .compile vm c.buffer ∧
      arch.generateBlockCode c.buffer.flags c.buffer.maxBlocks vm.memory build.singleStep vm.cpu.pc = .ok code ∧
      c.buffer.insert vm.cpu.pc (arch.codeSize code) (.block ⟨code, vm.cpu.pc, vm.memory⟩)
        = .ok (offset, c'.buffer) := by
  cases next with
  | compiled leftover generated inserted here => exact .inr ⟨_, _, _, rfl, generated, inserted⟩
  | _ => exact .inl rfl

theorem Sound.grown {be : BackEnd} {refines : arch.Refines be} {c c' : Config arch}
    (sound : Sound refines build size c) (genuine : GenuineBuffer build.singleStep size c.buffer)
    (next : Next arch build c c') : Grown build.singleStep size c.buffer c'.buffer := by
  rcases next.inserts with same | ⟨vm, code, offset, here, generated, inserted⟩
  · rw [same]
    exact ⟨rfl, rfl, genuine⟩
  · rw [here] at sound
    obtain ⟨genuine', maxBlocks, flags, -⟩ := genuine.insert generated sound.2.size inserted
    exact ⟨flags, maxBlocks, genuine'⟩

end Grown

section Stable

variable {host : Host} {build : Build} {vm vm' final : VmState} {n : Nat} {size : Word}
  {buffer buffer' : Buffer host.arch}

/-- Generated code keeps no entry of the table in a register. -/
theorem anchored_grown {s : host.arch.State} (grown : Grown build.singleStep size buffer buffer')
    (anchored : host.refines.anchored (build.setting buffer) size (build.env buffer) s) :
    host.refines.anchored (build.setting buffer') size (build.env buffer') s := by
  obtain ⟨-, maxBlocks, -⟩ := grown
  cases host with
  | x64 codeSize codeSize_pos =>
    obtain ⟨serves, registerState, memoryBase, permissionsBase, codeBase, blockBase⟩ := anchored
    exact ⟨Build.Serves.transfer serves maxBlocks, registerState, memoryBase, permissionsBase, codeBase,
      blockBase⟩
  | aarch64 platform codeSize codeSize_pos =>
    obtain ⟨serves, registerState, memoryBase, permissionsBase, memorySize, blockBase, limit, codeBase⟩ :=
      anchored
    refine ⟨Build.Serves.transfer serves maxBlocks, registerState, memoryBase, permissionsBase, memorySize,
      blockBase, ?_, codeBase⟩
    rw [limit]
    exact congrArg (· * 4) maxBlocks.symm

/-- A place stays sound when the buffer grows. -/
theorem Grown.sound {place : Place host.arch} (grown : Grown build.singleStep size buffer buffer')
    (sound : Sound host.refines build size (place.config buffer)) :
    Sound host.refines build size (place.config buffer') := by
  cases place with
  | lookup v | compile v | fallBack v => exact ⟨grown.genuine, sound.2.transfer grown.maxBlocks⟩
  | inside exit block s =>
    obtain ⟨-, anchored, compiled⟩ := sound
    exact ⟨grown.genuine, anchored_grown grown anchored, compiled.transfer grown.flags grown.maxBlocks⟩
  | stopped v => trivial

/-- So it does next to the interpreter's run, if the new code is the program's. -/
theorem Grown.tracks {place : Place host.arch} (grown : Grown build.singleStep vm.memory.size buffer buffer')
    (current : Current vm buffer → Current vm buffer')
    (tracks : Tracks host build vm final n (place.config buffer)) :
    Tracks host build vm final n (place.config buffer') := by
  obtain ⟨sound, same, before, beside⟩ := tracks
  rw [Place.buffer_config] at same before
  -- only the table is different, and it has the same limit
  refine ⟨grown.sound sound, ?_, ?_, ?_⟩
  · rw [Place.buffer_config]
    exact same.transfer grown.flags grown.maxBlocks rfl
  · rw [Place.buffer_config]
    exact current before
  · cases place with
    | lookup v =>
      cases beside with
      | lookup run ends table => exact .lookup run ends (grown.admits table)
    | compile v =>
      cases beside with
      | compile run ends table => exact .compile run ends (grown.admits table)
    | inside exit block s =>
      cases beside with
      | inside run ends aligned mirrors here holds => exact .inside run ends aligned mirrors here holds
    | fallBack v =>
      cases beside with
      | fallBack run ends table => exact .fallBack run ends fun v' steps => grown.admits (table v' steps)
    | stopped v =>
      cases beside with
      | stopped same => exact .stopped same

/-- What one program inserts can be run by another one that has its code. -/
theorem Tracks.current_next {c c' : Config host.arch} (tracks : Tracks host build vm final n c)
    (genuine : GenuineBuffer build.singleStep size c.buffer) (shared : ∀ v, Run vm v → HoldsCode vm' v.memory)
    (next : Next host.arch build c c') (current : Current vm' c.buffer) : Current vm' c'.buffer := by
  rcases next.inserts with same | ⟨v, code, offset, here, -, inserted⟩
  · rwa [same]
  · have beside := tracks.beside
    rw [here] at beside
    cases beside with
    | compile run ends table => exact (current.insert genuine (shared v run) inserted).1

end Stable

/-! ### All `Vm`s -/

section Machines

variable {Thread : Type} (host : Host) (layouts : Thread → Layout) (singleStep : Bool)

/-- A step of a thread. -/
def acts (t : Thread) (before after : Place host.arch × Buffer host.arch) : Prop :=
  Next host.arch ⟨layouts t, singleStep⟩ (before.1.config before.2) (after.1.config after.2)

/-- The threads in front of their first lookup. -/
def started (vm : Thread → VmState) (buffer : Buffer host.arch) :
    System Thread (Place host.arch) (Buffer host.arch) :=
  ⟨fun t => .lookup (vm t), buffer⟩

/-- What the threads can come to. -/
def Interleaves [DecidableEq Thread] (vm : Thread → VmState) (buffer : Buffer host.arch) :
    System Thread (Place host.arch) (Buffer host.arch) → Prop :=
  Relation.ReflTransGen (Interference.Steps (acts host layouts singleStep)) (started host vm buffer)

variable {host layouts singleStep} {vm : Thread → VmState} {buffer : Buffer host.arch}

/-! ### Any programs -/

/-- What a thread keeps, whatever the others run. -/
structure KeepsApart (host : Host) (layouts : Thread → Layout) (singleStep : Bool) (vm : Thread → VmState)
    (initial : CodeBufferFlags) (t : Thread) (place : Place host.arch) (buffer : Buffer host.arch) : Prop where
  genuine : GenuineBuffer singleStep (vm t).memory.size buffer
  flags : buffer.flags = initial
  sound : Sound host.refines ⟨layouts t, singleStep⟩ (vm t).memory.size (place.config buffer)
  zero : (place.config buffer).guest.registers.get Register.zero = 0
  memory : Memory.Undisturbed (initial.skipPermissionChecks = false) (vm t).memory
    (place.config buffer).guest.memory
  reported : ∀ v, place = .stopped v →
    v.exit.reason ≠ .none ∧ (v.exit.reason.isFault = true → step v = .ok (false, v))

section Apart

variable {initial : CodeBufferFlags} {t : Thread} {place place' : Place host.arch} {b b' : Buffer host.arch}

theorem KeepsApart.next (keeps : KeepsApart host layouts singleStep vm initial t place b)
    (moderate : (vm t).memory.size.toNat ≤ 2 ^ 63)
    (next : Next host.arch ⟨layouts t, singleStep⟩ (place.config b) (place'.config b')) :
    KeepsApart host layouts singleStep vm initial t place' b' := by
  obtain ⟨genuine, rfl, sound, zero, memory, reported⟩ := keeps
  have grown := sound.grown (by rwa [Place.buffer_config]) next
  have small : (place.config b).guest.memory.size.toNat ≤ 2 ^ 63 := by
    rw [memory.size]
    exact moderate
  obtain ⟨flags, disturbed⟩ := next.undisturbed sound small
  rw [Place.buffer_config, Place.buffer_config] at grown flags
  rw [Place.buffer_config] at disturbed
  refine ⟨grown.genuine, flags, sound.next next, next.zero sound, memory.trans disturbed, ?_⟩
  rintro v rfl
  exact next.reports

theorem KeepsApart.grown (keeps : KeepsApart host layouts singleStep vm initial t place b)
    (grown : Grown singleStep (vm t).memory.size b b') :
    KeepsApart host layouts singleStep vm initial t place b' := by
  obtain ⟨-, flags, sound, zero, memory, reported⟩ := keeps
  rw [place.guest_config b' b] at zero memory
  exact ⟨grown.genuine, grown.flags.trans flags, grown.sound sound, zero, memory, reported⟩

theorem Starts.keepsApart (starts : Starts ⟨layouts t, singleStep⟩ (vm t) b) :
    KeepsApart host layouts singleStep vm b.flags t (.lookup (vm t)) b where
  genuine := starts.genuine
  flags := rfl
  sound := starts.sound host.refines
  zero := starts.zero
  memory := .refl _ _
  reported v same := by cases same

theorem KeepsApart.isolated (keeps : KeepsApart host layouts singleStep vm initial t place b) :
    Isolated host ⟨layouts t, singleStep⟩ (vm t) (initial.skipPermissionChecks = false) (place.config b) := by
  obtain ⟨-, -, sound, zero, memory, reported⟩ := keeps
  refine ⟨zero, memory, ?_, ?_⟩
  · intro exit buffer block state here
    rw [here] at sound
    exact sound.confined
  · intro v buffer here
    refine reported v ?_
    cases place <;> cases here
    rfl

end Apart

/-- Blocks of another program are as confined as its own. -/
theorem keepsApart_cooperates (initial : CodeBufferFlags)
    (sized : ∀ t t', (vm t').memory.size = (vm t).memory.size)
    (moderate : ∀ t, (vm t).memory.size.toNat ≤ 2 ^ 63) :
    Interference.Cooperates (fun _ _ => True) (acts host layouts singleStep)
      (fun t (_ : Unit) => KeepsApart host layouts singleStep vm initial t)
      fun t => Grown singleStep (vm t).memory.size where
  advances keeps next := ⟨(), trivial, keeps.next (moderate _) next⟩
  guarantees := by
    rintro t t' - place b place' b' ⟨genuine, -, sound, -⟩ next -
    have grown := sound.grown (by rwa [Place.buffer_config]) next
    rw [Place.buffer_config, Place.buffer_config] at grown
    rwa [sized t t']
  stable keeps grown := keeps.grown grown

/-- `Vm`s that share a buffer keep to their own guests, also where they run the code that was compiled for
another program: each of them is as isolated as if it had the buffer for itself. -/
theorem shared_isolated [DecidableEq Thread] (starts : ∀ t, Starts ⟨layouts t, singleStep⟩ (vm t) buffer)
    (sized : ∀ t t', (vm t').memory.size = (vm t).memory.size)
    {s : System Thread (Place host.arch) (Buffer host.arch)}
    (run : Interleaves host layouts singleStep vm buffer s) (t : Thread) :
    Isolated host ⟨layouts t, singleStep⟩ (vm t) (buffer.flags.skipPermissionChecks = false)
      ((s.own t).config s.shared) := by
  have start (t : Thread) : KeepsApart host layouts singleStep vm buffer.flags t (.lookup (vm t)) buffer :=
    (starts t).keepsApart
  obtain ⟨-, keeps⟩ := (keepsApart_cooperates buffer.flags sized fun t => (starts t).moderate).run
    (m := fun _ => ()) start run
  exact (keeps t).isolated

end Machines

namespace TwoVms

/-- The registers and memories of two threads, and one buffer. -/
def layouts : Bool → Layout
  | false => ⟨0x1000, 0x1000000000000, 0x1000000, 0x4000000000000⟩
  | true => ⟨0x2000, 0x2000000000000, 0x1000000, 0x4000000000000⟩

theorem starts {arch : Arch} {vm : VmState} {buffer : Buffer arch} (genuine : GenuineBuffer false 16 buffer)
    (sized : vm.memory.size = 16) (zero : vm.cpu.get Register.zero = 0) (limit : buffer.maxBlocks.toNat ≤ 8)
    (t : Bool) : Starts ⟨layouts t, false⟩ vm buffer := by
  refine ⟨sized.symm ▸ genuine, zero, ?_⟩
  have extent : (guestOf vm).extent = 32 := by
    unfold Guest.extent Memory.permissionsOffset guestOf
    rw [sized]
    rfl
  rw [extent]
  cases t <;> constructor <;> simp [layouts, registersExtent] <;> omega

/-- One program makes a system call, the other one adds first. -/
def vm : Bool → VmState
  | false => SystemCall.vm
  | true => Counting.vm

/-- The block of the first one in the buffer. -/
theorem exists_inserted (block : CompiledBlock Overwrite.host.arch.Code) :
    ∃ buffer' : Buffer Overwrite.host.arch,
      (SystemCall.buffer : Buffer Overwrite.host.arch).insert 0 1 (.block block) = .ok (16, buffer') ∧
      buffer'.written 16 = some (.block block) ∧ buffer'.get 0 = .ok (some 16) := ⟨_, rfl, rfl, rfl⟩

end TwoVms

/-- A thread in a block that was compiled for the other one. -/
theorem shared_isolated_foreign :
    ∃ (s : System Bool (Place Overwrite.host.arch) (Buffer Overwrite.host.arch)) (exit : Exit)
      (block : CompiledBlock Overwrite.host.arch.Code) (state : Overwrite.host.arch.State),
      s.own true = .inside exit block state ∧ block.memory = SystemCall.memory ∧
      Isolated Overwrite.host ⟨TwoVms.layouts true, false⟩ Counting.vm
        ((SystemCall.buffer : Buffer Overwrite.host.arch).flags.skipPermissionChecks = false)
        ((s.own true).config s.shared) := by
  let arch := Overwrite.host.arch
  let buffer : Buffer arch := SystemCall.buffer
  obtain ⟨code, generated⟩ : ∃ code, arch.generateBlockCode {} 4 SystemCall.memory false 0 = .ok code :=
    ⟨_, rfl⟩
  let block : CompiledBlock arch.Code := ⟨code, 0, SystemCall.memory⟩
  obtain ⟨buffer', inserted, here, found⟩ := TwoVms.exists_inserted block
  let leftover : arch.Leftover := fun _ => (0 : Word)
  let inside (t : Bool) : Place arch :=
    .inside {} block (arch.enter (Build.env ⟨TwoVms.layouts t, false⟩ buffer') (guestOf (TwoVms.vm t)) leftover)
  -- the first thread misses and compiles, the second one hits
  let s₀ := started Overwrite.host TwoVms.vm buffer
  let s₁ : System Bool (Place arch) (Buffer arch) :=
    ⟨Function.update s₀.own false (.compile SystemCall.vm), buffer⟩
  let s₂ : System Bool (Place arch) (Buffer arch) := ⟨Function.update s₁.own false (inside false), buffer'⟩
  let s₃ : System Bool (Place arch) (Buffer arch) := ⟨Function.update s₂.own true (inside true), buffer'⟩
  have misses : Interference.Step (acts Overwrite.host TwoVms.layouts false) false s₀ s₁ :=
    .intro (show Next arch _ (.lookup SystemCall.vm buffer) (.compile SystemCall.vm buffer) from
      .miss (CodeBuffer.get_of_admits ⟨rfl, SystemCall.inside⟩))
  have compiles : Interference.Step (acts Overwrite.host TwoVms.layouts false) false s₁ s₂ :=
    .intro (show Next arch _ (.compile SystemCall.vm buffer) ((inside false).config buffer') from
      .compiled leftover generated inserted here)
  have hits : Interference.Step (acts Overwrite.host TwoVms.layouts false) true s₂ s₃ :=
    .intro (show Next arch _ (.lookup Counting.vm buffer') ((inside true).config buffer') from
      .hit leftover found here)
  have run : Interleaves Overwrite.host TwoVms.layouts false TwoVms.vm buffer s₃ :=
    ((Relation.ReflTransGen.single ⟨_, misses⟩).tail ⟨_, compiles⟩).tail ⟨_, hits⟩
  have sized (t : Bool) : (TwoVms.vm t).memory.size = 16 := by cases t <;> rfl
  have starts (t : Bool) : Starts ⟨TwoVms.layouts t, false⟩ (TwoVms.vm t) buffer :=
    TwoVms.starts (genuine_create _ _ _ _ _) (sized t) (by cases t <;> rfl) (by decide) t
  exact ⟨s₃, _, block, _, rfl, rfl,
    shared_isolated starts (fun t t' => (sized t').trans (sized t).symm) run true⟩

/-! ### One program -/

section Machines

variable {Thread : Type} {host : Host} {layouts : Thread → Layout} {singleStep : Bool}
  {vm final : Thread → VmState} {buffer : Buffer host.arch}

/-- What several `Vm`s with one buffer are compared with the interpreter on: each of them can be, their
memories have one size, and where one of them fetches the others have the same code at any time. -/
structure Shares (host : Host) (layouts : Thread → Layout) (singleStep : Bool) (vm : Thread → VmState)
    (buffer : Buffer host.arch) : Prop where
  comparable : ∀ t, Comparable host ⟨layouts t, singleStep⟩ (vm t) buffer
  sized : ∀ t t', (vm t').memory.size = (vm t).memory.size
  code : ∀ t t' v, Run (vm t') v → HoldsCode (vm t) v.memory

/-- A thread next to its interpreter's run, with what is left of it and of the step. -/
def Keeps (host : Host) (layouts : Thread → Layout) (singleStep : Bool) (vm final : Thread → VmState) (t : Thread)
    (left : ℕ ×ₗ ℕ) (place : Place host.arch) (buffer : Buffer host.arch) : Prop :=
  ∃ n, left = toLex (n, (place.config buffer).rank) ∧ GenuineBuffer singleStep (vm t).memory.size buffer ∧
    Tracks host ⟨layouts t, singleStep⟩ (vm t) (final t) n (place.config buffer)

/-- What one thread inserts, every other one can run. -/
theorem Shares.cooperates (shares : Shares host layouts singleStep vm buffer) (final : Thread → VmState) :
    Interference.Cooperates (· < ·) (acts host layouts singleStep) (Keeps host layouts singleStep vm final)
      fun t b b' => Grown singleStep (vm t).memory.size b b' ∧ (Current (vm t) b → Current (vm t) b') where
  advances := by
    rintro t - place b place' b' ⟨n, rfl, genuine, tracks⟩ next
    obtain ⟨n', tracks', lower⟩ := tracks.descends (shares.code t t) next
    have grown := tracks.sound.grown (by rwa [Place.buffer_config]) next
    rw [Place.buffer_config, Place.buffer_config] at grown
    exact ⟨_, Prod.Lex.toLex_lt_toLex.mpr lower, n', rfl, grown.genuine, tracks'⟩
  guarantees := by
    rintro t t' - place b place' b' ⟨n, rfl, genuine, tracks⟩ next -
    rw [← place.buffer_config b] at genuine
    have grown := tracks.sound.grown genuine next
    have current := tracks.current_next genuine (shares.code t' t) next
    rw [Place.buffer_config, Place.buffer_config] at grown current
    rw [shares.sized t t']
    exact ⟨grown, current⟩
  stable := by
    rintro t - place b b' ⟨n, rfl, -, tracks⟩ ⟨grown, current⟩
    refine ⟨n, ?_, grown.genuine, grown.tracks current tracks⟩
    rw [place.rank_config]

end Machines

namespace TwoVms

/-- What the second one returns. -/
def final : VmState := { Counting.counted with exit := { Counting.counted.exit with reason := .ecall } }

theorem shares : Shares Counting.host layouts false (fun _ => Counting.vm) Counting.buffer where
  comparable t := { Counting.comparable false with starts := starts (genuine_create _ _ _ _ _) rfl rfl (by decide) t }
  sized _ _ := rfl
  code _ _ _ run := Counting.holdsCode run

end TwoVms

end Riscv64Emulator.Jit
