import Riscv64Emulator.Vm.Interpreter

/-!
# The host's view of guest state

Generated code reaches guest state through host addresses: the register table of the
`Cpu`, the allocation of the `Memory` and the block translation table of the code buffer
lie at 64-bit addresses given by a `Layout`. A host access resolves to the object it
falls in; an access outside every object has no meaning.
-/
namespace Riscv64Emulator.Jit

/-- Base addresses handed over by a trampoline call. -/
structure Layout where
  registerState : Word
  memoryBase : Word
  blockBase : Word
  codeBase : Word

/-- The guest state generated code works on. -/
structure Guest where
  registers : RegisterState
  memory : Memory

/-- What stays fixed while generated code runs. -/
structure Env where
  layout : Layout
  maxBlocks : Nat
  blockToOffset : Nat → BitVec 32
  skipPermissionChecks : Bool

/-- A position inside one of the objects, in bytes. -/
inductive Location where
  | registers (offset : Nat)
  | memory (offset : Nat)
  | blocks (offset : Nat)
deriving DecidableEq, Repr

/-- Size of the register table in bytes. -/
def registersExtent : Nat := 264

/-- Size of the allocation of a memory in bytes. -/
def Guest.extent (g : Guest) : Nat := 2 * g.memory.permissionsOffset

/-- Offset of `n` bytes at `address` in the object at `base`. -/
def within (base : Word) (extent : Nat) (address : Word) (n : Nat) : Option Nat :=
  if base.toNat ≤ address.toNat ∧ address.toNat + n ≤ base.toNat + extent then
    some (address.toNat - base.toNat)
  else none

/-- The object an access of `n` bytes falls in. -/
def Env.resolve (env : Env) (g : Guest) (address : Word) (n : Nat) : Option Location :=
  match within env.layout.registerState registersExtent address n with
  | some offset => some (.registers offset)
  | none =>
    match within env.layout.memoryBase g.extent address n with
    | some offset => some (.memory offset)
    | none => (within env.layout.blockBase (4 * env.maxBlocks) address n).map .blocks

/-- The low `n` bytes of a word. -/
def lowBytes (n : Nat) (v : Word) : Word := BitVec.ofNat 64 (v.toNat % 2 ^ (8 * n))

/-- A little-endian load. The register table is read from the start of a slot and the
block table one whole entry at a time. -/
def Env.loadAt (env : Env) (g : Guest) (n : Nat) : Location → Option Word
  | .registers offset =>
    if h : offset / 8 < 33 then
      if offset % 8 = 0 then some (lowBytes n (g.registers.registers ⟨offset / 8, h⟩)) else none
    else none
  | .memory offset => some (leValue (bytesAt g.memory.allocation offset n))
  | .blocks offset =>
    if n = 4 ∧ offset % 4 = 0 then some ((env.blockToOffset (offset / 4)).setWidth 64) else none

/-- A little-endian store. The block table is read-only for generated code. -/
def Guest.storeAt (g : Guest) (n : Nat) (v : Word) : Location → Option Guest
  | .registers offset =>
    if n = 8 ∧ offset % 8 = 0 then
      some { g with registers := ⟨fun q =>
        if q.val = offset / 8 then v else g.registers.registers q⟩ }
    else none
  | .memory offset =>
    let written := overwrite g.memory.allocation offset (leBytes n v)
    some { g with memory := { g.memory with allocation := written } }
  | .blocks _ => none

def Env.load (env : Env) (g : Guest) (address : Word) (n : Nat) : Option Word := do
  env.loadAt g n (← env.resolve g address n)

def Env.store (env : Env) (g : Guest) (address : Word) (n : Nat) (v : Word) : Option Guest := do
  g.storeAt n v (← env.resolve g address n)

/-! ### Accesses and the sandbox -/

/-- One access of executed code. -/
structure Access where
  write : Bool
  address : Word
  size : Nat

/-- A loaded value that is no guest data: it comes from the permission half or from the
block table. -/
def Env.foreign (env : Env) (g : Guest) (address : Word) (n : Nat) : Bool :=
  match env.resolve g address n with
  | some (.registers _) => false
  | some (.memory offset) => g.memory.permissionsOffset < offset + n
  | some (.blocks _) => true
  | none => true

/-- The accesses generated code is meant to make: to the slots of `x1` to `x31`, to the
contents half, and loads from the permission half and from the block table. With
permission checks on, bytes are stored only where the guest may write. -/
def Env.permits (env : Env) (g : Guest) (a : Access) : Bool :=
  match env.resolve g a.address a.size with
  | some (.registers offset) => offset % 8 == 0 && 8 ≤ offset && offset < 256 && a.size ≤ 8
  | some (.memory offset) =>
    if a.write then
      offset + a.size ≤ g.memory.permissionsOffset &&
        (env.skipPermissionChecks || (List.range a.size).all fun i =>
          g.memory.permissions (offset + i) &&& MemoryFlags.write == MemoryFlags.write)
    else offset + a.size ≤ g.memory.permissionsOffset || g.memory.permissionsOffset ≤ offset
  | some (.blocks _) => !a.write
  | none => false

/-! ### Layouts of real objects -/

/-- The three objects lie in the address space, with the addresses one past their ends, and
do not overlap. -/
structure Layout.Valid (layout : Layout) (extent blocksExtent : Nat) : Prop where
  registers_fit : layout.registerState.toNat + registersExtent < 2 ^ 64
  memory_fit : layout.memoryBase.toNat + extent < 2 ^ 64
  blocks_fit : layout.blockBase.toNat + blocksExtent < 2 ^ 64
  registers_memory : layout.registerState.toNat + registersExtent ≤ layout.memoryBase.toNat ∨
    layout.memoryBase.toNat + extent ≤ layout.registerState.toNat
  registers_blocks : layout.registerState.toNat + registersExtent ≤ layout.blockBase.toNat ∨
    layout.blockBase.toNat + blocksExtent ≤ layout.registerState.toNat
  memory_blocks : layout.memoryBase.toNat + extent ≤ layout.blockBase.toNat ∨
    layout.blockBase.toNat + blocksExtent ≤ layout.memoryBase.toNat

/-- The environment describes the objects of the guest `g`. -/
def Env.Describes (env : Env) (g : Guest) : Prop :=
  env.layout.Valid g.extent (4 * env.maxBlocks)

section Resolve

variable {env : Env} {g : Guest} (valid : env.Describes g)
include valid

theorem resolve_register (r : Register) {n : Nat} (small : n ≤ 8) :
    env.resolve g (env.layout.registerState + BitVec.ofNat 64 (8 * r.val)) n
      = some (.registers (8 * r.val)) := by
  have bound := r.isLt
  have fit := valid.registers_fit
  have sum : (env.layout.registerState + BitVec.ofNat 64 (8 * r.val)).toNat
      = env.layout.registerState.toNat + 8 * r.val := by
    unfold registersExtent at fit
    rw [BitVec.toNat_add, BitVec.toNat_ofNat]
    omega
  unfold Env.resolve within
  rw [sum, if_pos (by unfold registersExtent; omega)]
  simp

theorem resolve_memory (offset : Word) {n : Nat} (positive : 0 < n)
    (inside : offset.toNat + n ≤ g.extent) :
    env.resolve g (env.layout.memoryBase + offset) n = some (.memory offset.toNat) := by
  have fit := valid.memory_fit
  have sum : (env.layout.memoryBase + offset).toNat
      = env.layout.memoryBase.toNat + offset.toNat := by
    rw [BitVec.toNat_add, Nat.mod_eq_of_lt (by omega)]
  have apart := valid.registers_memory
  unfold Env.resolve within
  rw [sum, if_neg (by omega), if_pos (by omega)]
  simp

theorem resolve_block (index : Nat) (inside : index < env.maxBlocks) :
    env.resolve g (env.layout.blockBase + BitVec.ofNat 64 (4 * index)) 4
      = some (.blocks (4 * index)) := by
  have fit := valid.blocks_fit
  have sum : (env.layout.blockBase + BitVec.ofNat 64 (4 * index)).toNat
      = env.layout.blockBase.toNat + 4 * index := by
    rw [BitVec.toNat_add, BitVec.toNat_ofNat]
    omega
  have apart := valid.registers_blocks
  have apart' := valid.memory_blocks
  unfold Env.resolve within
  rw [sum, if_neg (by omega), if_neg (by omega), if_pos (by omega)]
  simp

end Resolve

end Riscv64Emulator.Jit
