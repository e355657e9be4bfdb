import Riscv64Emulator.Jit.Aarch64.Machine
import Riscv64Emulator.Lib.Emitter
import Mathlib.Data.List.Dedup

/-!
# The register cache of the AArch64 generator

`src/vm/jit/aarch64/RegisterCache.cpp`. While a block is generated the cache assigns guest
registers to host registers, emits the loads and stores that go with it and evicts the
least recently used ones.
-/
namespace Riscv64Emulator.Jit.Aarch64

open LinearCode

/-! ### `RegisterAllocation` -/

namespace RA
abbrev exitReason : A64R := 0
abbrev exitPc : A64R := 1
abbrev registerState : A64R := 0
abbrev memoryBase : A64R := 1
abbrev permissionsBase : A64R := 2
abbrev memorySize : A64R := 3
abbrev blockBase : A64R := 4
abbrev maxExecutablePc : A64R := 5
abbrev codeBase : A64R := 6
abbrev basePc : A64R := 7
abbrev a : A64R := 8
abbrev b : A64R := 9
abbrev c : A64R := 10

/-- The number of registers in `cache`. -/
abbrev cacheSize : Nat := 17
end RA

/-- An index into `slots`. -/
abbrev SlotId := Fin RA.cacheSize

/-- `RegisterAllocation::cache`: `X11` to `X17` and `X19` to `X28`. -/
def RA.cache (id : SlotId) : A64R :=
  have bound : id.val < 17 := id.isLt
  if id.val < 7 then ⟨id.val + 11, by omega⟩ else ⟨id.val + 12, by omega⟩

/-! ### What lies outside the repository -/

/-- The choices of the assembler and of the standard library: which immediates a `try_`
call finds an encoding for, and how `std::sort` orders slots that were used at the same
time. -/
structure Platform where
  tryAddI : A64R → A64R → Word → Bool
  tryCmp : A64R → Word → Bool
  tryLogic : AluOp → A64R → A64R → Word → Bool
  sort : (SlotId → BitVec 32) → List SlotId → List SlotId
  sort_perm : ∀ key ids, (sort key ids).Perm ids
  sort_sorted : ∀ key ids, (sort key ids).Pairwise fun a b => (key b).ule (key a) = true

/-- An assembler that finds no immediate form, and a stable sort. -/
def Platform.plain : Platform where
  tryAddI _ _ _ := false
  tryCmp _ _ := false
  tryLogic _ _ _ _ := false
  sort key ids := ids.mergeSort fun a b => (key b).ule (key a)
  sort_perm key ids := ids.mergeSort_perm _
  sort_sorted key ids := by
    refine List.pairwise_mergeSort (fun a b c first second => ?_) (fun a b => ?_) ids
    · simp only [BitVec.ule_iff_le] at first second ⊢
      exact BitVec.le_trans second first
    · simp only [BitVec.ule_iff_le, Bool.or_eq_true]
      exact BitVec.le_total (key b) (key a)

/-! ### `RegisterCache` -/

structure Slot where
  lastUse : BitVec 32 := 0
  reg : Register := Register.zero
  locked : Bool := false
  dirty : Bool := false
deriving DecidableEq, Repr

/-- The last element of `free_slots` is the first of `freeSlots`. -/
structure RegisterCache where
  programCounter : BitVec 32 := 0
  slots : SlotId → Slot := fun _ => {}
  registerToSlot : Register → Option SlotId := fun _ => none
  freeSlots : List SlotId := (List.finRange RA.cacheSize).reverse

/-- `RegisterCache::StateSnapshot`. -/
abbrev StateSnapshot := SlotId → Register

structure RegisterToLock where
  reg : Register
  writeOnly : Bool := false
deriving DecidableEq, Repr

/-- `RegisterCache::WriteOnly`. -/
def writeOnly (reg : Register) : RegisterToLock := ⟨reg, true⟩

/-- `CodegenContext::Exit`. -/
structure PendingExit where
  label : Nat
  reason : ArchExitReason
  pcRegister : A64R := A64R.xzr
  pcValue : Word := 0
  snapshot : StateSnapshot

/-- What changes while a block is generated. -/
structure GenState where
  nextLabel : Nat
  cache : RegisterCache

abbrev Gen := Emitter Instr PendingExit GenState Abort

/-- One assembler call. -/
def ins (i : Instr) : Gen Unit :=
  if i.encodable then Emitter.emit [.instr i] else Emitter.fail .notEncodable

def allocateLabel : Gen Nat :=
  Emitter.modifyGet fun c => (c.nextLabel, { c with nextLabel := c.nextLabel + 1 })

def insertLabel (l : Nat) : Gen Unit := Emitter.emit [.label l]

def verify (condition : Bool) (message : String) : Gen Unit :=
  if condition then pure () else Emitter.fail (.verify message)

def unreachableCode {α : Type} : Gen α := Emitter.fail (.fatalError "entered unreachable code")

def liftExcept {α : Type} : Except Abort α → Gen α
  | .ok a => pure a
  | .error e => Emitter.fail e

def getCache : Gen RegisterCache := Emitter.modifyGet fun c => (c.cache, c)

def modifyCache (f : RegisterCache → RegisterCache) : Gen Unit :=
  Emitter.modifyGet fun c => ((), { c with cache := f c.cache })

namespace RegisterCache

/-- Replace a slot. -/
def setSlot (c : RegisterCache) (id : SlotId) (slot : Slot) : RegisterCache :=
  { c with slots := fun q => if q = id then slot else c.slots q }

/-- Replace an entry of `register_to_slot`. -/
def setPlace (c : RegisterCache) (reg : Register) (place : Option SlotId) : RegisterCache :=
  { c with registerToSlot := fun q => if q = reg then place else c.registerToSlot q }

/-- The offset of a register in the register table. -/
def slotOffset (reg : Register) : Word := BitVec.ofNat 64 (8 * reg.val)

def emitRegisterLoad (target : A64R) (source : Register) : Gen Unit :=
  ins (.ldr .double false target RA.registerState (.imm (slotOffset source)))

def emitRegisterStore (target : Register) (source : A64R) : Gen Unit :=
  ins (.str .double source RA.registerState (.imm (slotOffset target)))

def acquireCacheSlot : Gen SlotId := do
  let cache ← getCache
  match cache.freeSlots with
  | [] => Emitter.fail (.verify "cannot acquire slot: register cache is full")
  | slotId :: rest => do
    modifyCache fun c => { c with freeSlots := rest }
    pure slotId

/-- The body of the eviction loop. -/
def evict (slotId : SlotId) : Gen Unit := do
  let cache ← getCache
  let slot := cache.slots slotId
  if slot.dirty then emitRegisterStore slot.reg (RA.cache slotId)
  modifyCache fun c =>
    let c := (c.setPlace slot.reg none).setSlot slotId {}
    { c with freeSlots := slotId :: c.freeSlots }

/-- The eviction loop. -/
def evictAll : List SlotId → Gen Unit
  | [] => pure ()
  | slotId :: rest => do
    evict slotId
    evictAll rest

/-- The slots that may be evicted. -/
def availableSlots (c : RegisterCache) : List SlotId :=
  (List.finRange RA.cacheSize).filter fun id =>
    !(c.slots id).locked && (c.slots id).reg != Register.zero

/-- The sorted slots are taken from the back, the least recently used first. -/
def freeCacheSlots (p : Platform) (count : Nat) : Gen Unit := do
  let cache ← getCache
  let available := cache.availableSlots
  verify (count ≤ available.length)
    s!"not enough available register cache slots to evict {count} registers"
  evictAll ((p.sort (fun id => (cache.slots id).lastUse) available).reverse.take count)

/-- The loop of `reserve_registers`, without the set it computes. -/
def lockPresent (c : RegisterCache) : List RegisterToLock → RegisterCache
  | [] => c
  | r :: rest =>
    if r.reg = Register.zero then c.lockPresent rest
    else
      match c.registerToSlot r.reg with
      | some id => (c.setSlot id { c.slots id with locked := true }).lockPresent rest
      | none => c.lockPresent rest

/-- The set of registers without a slot. -/
def missingRegisters (c : RegisterCache) (registers : List RegisterToLock) : List Register :=
  ((registers.map RegisterToLock.reg).filter fun reg =>
    reg != Register.zero && (c.registerToSlot reg).isNone).dedup

def reserveRegisters (p : Platform) (registers : List RegisterToLock) : Gen Unit := do
  let cache ← getCache
  modifyCache fun c => c.lockPresent registers
  let missing := (cache.missingRegisters registers).length
  if missing > cache.freeSlots.length then freeCacheSlots p (missing - cache.freeSlots.length)

/-- The registers whose value is needed. -/
def readRegisters (registers : List RegisterToLock) : List Register :=
  (registers.filter fun r => r.reg != Register.zero && !r.writeOnly).map RegisterToLock.reg

/-- The body of the loop of `lock_registers_internal`. -/
def lockOne (reads : List Register) (reg : Register) : Gen A64R :=
  if reg = Register.zero then pure A64R.xzr
  else do
    let cache ← getCache
    match cache.registerToSlot reg with
    | some slotId => do
      modifyCache fun c =>
        c.setSlot slotId { c.slots slotId with locked := true, lastUse := c.programCounter }
      pure (RA.cache slotId)
    | none => do
      let slotId ← acquireCacheSlot
      modifyCache fun c =>
        (c.setSlot slotId
          { c.slots slotId with reg := reg, locked := true, lastUse := c.programCounter }).setPlace
            reg (some slotId)
      if reads.contains reg then emitRegisterLoad (RA.cache slotId) reg
      pure (RA.cache slotId)

def lockEach (reads : List Register) : List RegisterToLock → Gen (List A64R)
  | [] => pure []
  | r :: rest => do
    let output ← lockOne reads r.reg
    let outputs ← lockEach reads rest
    pure (output :: outputs)

/-- `lock_registers_internal`. -/
def lockRegisters (p : Platform) (registers : List RegisterToLock) : Gen (List A64R) := do
  reserveRegisters p registers
  lockEach (readRegisters registers) registers

/-- `platform_register_to_slot`. -/
def platformRegisterToSlot (reg : A64R) : Option SlotId :=
  (List.finRange RA.cacheSize).find? fun id => RA.cache id = reg

def unlockRegister (reg : A64R) (makeDirty : Bool) : Gen Unit :=
  if reg = A64R.xzr then pure ()
  else
    match platformRegisterToSlot reg with
    | none =>
      Emitter.fail (.verify "cannot unlock register that is not part of the register cache")
    | some slotId =>
      modifyCache fun c =>
        c.setSlot slotId
          { c.slots slotId with locked := false, dirty := (c.slots slotId).dirty || makeDirty }

def unlockRegisters : List A64R → Gen Unit
  | [] => pure ()
  | reg :: rest => do
    unlockRegister reg false
    unlockRegisters rest

def takeStateSnapshot (c : RegisterCache) : StateSnapshot := fun id =>
  if (c.slots id).dirty then (c.slots id).reg else Register.zero

/-- The loop of `flush_registers`. -/
def flushSlots (snapshot : StateSnapshot) : List SlotId → Gen Unit
  | [] => pure ()
  | id :: rest => do
    if snapshot id ≠ Register.zero then emitRegisterStore (snapshot id) (RA.cache id)
    flushSlots snapshot rest

def flushRegisters (snapshot : StateSnapshot) : Gen Unit :=
  flushSlots snapshot (List.finRange RA.cacheSize)

def flushCurrentRegisters : Gen Unit := do
  let cache ← getCache
  flushRegisters cache.takeStateSnapshot

def finishInstruction : Gen Unit := do
  let cache ← getCache
  verify ((List.finRange RA.cacheSize).all fun id => !(cache.slots id).locked)
    "register is locked when finishing the instruction"
  modifyCache fun c => { c with programCounter := c.programCounter + 1 }

end RegisterCache

end Riscv64Emulator.Jit.Aarch64
