import Riscv64Emulator.Jit.CodeBuffer
import Mathlib.Data.Finset.Range
import Mathlib.Logic.Function.Basic

/-!
# The code buffer between executors

`CodeBuffer` as several executors use it: `get` reads the table without the mutex, `insert`
and `insert_standalone` take it, and the code is copied byte by byte before its offset is
published. The steps of different calls interleave in any order.
-/
namespace Riscv64Emulator.Jit

/-- The code an executor has generated. -/
abbrev MachineCode := List Byte

/-- The calls of an executor. -/
inductive Call where
  | get (guestAddress : Word)
  | insert (guestAddress : Word) (code : MachineCode)
  | insertStandalone (code : MachineCode)

/-- The block a call is about. -/
def Call.guestAddress : Call → Option Word
  | .get guestAddress | .insert guestAddress _ => some guestAddress
  | .insertStandalone _ => none

def Call.code : Call → MachineCode
  | .get _ => []
  | .insert _ code | .insertStandalone code => code

/-- The calls that are made: for aligned addresses below the limit, with code that is not empty. -/
def Call.Admitted (buffer : CodeBuffer MachineCode) : Call → Prop
  | .get guestAddress => buffer.Admits guestAddress
  | .insert guestAddress code => buffer.Admits guestAddress ∧ code ≠ []
  | .insertStandalone code => code ≠ []

/-- An allocated part of the buffer, and the code it is for. -/
structure Region where
  start : Nat
  code : MachineCode

def Region.stop (r : Region) : Nat := r.start + r.code.length

def Region.Disjoint (r r' : Region) : Prop := r.stop ≤ r'.start ∨ r'.stop ≤ r.start

/-- How far an executor is in a call. In `copying`, the bytes at `remaining` are not copied. -/
inductive Phase where
  | idle
  | called (call : Call)
  | locked (call : Call)
  | allocating (call : Call)
  | copying (call : Call) (start : Nat) (remaining : Finset Nat)
  | allocated (call : Call) (offset : BitVec 32)
  | unlocking (call : Call) (offset : BitVec 32)
  | returning (call : Call) (result : Option (BitVec 32))

/-- The buffer, its bytes, its mutex, and what every executor is about. `regions`, newest first,
and `first`, the code of the first insert of each block to take the mutex, are bookkeeping. -/
structure SharedBuffer (Executor : Type) where
  buffer : CodeBuffer MachineCode
  bytes : Nat → Byte
  mutex : Option Executor
  phase : Executor → Phase
  regions : List Region
  first : Nat → Option MachineCode

/-- What an executor does in a step. -/
inductive Event (Executor : Type) where
  | called (t : Executor) (call : Call)
  | looked (t : Executor) (guestAddress : Word) (result : Option (BitVec 32))
  | locked (t : Executor) (call : Call)
  | allocated (t : Executor) (r : Region)
  | copied (t : Executor) (offset : Nat)
  | advanced (t : Executor)
  | kept (t : Executor) (offset : BitVec 32)
  | published (t : Executor) (guestAddress : Word) (offset : BitVec 32)
  | unlocked (t : Executor)
  | returned (t : Executor) (call : Call) (result : Option (BitVec 32))

/-- Whose step it is. -/
def Event.executor {Executor : Type} : Event Executor → Executor
  | .called t _ | .looked t _ _ | .locked t _ | .allocated t _ | .copied t _ | .advanced t | .kept t _
  | .published t _ _ | .unlocked t | .returned t _ _ => t

namespace SharedBuffer

variable {Executor : Type} [DecidableEq Executor]

/-- A new buffer, with no call under way. -/
def create (flags : CodeBufferFlags) (size : Nat) (size_le : size ≤ 2 ^ 32)
    (maxExecutableGuestAddress : Word) : SharedBuffer Executor where
  buffer := .create flags size size_le maxExecutableGuestAddress
  bytes _ := 0
  mutex := none
  phase _ := .idle
  regions := []
  first _ := none

def setPhase (s : SharedBuffer Executor) (t : Executor) (phase : Phase) : SharedBuffer Executor :=
  { s with phase := Function.update s.phase t phase }

@[simp] theorem setPhase_self (s : SharedBuffer Executor) (t : Executor) (phase : Phase) :
    (s.setPhase t phase).phase t = phase := Function.update_self _ _ _

theorem setPhase_other (s : SharedBuffer Executor) {t t' : Executor} (phase : Phase)
    (other : t' ≠ t) : (s.setPhase t phase).phase t' = s.phase t' := Function.update_of_ne other _ _

/-- The insert with the mutex is the first of its block, or not. -/
def noteFirst (s : SharedBuffer Executor) : Call → SharedBuffer Executor
  | .insert guestAddress code =>
    let block := guestAddress.toNat / 4
    { s with first := Function.update s.first block ((s.first block).or (some code)) }
  | _ => s

/-- One step of one executor, none of whose `verify`s fails. -/
inductive Step : SharedBuffer Executor → Event Executor → SharedBuffer Executor → Prop
  | call {s t call} (idle : s.phase t = .idle) (admitted : call.Admitted s.buffer) :
      Step s (.called t call) (s.setPhase t (.called call))
  | look {s t guestAddress result} (here : s.phase t = .called (.get guestAddress))
      (got : s.buffer.get guestAddress = .ok result) :
      Step s (.looked t guestAddress result) (s.setPhase t (.returning (.get guestAddress) result))
  | lock {s t guestAddress code} (here : s.phase t = .called (.insert guestAddress code))
      (free : s.mutex = none) :
      Step s (.locked t (.insert guestAddress code))
        (({ s with mutex := some t }.noteFirst (.insert guestAddress code)).setPhase t
          (.locked (.insert guestAddress code)))
  | found {s t guestAddress code offset} (here : s.phase t = .locked (.insert guestAddress code))
      (got : s.buffer.get guestAddress = .ok (some offset)) :
      Step s (.looked t guestAddress (some offset))
        (s.setPhase t (.unlocking (.insert guestAddress code) offset))
  | missed {s t guestAddress code} (here : s.phase t = .locked (.insert guestAddress code))
      (got : s.buffer.get guestAddress = .ok none) :
      Step s (.looked t guestAddress none)
        (s.setPhase t (.allocating (.insert guestAddress code)))
  | lockStandalone {s t code} (here : s.phase t = .called (.insertStandalone code))
      (free : s.mutex = none) :
      Step s (.locked t (.insertStandalone code))
        ({ s with mutex := some t }.setPhase t (.allocating (.insertStandalone code)))
  | allocate {s t call start} (here : s.phase t = .allocating call)
      (aligned : start = CodeBuffer.alignedOffset s.buffer.nextFreeOffset)
      (fits : start + call.code.length ≤ s.buffer.size) :
      Step s (.allocated t ⟨start, call.code⟩)
        ({ s with regions := ⟨start, call.code⟩ :: s.regions }.setPhase t
          (.copying call start (Finset.range call.code.length)))
  | copy {s t call start remaining i byte} (here : s.phase t = .copying call start remaining)
      (left : i ∈ remaining) (source : call.code[i]? = some byte) :
      Step s (.copied t (start + i))
        ({ s with bytes := Function.update s.bytes (start + i) byte }.setPhase t
          (.copying call start (remaining.erase i)))
  | advance {s t call start offset} (here : s.phase t = .copying call start ∅)
      (truncated : offset = BitVec.ofNat 32 start) :
      Step s (.advanced t)
        ({ s with buffer := { s.buffer with
            written := fun o => if o = offset then some call.code else s.buffer.written o
            nextFreeOffset := start + call.code.length } }.setPhase t (.allocated call offset))
  | publish {s t guestAddress code offset}
      (here : s.phase t = .allocated (.insert guestAddress code) offset) :
      Step s (.published t guestAddress offset)
        ({ s with buffer := { s.buffer with
            blockToOffset := fun block =>
              if block = guestAddress.toNat / 4 then offset else s.buffer.blockToOffset block } }.setPhase
          t (.unlocking (.insert guestAddress code) offset))
  | keep {s t code offset} (here : s.phase t = .allocated (.insertStandalone code) offset) :
      Step s (.kept t offset) (s.setPhase t (.unlocking (.insertStandalone code) offset))
  | unlock {s t call offset} (here : s.phase t = .unlocking call offset) :
      Step s (.unlocked t)
        ({ s with mutex := none }.setPhase t (.returning call (some offset)))
  | finish {s t call result} (here : s.phase t = .returning call result) :
      Step s (.returned t call result) (s.setPhase t .idle)

end SharedBuffer

/-! ### The invariant -/

/-- The call an executor is in. -/
def Phase.call : Phase → Option Call
  | .idle => none
  | .called call | .locked call | .allocating call | .copying call _ _ | .allocated call _
  | .unlocking call _ | .returning call _ => some call

/-- An executor in these phases has the mutex. -/
def Phase.critical : Phase → Bool
  | .idle | .called _ | .returning _ _ => false
  | _ => true

/-- The region an executor is writing. -/
def Phase.region : Phase → Option Region
  | .copying call start _ => some ⟨start, call.code⟩
  | _ => none

/-- The call of an executor with the mutex that has not published yet. -/
def Phase.works : Phase → Option Call
  | .locked call | .allocating call | .copying call _ _ | .allocated call _ => some call
  | _ => none

namespace SharedBuffer

variable {Executor : Type}

section Invariant

variable (s : SharedBuffer Executor)

/-- The bytes of a region are those of its code. -/
def Holds (r : Region) : Prop := ∀ i byte, r.code[i]? = some byte → s.bytes (r.start + i) = byte

/-- The region is written, and nothing will be allocated in it. -/
def Settled (r : Region) : Prop := r.stop ≤ s.buffer.nextFreeOffset ∧ s.Holds r

/-- The insert will publish the code of its block. -/
def WillPublish (call : Call) : Prop :=
  call.code ≠ [] ∧ ∀ guestAddress code, call = .insert guestAddress code →
    s.buffer.blockToOffset (guestAddress.toNat / 4) = 0 ∧
      s.first (guestAddress.toNat / 4) = some code

/-- The offset is the one of the call's block. -/
def Delivers (call : Call) (offset : BitVec 32) : Prop :=
  offset ≠ 0 ∧ ∀ guestAddress, call.guestAddress = some guestAddress →
    s.buffer.blockToOffset (guestAddress.toNat / 4) = offset

/-- What holds of an executor in a phase. -/
def PhaseSound : Phase → Prop
  | .idle | .called _ | .returning _ none => True
  | .locked call => ∀ guestAddress code, call = .insert guestAddress code →
      s.buffer.blockToOffset (guestAddress.toNat / 4) = 0 →
        s.first (guestAddress.toNat / 4) = some code
  | .allocating call => s.WillPublish call
  | .copying call start remaining => s.WillPublish call ∧
      start = CodeBuffer.alignedOffset s.buffer.nextFreeOffset ∧
      start + call.code.length ≤ s.buffer.size ∧ ⟨start, call.code⟩ ∈ s.regions ∧
      ∀ i byte, call.code[i]? = some byte → i ∉ remaining → s.bytes (start + i) = byte
  | .allocated call offset => s.WillPublish call ∧ offset ≠ 0 ∧
      ⟨offset.toNat, call.code⟩ ∈ s.regions ∧ s.Settled ⟨offset.toNat, call.code⟩
  | .unlocking call offset | .returning call (some offset) => s.Delivers call offset

/-- What holds in every state of a run. -/
structure Inv : Prop where
  admitted : ∀ t call, (s.phase t).call = some call → call.Admitted s.buffer
  mutex : ∀ t, (s.phase t).critical = true → s.mutex = some t
  reserved : 16 ≤ s.buffer.nextFreeOffset
  inside : ∀ r ∈ s.regions, 16 ≤ r.start ∧ r.start % 16 = 0 ∧ r.stop ≤ s.buffer.size
  disjoint : s.regions.Pairwise Region.Disjoint
  settled : ∀ r ∈ s.regions, s.Settled r ∨ ∃ t, (s.phase t).region = some r
  published : ∀ block, s.buffer.blockToOffset block ≠ 0 → ∃ code, s.first block = some code ∧
    ⟨(s.buffer.blockToOffset block).toNat, code⟩ ∈ s.regions ∧
    s.Settled ⟨(s.buffer.blockToOffset block).toNat, code⟩
  first : ∀ block code, s.buffer.blockToOffset block = 0 → s.first block = some code →
    ∃ t guestAddress, (s.phase t).works = some (.insert guestAddress code) ∧
      guestAddress.toNat / 4 = block
  phases : ∀ t, s.PhaseSound (s.phase t)

theorem inv_create (flags : CodeBufferFlags) {size : Nat} (size_le : size ≤ 2 ^ 32) (limit : Word) :
    (create flags size size_le limit : SharedBuffer Executor).Inv where
  admitted _ _ none := by cases none
  mutex _ critical := by cases critical
  reserved := Nat.le_refl 16
  inside _ absent := by cases absent
  disjoint := .nil
  settled _ absent := by cases absent
  published _ published := absurd rfl published
  first _ _ _ none := by cases none
  phases _ := trivial

end Invariant

/-! ### Steps keep it -/

section Steps

variable {s s' : SharedBuffer Executor} {t t' : Executor} {phase : Phase}

/-- Nobody else has the mutex. -/
theorem Inv.alone (inv : s.Inv) (critical : (s.phase t).critical = true) (other : t' ≠ t) :
    (s.phase t').critical = false := by
  by_contra both
  have mine := inv.mutex t critical
  rw [inv.mutex t' (by simpa using both)] at mine
  exact other (Option.some.inj mine)

theorem works_critical {call : Call} (works : phase.works = some call) : phase.critical = true := by
  cases phase <;> first | rfl | cases works

theorem region_critical {r : Region} (region : phase.region = some r) : phase.critical = true := by
  cases phase <;> first | rfl | cases region

/-- What holds of an executor without the mutex is lost by nothing another one does. -/
theorem PhaseSound.of_grows (sound : s.PhaseSound phase) (free : phase.critical = false)
    (grows : ∀ block, s.buffer.blockToOffset block ≠ 0 →
      s'.buffer.blockToOffset block = s.buffer.blockToOffset block) : s'.PhaseSound phase := by
  cases phase with
  | idle | called => trivial
  | locked | allocating | copying | allocated | unlocking => cases free
  | returning call result =>
    cases result with
    | none => trivial
    | some offset =>
      obtain ⟨nonzero, delivered⟩ := sound
      refine ⟨nonzero, fun guestAddress here => ?_⟩
      rw [grows _ ((delivered guestAddress here).symm ▸ nonzero)]
      exact delivered guestAddress here

variable [DecidableEq Executor]

/-- An executor moves on, and nothing else happens. -/
theorem Inv.setPhase (inv : s.Inv) (call : phase.call = none ∨ ∃ c, phase.call = some c ∧ c.Admitted s.buffer)
    (mutex : phase.critical = true → s.mutex = some t) (region : (s.phase t).region = none)
    (works : ∀ guestAddress code, (s.phase t).works = some (.insert guestAddress code) →
      s.buffer.blockToOffset (guestAddress.toNat / 4) = 0 →
        phase.works = some (.insert guestAddress code))
    (sound : s.PhaseSound phase) : (s.setPhase t phase).Inv where
  admitted t' c here := by
    by_cases same : t' = t
    · subst same
      rw [setPhase_self] at here
      rcases call with none | ⟨c', here', admitted⟩
      · cases none.symm.trans here
      · cases here'.symm.trans here
        exact admitted
    · rw [setPhase_other s phase same] at here
      exact inv.admitted t' c here
  mutex t' critical := by
    by_cases same : t' = t
    · subst same
      rw [setPhase_self] at critical
      exact mutex critical
    · rw [setPhase_other s phase same] at critical
      exact inv.mutex t' critical
  reserved := inv.reserved
  inside := inv.inside
  disjoint := inv.disjoint
  -- the region still being written belongs to another executor
  settled r mem := by
    refine (inv.settled r mem).imp_right fun ⟨t', writes⟩ => ⟨t', ?_⟩
    have other : t' ≠ t := by
      rintro rfl
      cases region.symm.trans writes
    rwa [setPhase_other s phase other]
  published := inv.published
  first block code absent noted := by
    obtain ⟨t', guestAddress, working, rfl⟩ := inv.first block code absent noted
    refine ⟨t', guestAddress, ?_, rfl⟩
    by_cases same : t' = t
    · subst same
      rw [setPhase_self]
      exact works guestAddress code working absent
    · rwa [setPhase_other s phase same]
  phases t' := by
    by_cases same : t' = t
    · subst same
      rw [setPhase_self]
      exact sound
    · rw [setPhase_other s phase same]
      exact inv.phases t'

/-- The one executor with the mutex changes the buffer. -/
theorem Inv.changes (inv : s.Inv) (others : ∀ t' ≠ t, (s.phase t').critical = false)
    (moved : s'.phase = Function.update s.phase t phase)
    (maxBlocks : s'.buffer.maxBlocks = s.buffer.maxBlocks)
    (call : ∀ c, phase.call = some c → (s.phase t).call = some c)
    (mutex : phase.critical = true → s'.mutex = some t)
    (reserved : 16 ≤ s'.buffer.nextFreeOffset)
    (inside : ∀ r ∈ s'.regions, 16 ≤ r.start ∧ r.start % 16 = 0 ∧ r.stop ≤ s'.buffer.size)
    (disjoint : s'.regions.Pairwise Region.Disjoint)
    (settled : ∀ r ∈ s'.regions, s'.Settled r ∨ phase.region = some r)
    (published : ∀ block, s'.buffer.blockToOffset block ≠ 0 → ∃ code, s'.first block = some code ∧
      ⟨(s'.buffer.blockToOffset block).toNat, code⟩ ∈ s'.regions ∧
      s'.Settled ⟨(s'.buffer.blockToOffset block).toNat, code⟩)
    (first : ∀ block code, s'.buffer.blockToOffset block = 0 → s'.first block = some code →
      ∃ guestAddress, phase.works = some (.insert guestAddress code) ∧
        guestAddress.toNat / 4 = block)
    (grows : ∀ block, s.buffer.blockToOffset block ≠ 0 →
      s'.buffer.blockToOffset block = s.buffer.blockToOffset block)
    (sound : s'.PhaseSound phase) : s'.Inv := by
  -- only `t` is in the critical section: what the others rely on is what nobody changes
  have self : s'.phase t = phase := by rw [moved, Function.update_self]
  have other (t' : Executor) (other : t' ≠ t) : s'.phase t' = s.phase t' := by
    rw [moved, Function.update_of_ne other]
  have admitted (c : Call) (admitted : c.Admitted s.buffer) : c.Admitted s'.buffer := by
    cases c <;> simpa only [Call.Admitted, CodeBuffer.Admits, maxBlocks] using admitted
  refine ⟨fun t' c here => admitted c ?_, fun t' critical => ?_, reserved, inside, disjoint, fun r mem =>
    (settled r mem).imp_right fun region => ⟨t, by rw [self]; exact region⟩, published,
    fun block code absent noted => ?_, fun t' => ?_⟩
  · by_cases same : t' = t
    · subst same
      exact inv.admitted t' c (call c (by rwa [← self]))
    · exact inv.admitted t' c (by rwa [← other t' same])
  · by_cases same : t' = t
    · subst same
      exact mutex (by rwa [← self])
    · rw [other t' same, others t' same] at critical
      cases critical
  · obtain ⟨guestAddress, working, here⟩ := first block code absent noted
    exact ⟨t, guestAddress, by rw [self]; exact working, here⟩
  · by_cases same : t' = t
    · subst same
      rw [self]
      exact sound
    · rw [other t' same]
      exact (inv.phases t').of_grows (others t' same) grows

omit [DecidableEq Executor] in
theorem Inv.settled_alone (inv : s.Inv) (critical : (s.phase t).critical = true) {r : Region}
    (mem : r ∈ s.regions) : s.Settled r ∨ (s.phase t).region = some r := by
  refine (inv.settled r mem).imp_right fun ⟨t', writes⟩ => ?_
  by_cases same : t' = t
  · rwa [← same]
  · cases (inv.alone critical same).symm.trans (region_critical writes)

omit [DecidableEq Executor] in
theorem Inv.first_alone (inv : s.Inv) (critical : (s.phase t).critical = true) {block : Nat}
    {code : MachineCode} (absent : s.buffer.blockToOffset block = 0)
    (noted : s.first block = some code) :
    ∃ guestAddress, (s.phase t).works = some (.insert guestAddress code) ∧
      guestAddress.toNat / 4 = block := by
  obtain ⟨t', guestAddress, working, here⟩ := inv.first block code absent noted
  by_cases same : t' = t
  · exact ⟨guestAddress, by rwa [← same], here⟩
  · cases (inv.alone critical same).symm.trans (works_critical working)

omit [DecidableEq Executor] in
/-- The mutex is free: nobody is in a critical phase. -/
theorem Inv.nobody (inv : s.Inv) (free : s.mutex = none) (t : Executor) :
    (s.phase t).critical = false := by
  by_contra critical
  cases free.symm.trans (inv.mutex t (by simpa using critical))

omit [DecidableEq Executor] in
theorem Inv.settled_free (inv : s.Inv) (free : s.mutex = none) {r : Region} (mem : r ∈ s.regions) :
    s.Settled r := by
  refine (inv.settled r mem).resolve_right fun ⟨t, writes⟩ => ?_
  cases (inv.nobody free t).symm.trans (region_critical writes)

omit [DecidableEq Executor] in
theorem Inv.first_free (inv : s.Inv) (free : s.mutex = none) {block : Nat}
    (absent : s.buffer.blockToOffset block = 0) : s.first block = none := by
  cases noted : s.first block with
  | none => rfl
  | some code =>
    obtain ⟨t, _, working, -⟩ := inv.first block code absent noted
    cases (inv.nobody free t).symm.trans (works_critical working)

theorem aligned_alignedOffset (offset : Nat) : CodeBuffer.alignedOffset offset % 16 = 0 := by
  unfold CodeBuffer.alignedOffset
  omega

theorem Inv.lock (inv : s.Inv) {guestAddress : Word} {code : MachineCode}
    (here : s.phase t = .called (.insert guestAddress code)) (free : s.mutex = none) :
    (({ s with mutex := some t }.noteFirst (.insert guestAddress code)).setPhase t
      (.locked (.insert guestAddress code))).Inv := by
  have noted (absent : s.buffer.blockToOffset (guestAddress.toNat / 4) = 0) :
      (s.first (guestAddress.toNat / 4)).or (some code) = some code := by
    rw [inv.first_free free absent]
    rfl
  refine inv.changes (fun t' _ => inv.nobody free t') rfl rfl (fun c call => ?_) (fun _ => rfl) inv.reserved
    inv.inside inv.disjoint (fun r mem => .inl (inv.settled_free free mem)) (fun block published => ?_)
    (fun block c absent first => ?_) (fun _ _ => rfl) ?_
  · rw [here]
    exact call
  · obtain ⟨c, first, mem, settled⟩ := inv.published block published
    refine ⟨c, ?_, mem, settled⟩
    -- the first to lock for a block is noted; a later one finds the note and keeps it
    by_cases same : block = guestAddress.toNat / 4
    · subst same
      show Function.update s.first _ _ _ = _
      rw [Function.update_self, first]
      rfl
    · exact (Function.update_of_ne same _ _).trans first
  · by_cases same : block = guestAddress.toNat / 4
    · subst same
      replace first : Function.update s.first _ _ _ = _ := first
      rw [Function.update_self, noted absent] at first
      cases first
      exact ⟨guestAddress, rfl, rfl⟩
    · replace first : s.first block = some c := (Function.update_of_ne same _ _).symm.trans first
      cases (inv.first_free free absent).symm.trans first
  · intro guestAddress' code' same absent
    cases same
    show Function.update s.first _ _ _ = _
    rw [Function.update_self]
    exact noted absent

theorem Inv.allocate (inv : s.Inv) {call : Call} {start : Nat} (here : s.phase t = .allocating call)
    (aligned : start = CodeBuffer.alignedOffset s.buffer.nextFreeOffset)
    (fits : start + call.code.length ≤ s.buffer.size) :
    ({ s with regions := ⟨start, call.code⟩ :: s.regions }.setPhase t
      (.copying call start (Finset.range call.code.length))).Inv := by
  have critical : (s.phase t).critical = true := by
    rw [here]
    rfl
  have behind := CodeBuffer.le_alignedOffset s.buffer.nextFreeOffset
  -- everything allocated before is completely written
  have old {r : Region} (mem : r ∈ s.regions) : s.Settled r := by
    refine (inv.settled_alone critical mem).resolve_right fun region => ?_
    rw [here] at region
    cases region
  have sound := inv.phases t
  rw [here] at sound
  refine inv.changes (fun t' other => inv.alone critical other) rfl rfl (fun c call => ?_)
    (fun _ => inv.mutex t critical) inv.reserved (fun r mem => ?_) (.cons (fun r mem => .inr ?_) inv.disjoint)
    (fun r mem => ?_) (fun block published => ?_) (fun block code absent noted => ?_) (fun _ _ => rfl)
    ⟨sound, aligned, fits, List.mem_cons_self, fun i byte source copied => ?_⟩
  · rw [here]
    exact call
  · rcases List.mem_cons.mp mem with rfl | mem
    · have reserved := inv.reserved
      exact ⟨by dsimp only; omega, aligned ▸ aligned_alignedOffset _, fits⟩
    · exact inv.inside r mem
  · have settled := (old mem).1
    dsimp only
    omega
  · rcases List.mem_cons.mp mem with rfl | mem
    · exact .inr rfl
    · exact .inl (old mem)
  · obtain ⟨code, first, mem, settled⟩ := inv.published block published
    exact ⟨code, first, List.mem_cons_of_mem _ mem, settled⟩
  · have working := inv.first_alone critical absent noted
    rw [here] at working
    exact working
  · obtain ⟨inside, -⟩ := List.getElem?_eq_some_iff.mp source
    exact absurd (Finset.mem_range.mpr inside) copied

theorem Inv.copy (inv : s.Inv) {call : Call} {start i : Nat} {remaining : Finset Nat} {byte : Byte}
    (here : s.phase t = .copying call start remaining) (source : call.code[i]? = some byte) :
    ({ s with bytes := Function.update s.bytes (start + i) byte }.setPhase t
      (.copying call start (remaining.erase i))).Inv := by
  have critical : (s.phase t).critical = true := by
    rw [here]
    rfl
  have sound := inv.phases t
  rw [here] at sound
  obtain ⟨publishes, aligned, fits, mem, copied⟩ := sound
  have behind := CodeBuffer.le_alignedOffset s.buffer.nextFreeOffset
  -- the byte lies behind every settled region
  have settled {r : Region} (settled : s.Settled r) :
      Settled { s with bytes := Function.update s.bytes (start + i) byte } r := by
    refine ⟨settled.1, fun j byte' source' => ?_⟩
    obtain ⟨inside, -⟩ := List.getElem?_eq_some_iff.mp source'
    have stop : r.start + r.code.length ≤ s.buffer.nextFreeOffset := settled.1
    exact (Function.update_of_ne (by omega) _ _).trans (settled.2 j byte' source')
  refine inv.changes (fun t' other => inv.alone critical other) rfl rfl (fun c call => ?_)
    (fun _ => inv.mutex t critical) inv.reserved inv.inside inv.disjoint (fun r mem => ?_)
    (fun block published => ?_) (fun block code absent noted => ?_) (fun _ _ => rfl)
    ⟨publishes, aligned, fits, mem, fun j byte' source' copied' => ?_⟩
  · rw [here]
    exact call
  · have old := inv.settled_alone critical mem
    rw [here] at old
    exact old.imp_left settled
  · obtain ⟨code, first, mem, old⟩ := inv.published block published
    exact ⟨code, first, mem, settled old⟩
  · have working := inv.first_alone critical absent noted
    rw [here] at working
    exact working
  · by_cases same : j = i
    · subst same
      cases source.symm.trans source'
      exact Function.update_self _ _ _
    · refine (Function.update_of_ne (by omega) _ _).trans (copied j byte' source' fun left => ?_)
      exact copied' (Finset.mem_erase.mpr ⟨same, left⟩)

theorem Inv.advance (inv : s.Inv) {call : Call} {start : Nat} {offset : BitVec 32}
    (here : s.phase t = .copying call start ∅) (truncated : offset = BitVec.ofNat 32 start) :
    ({ s with buffer := { s.buffer with
        written := fun o => if o = offset then some call.code else s.buffer.written o
        nextFreeOffset := start + call.code.length } }.setPhase t (.allocated call offset)).Inv := by
  have critical : (s.phase t).critical = true := by
    rw [here]
    rfl
  have sound := inv.phases t
  rw [here] at sound
  obtain ⟨publishes, aligned, fits, mem, copied⟩ := sound
  have behind := CodeBuffer.le_alignedOffset s.buffer.nextFreeOffset
  have positive := List.length_pos_of_ne_nil publishes.1
  have bound := s.buffer.size_le
  have reserved := inv.reserved
  -- the buffer has at most 2 ^ 32 bytes, so the offset is not cut down
  have address : offset.toNat = start := by
    rw [truncated, BitVec.toNat_ofNat]
    exact Nat.mod_eq_of_lt (by omega)
  let b' : CodeBuffer MachineCode := { s.buffer with
    written := fun o => if o = offset then some call.code else s.buffer.written o
    nextFreeOffset := start + call.code.length }
  have settled {r : Region} (settled : s.Settled r) : Settled { s with buffer := b' } r := by
    have stop : r.stop ≤ s.buffer.nextFreeOffset := settled.1
    exact ⟨show r.stop ≤ start + call.code.length by omega, settled.2⟩
  have complete : Settled { s with buffer := b' } ⟨start, call.code⟩ :=
    ⟨Nat.le_refl _, fun i byte source => copied i byte source (Finset.notMem_empty i)⟩
  refine inv.changes (fun t' other => inv.alone critical other) rfl rfl (fun c call => ?_)
    (fun _ => inv.mutex t critical) (by dsimp only [SharedBuffer.setPhase]; omega) inv.inside inv.disjoint
    (fun r mem => .inl ?_) (fun block published => ?_) (fun block code absent noted => ?_)
    (fun _ _ => rfl) ⟨publishes, fun zero => ?_, ?_, ?_⟩
  · rw [here]
    exact call
  · rcases inv.settled_alone critical mem with old | writes
    · exact settled old
    · rw [here] at writes
      cases writes
      exact complete
  · obtain ⟨code, first, mem, old⟩ := inv.published block published
    exact ⟨code, first, mem, settled old⟩
  · have working := inv.first_alone critical absent noted
    rw [here] at working
    exact working
  · rw [zero] at address
    have none : start = 0 := address.symm
    omega
  · rw [address]
    exact mem
  · rw [address]
    exact complete

theorem Inv.publish (inv : s.Inv) {guestAddress : Word} {code : MachineCode} {offset : BitVec 32}
    (here : s.phase t = .allocated (.insert guestAddress code) offset) :
    ({ s with buffer := { s.buffer with
        blockToOffset := fun block =>
          if block = guestAddress.toNat / 4 then offset else s.buffer.blockToOffset block } }.setPhase t
      (.unlocking (.insert guestAddress code) offset)).Inv := by
  have critical : (s.phase t).critical = true := by
    rw [here]
    rfl
  have sound := inv.phases t
  rw [here] at sound
  obtain ⟨⟨-, publishes⟩, nonzero, mem, settled⟩ := sound
  -- the block had no code since the lock was taken, so nobody's offset is replaced
  obtain ⟨absent, noted⟩ := publishes guestAddress code rfl
  refine inv.changes (fun t' other => inv.alone critical other) rfl rfl (fun c call => ?_)
    (fun _ => inv.mutex t critical) inv.reserved inv.inside inv.disjoint (fun r mem => .inl ?_)
    (fun block published => ?_) (fun block code' absent' noted' => ?_) (fun block published => ?_)
    ⟨nonzero, fun guestAddress' same => ?_⟩
  · rw [here]
    exact call
  · refine (inv.settled_alone critical mem).resolve_right fun writes => ?_
    rw [here] at writes
    cases writes
  · dsimp only [SharedBuffer.setPhase] at published ⊢
    by_cases same : block = guestAddress.toNat / 4
    · rw [if_pos same]
      exact ⟨code, same ▸ noted, mem, settled⟩
    · rw [if_neg same] at published ⊢
      exact inv.published block published
  · dsimp only [SharedBuffer.setPhase] at absent'
    by_cases same : block = guestAddress.toNat / 4
    · rw [if_pos same] at absent'
      exact absurd absent' nonzero
    · rw [if_neg same] at absent'
      obtain ⟨guestAddress', working, rfl⟩ := inv.first_alone critical absent' noted'
      rw [here] at working
      cases working
      exact absurd rfl same
  · refine if_neg fun same => ?_
    subst same
    exact published absent
  · cases same
    exact if_pos rfl

theorem Inv.unlock (inv : s.Inv) {call : Call} {offset : BitVec 32}
    (here : s.phase t = .unlocking call offset) :
    ({ s with mutex := none }.setPhase t (.returning call (some offset))).Inv := by
  have critical : (s.phase t).critical = true := by
    rw [here]
    rfl
  have sound := inv.phases t
  rw [here] at sound
  refine inv.changes (fun t' other => inv.alone critical other) rfl rfl (fun c call => ?_)
    (fun critical => by cases critical) inv.reserved inv.inside inv.disjoint (fun r mem => .inl ?_)
    inv.published (fun block code absent noted => ?_) (fun _ _ => rfl) sound
  · rw [here]
    exact call
  · refine (inv.settled_alone critical mem).resolve_right fun writes => ?_
    rw [here] at writes
    cases writes
  -- the call is past publishing, so no block without code is noted for it
  · obtain ⟨guestAddress, working, -⟩ := inv.first_alone critical absent noted
    rw [here] at working
    cases working

theorem Inv.step {e : Event Executor} (inv : s.Inv) (step : Step s e s') : s'.Inv := by
  cases step with
  | call idle admitted =>
    exact inv.setPhase (.inr ⟨_, rfl, admitted⟩) (fun critical => by cases critical)
      (by rw [idle]; rfl) (fun _ _ works => by rw [idle] at works; cases works) trivial
  | @look t guestAddress result here got =>
    have admitted := inv.admitted t (.get guestAddress) (by rw [here]; rfl)
    refine inv.setPhase (.inr ⟨_, rfl, admitted⟩) (fun critical => by cases critical)
      (by rw [here]; rfl) (fun _ _ works => by rw [here] at works; cases works) ?_
    cases result with
    | none => trivial
    | some offset =>
      obtain ⟨same, nonzero⟩ := CodeBuffer.get_eq_some got
      exact ⟨nonzero, fun _ address => by cases address; exact same.symm⟩
  | lock here free => exact inv.lock here free
  | @found t guestAddress code offset here got =>
    have admitted := inv.admitted t (.insert guestAddress code) (by rw [here]; rfl)
    obtain ⟨same, nonzero⟩ := CodeBuffer.get_eq_some got
    refine inv.setPhase (.inr ⟨_, rfl, admitted⟩) (fun _ => inv.mutex t (by rw [here]; rfl))
      (by rw [here]; rfl) (fun _ _ works absent => ?_)
      ⟨nonzero, fun _ address => by cases address; exact same.symm⟩
    rw [here] at works
    cases works
    exact absurd (same.trans absent) nonzero
  -- the miss was seen under the lock, so nobody publishes before this call does
  | @missed t guestAddress code here got =>
    have admitted := inv.admitted t (.insert guestAddress code) (by rw [here]; rfl)
    have sound := inv.phases t
    rw [here] at sound
    rw [CodeBuffer.get_of_admits admitted.1] at got
    have absent : s.buffer.blockToOffset (guestAddress.toNat / 4) = 0 := by
      by_contra present
      rw [if_pos present] at got
      cases got
    refine inv.setPhase (.inr ⟨_, rfl, admitted⟩) (fun _ => inv.mutex t (by rw [here]; rfl))
      (by rw [here]; rfl) (fun _ _ works _ => ?_) ⟨admitted.2, fun _ _ same => ?_⟩
    · rw [here] at works
      exact works
    · cases same
      exact ⟨absent, sound _ _ rfl absent⟩
  -- standalone code belongs to no block: nothing is noted and nothing gets published
  | @lockStandalone t code here free =>
    have admitted := inv.admitted t (.insertStandalone code) (by rw [here]; rfl)
    refine inv.changes (fun t' _ => inv.nobody free t') rfl rfl (fun c call => ?_) (fun _ => rfl)
      inv.reserved inv.inside inv.disjoint (fun r mem => .inl (inv.settled_free free mem)) inv.published
      (fun block code absent noted => ?_) (fun _ _ => rfl) ⟨admitted, fun _ _ same => by cases same⟩
    · rw [here]
      exact call
    · cases (inv.first_free free absent).symm.trans noted
  | allocate here aligned fits => exact inv.allocate here aligned fits
  | copy here left source => exact inv.copy here source
  | advance here truncated => exact inv.advance here truncated
  | publish here => exact inv.publish here
  | @keep t code offset here =>
    have admitted := inv.admitted t (.insertStandalone code) (by rw [here]; rfl)
    have sound := inv.phases t
    rw [here] at sound
    refine inv.setPhase (.inr ⟨_, rfl, admitted⟩) (fun _ => inv.mutex t (by rw [here]; rfl))
      (by rw [here]; rfl) (fun _ _ works => ?_) ⟨sound.2.1, fun _ address => by cases address⟩
    rw [here] at works
    cases works
  | unlock here => exact inv.unlock here
  | finish here =>
    exact inv.setPhase (.inl rfl) (fun critical => by cases critical) (by rw [here]; rfl)
      (fun _ _ works => by rw [here] at works; cases works) trivial

end Steps

end SharedBuffer

end Riscv64Emulator.Jit
