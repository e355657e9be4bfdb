import Riscv64Emulator.Vm.Memory

/-!
# Calls of the memory

The six operations of `Memory`, called with any address and size: which bytes of the two
tables a call touches and when its range test is exact, and what a history of calls has
left in the memory.
-/
namespace Riscv64Emulator

/-- The operations, with what they take besides an address and a size. Data to write is what
a pointer points to. -/
inductive MemoryOperation where
  | read
  | write (data : Nat → Byte)
  | readChecked (requiredFlags : MemoryFlags)
  | writeChecked (requiredFlags : MemoryFlags) (data : Nat → Byte)
  | verifyPermissions (requiredFlags : MemoryFlags)
  | setPermissions (flags : MemoryFlags)

structure MemoryCall where
  operation : MemoryOperation
  address : Word
  size : Word

/-- The permissions a call asks for. -/
def MemoryOperation.requiredFlags : MemoryOperation → MemoryFlags
  | .readChecked flags | .writeChecked flags _ | .verifyPermissions flags => flags
  | .read | .write _ | .setPermissions _ => MemoryFlags.none

/-- The calls that copy bytes out. -/
def MemoryOperation.reads : MemoryOperation → Bool
  | .read | .readChecked _ => true
  | _ => false

/-- The bytes a call copies in. -/
def MemoryOperation.written : MemoryOperation → Option (Nat → Byte)
  | .write data | .writeChecked _ data => some data
  | _ => none

/-- The permissions a call gives. -/
def MemoryOperation.given : MemoryOperation → Option MemoryFlags
  | .setPermissions flags => some flags
  | _ => none

/-- A position inside the range of a call. -/
def MemoryCall.covers (c : MemoryCall) (i : Nat) : Bool :=
  c.address.toNat ≤ i && i < c.address.toNat + c.size.toNat

namespace Memory

/-- What a call returns, and the bytes it has copied out. -/
abbrev Answer := Bool × List Byte

def answerRead (m : Memory) : Option (List Byte) → Answer × Memory
  | some data => ((true, data), m)
  | none => ((false, []), m)

def answerWrite (m : Memory) : Option Memory → Answer × Memory
  | some m' => ((true, []), m')
  | none => ((false, []), m)

/-- One call. -/
def call (m : Memory) (c : MemoryCall) : Answer × Memory :=
  match c.operation with
  | .read => m.answerRead (m.read c.address c.size)
  | .write data => m.answerWrite (m.write c.address (bytesAt data 0 c.size.toNat))
  | .readChecked flags => m.answerRead (m.readChecked c.address flags c.size)
  | .writeChecked flags data =>
    m.answerWrite (m.writeChecked c.address flags (bytesAt data 0 c.size.toNat))
  | .verifyPermissions flags => ((m.verifyPermissions c.address c.size flags, []), m)
  | .setPermissions flags => m.answerWrite (m.setPermissions c.address c.size flags)

/-! ### The bytes a call touches -/

/-- A byte of the contents or of the permission table. -/
inductive Place where
  | contents (index : Nat)
  | permissions (index : Nat)
deriving DecidableEq

def Place.index : Place → Nat
  | .contents index | .permissions index => index

/-- Where a place lies in the allocation. -/
def Place.offset (m : Memory) : Place → Nat
  | .contents index => index
  | .permissions index => m.permissionsOffset + index

/-- What the loop of `verify_permissions` looks at: it stops at the first byte without the
flags. -/
def scanned (m : Memory) (requiredFlags : MemoryFlags) : Nat → Nat → List Place
  | _, 0 => []
  | i, n + 1 =>
    .permissions i ::
      if m.permissions i &&& requiredFlags = requiredFlags then m.scanned requiredFlags (i + 1) n
      else []

/-- The places a call reads or writes. -/
def touched (m : Memory) (c : MemoryCall) : List Place :=
  let range (place : Nat → Place) : List Place :=
    (List.range c.size.toNat).map fun i => place (c.address.toNat + i)
  let scan (flags : MemoryFlags) : List Place := m.scanned flags c.address.toNat c.size.toNat
  let checked (flags : MemoryFlags) : List Place :=
    scan flags ++ if m.verifyPermissions c.address c.size flags then range .contents else []
  if m.outOfRange c.address c.size then []
  else
    match c.operation with
    | .read | .write _ => range .contents
    | .readChecked flags | .writeChecked flags _ => checked flags
    | .verifyPermissions flags => scan flags
    | .setPermissions _ => range .permissions

/-- The range test lets exactly the ranges inside the memory pass. -/
def RangeExact (m : Memory) (c : MemoryCall) : Prop :=
  m.outOfRange c.address c.size = false ↔ c.address.toNat + c.size.toNat ≤ m.size.toNat

/-- The call stays inside the memory. -/
def Confined (m : Memory) (c : MemoryCall) : Prop := ∀ p ∈ m.touched c, p.index < m.size.toNat

section Touched

variable {m : Memory} {c : MemoryCall}

theorem scanned_index {flags : MemoryFlags} {start n : Nat} {p : Place}
    (member : p ∈ m.scanned flags start n) : ∃ i < n, p = .permissions (start + i) := by
  induction n generalizing start with
  | zero => cases member
  | succ n ih =>
    unfold scanned at member
    rcases List.mem_cons.mp member with rfl | later
    · exact ⟨0, Nat.succ_pos n, rfl⟩
    · split at later
      · obtain ⟨i, below, rfl⟩ := ih later
        exact ⟨i + 1, Nat.succ_lt_succ below, by rw [Nat.add_assoc, Nat.add_comm 1 i]⟩
      · cases later

/-- What a call touches lies in its range. -/
theorem touched_index {p : Place} (member : p ∈ m.touched c) :
    ∃ i < c.size.toNat, p.index = c.address.toNat + i := by
  -- contents or permissions over the whole range
  have range {place : Nat → Place} (index : ∀ i, (place i).index = i)
      (member : p ∈ (List.range c.size.toNat).map fun i => place (c.address.toNat + i)) :
      ∃ i < c.size.toNat, p.index = c.address.toNat + i := by
    obtain ⟨i, below, rfl⟩ := List.mem_map.mp member
    exact ⟨i, List.mem_range.mp below, index _⟩
  have scan {flags : MemoryFlags} (member : p ∈ m.scanned flags c.address.toNat c.size.toNat) :
      ∃ i < c.size.toNat, p.index = c.address.toNat + i := by
    obtain ⟨i, below, rfl⟩ := scanned_index member
    exact ⟨i, below, rfl⟩
  -- a checked access scans the permissions first, and touches the contents if they grant
  have checked {flags : MemoryFlags} (member : p ∈ m.scanned flags c.address.toNat c.size.toNat ++
      if m.verifyPermissions c.address c.size flags then
        (List.range c.size.toNat).map fun i => Place.contents (c.address.toNat + i)
      else []) : ∃ i < c.size.toNat, p.index = c.address.toNat + i := by
    rcases List.mem_append.mp member with member | member
    · exact scan member
    · split at member
      · exact range (fun _ => rfl) member
      · cases member
  unfold touched at member
  split at member
  · cases member
  · cases operation : c.operation with
    | read | write =>
      simp only [operation] at member
      exact range (fun _ => rfl) member
    | readChecked | writeChecked =>
      simp only [operation] at member
      exact checked member
    | verifyPermissions =>
      simp only [operation] at member
      exact scan member
    | setPermissions =>
      simp only [operation] at member
      exact range (fun _ => rfl) member

theorem touched_of_outOfRange (refused : m.outOfRange c.address c.size = true) :
    m.touched c = [] := by
  unfold touched
  rw [if_pos refused]

/-- The sum of a range that goes on behind the end of the address space is small. -/
theorem outOfRange_of_wraps (below : c.address.toNat ≤ m.size.toNat)
    (wraps : 2 ^ 64 ≤ c.address.toNat + c.size.toNat) : m.outOfRange c.address c.size = false := by
  have address := c.address.isLt
  have size := c.size.isLt
  have sum : (c.address + c.size).toNat = c.address.toNat + c.size.toNat - 2 ^ 64 := by
    rw [BitVec.toNat_add]
    omega
  simp only [outOfRange, Bool.or_eq_false_iff, decide_eq_false_iff_not, BitVec.lt_def, sum]
  omega

/-- The range test of all six operations is exact, and the call stays inside the memory,
unless the range starts inside the memory and goes on behind the end of the address space. -/
theorem rangeTest_exact_iff (m : Memory) (c : MemoryCall) :
    m.RangeExact c ∧ m.Confined c ↔
      ¬(c.address.toNat ≤ m.size.toNat ∧ 2 ^ 64 ≤ c.address.toNat + c.size.toNat) := by
  have bound := m.size.isLt
  constructor
  · rintro ⟨exact', -⟩ ⟨below, wraps⟩
    have inside := exact'.mp (outOfRange_of_wraps below wraps)
    omega
  · intro straight
    have exact' : m.RangeExact c := by
      -- a sum that wraps is still refused when the address alone is past the end
      by_cases small : c.address.toNat + c.size.toNat < 2 ^ 64
      · exact outOfRange_eq_false small
      · have above : m.size.toNat < c.address.toNat := by omega
        have refused : m.outOfRange c.address c.size = true := by
          unfold outOfRange
          rw [Bool.or_eq_true, decide_eq_true_eq, BitVec.lt_def]
          exact .inl above
        unfold RangeExact
        rw [refused]
        exact ⟨fun same => (by cases same), fun inside => by omega⟩
    refine ⟨exact', fun p member => ?_⟩
    cases range : m.outOfRange c.address c.size with
    | true =>
      rw [touched_of_outOfRange range] at member
      cases member
    | false =>
      have inside := exact'.mp range
      obtain ⟨i, below, index⟩ := touched_index member
      omega

/-- `set_permissions` of everything from byte 16 to the end of the address space is let pass
by a memory of 32 MiB, as the loader may ask for. -/
theorem rangeTest_wraps : ¬∀ (m : Memory) (c : MemoryCall), m.RangeExact c ∧ m.Confined c := fun claim => by
  have exact' := (claim (create 0x2000000 (by decide))
    ⟨.setPermissions MemoryFlags.read, 16, 0xfffffffffffffff0⟩).1
  exact absurd (exact'.mp (by decide)) (by decide)

/-! ### What a call does -/

theorem answerRead_snd (m : Memory) (result : Option (List Byte)) : (m.answerRead result).2 = m := by
  cases result <;> rfl

/-- A call changes nothing but what it touches. -/
theorem call_frame {j : Nat} (changed : (m.call c).2.allocation j ≠ m.allocation j) :
    ∃ p ∈ m.touched c, p.offset m = j := by
  -- what `overwrite` changed lies in the range it was given
  have inside {f : Nat → Byte} {start : Nat} {data : List Byte} (differ : overwrite f start data j ≠ f j) :
      start ≤ j ∧ j < start + data.length := by
    by_contra outside
    exact differ (overwrite_outside _ _ _ _ (by omega))
  cases operation : c.operation with
  | read | readChecked | verifyPermissions =>
    simp only [call, operation, answerRead_snd, ne_eq, not_true_eq_false] at changed
  | write data =>
    simp only [call, operation, write, length_bytesAt, BitVec.ofNat_toNat, BitVec.setWidth_eq] at changed
    cases range : m.outOfRange c.address c.size with
    | true => simp [range, answerWrite] at changed
    | false =>
      simp only [range, Bool.false_eq_true, if_false, answerWrite] at changed
      obtain ⟨above, below⟩ := inside changed
      rw [length_bytesAt] at below
      refine ⟨.contents j, ?_, rfl⟩
      simp only [touched, range, operation, Bool.false_eq_true, if_false, List.mem_map, List.mem_range]
      exact ⟨j - c.address.toNat, by omega, by rw [Nat.add_sub_cancel' above]⟩
  | writeChecked flags data =>
    simp only [call, operation, writeChecked_eq, length_bytesAt, BitVec.ofNat_toNat,
      BitVec.setWidth_eq] at changed
    cases verified : m.verifyPermissions c.address c.size flags with
    | false => simp [verified, answerWrite] at changed
    | true =>
      simp only [verified, if_true, answerWrite] at changed
      obtain ⟨above, below⟩ := inside changed
      rw [length_bytesAt] at below
      refine ⟨.contents j, ?_, rfl⟩
      simp only [touched, (verifyPermissions_iff.mp verified).1, operation, verified,
        Bool.false_eq_true, if_false, if_true, List.mem_append, List.mem_map, List.mem_range]
      exact .inr ⟨j - c.address.toNat, by omega, by rw [Nat.add_sub_cancel' above]⟩
  | setPermissions flags =>
    simp only [call, operation, setPermissions] at changed
    cases range : m.outOfRange c.address c.size with
    | true => simp [range, answerWrite] at changed
    | false =>
      simp only [range, Bool.false_eq_true, if_false, answerWrite] at changed
      obtain ⟨above, below⟩ := inside changed
      rw [List.length_replicate] at below
      refine ⟨.permissions (j - m.permissionsOffset), ?_, ?_⟩
      · simp only [touched, range, operation, Bool.false_eq_true, if_false, List.mem_map,
          List.mem_range]
        exact ⟨j - m.permissionsOffset - c.address.toNat, by omega, by congr 1; omega⟩
      · show m.permissionsOffset + (j - m.permissionsOffset) = j
        omega

end Touched

/-! ### Histories of calls -/

/-- A call that was made, and whether it succeeded. -/
structure Event where
  call : MemoryCall
  succeeded : Bool

/-- The last byte successfully written at a position; the latest call comes first. -/
def lastWritten : List Event → Nat → Byte
  | [], _ => 0
  | e :: earlier, i =>
    match e.call.operation.written with
    | some data =>
      if e.succeeded && e.call.covers i then data (i - e.call.address.toNat)
      else lastWritten earlier i
    | none => lastWritten earlier i

/-- The permissions last successfully set for a position. -/
def lastSet : List Event → Nat → MemoryFlags
  | [], _ => MemoryFlags.none
  | e :: earlier, i =>
    match e.call.operation.given with
    | some flags => if e.succeeded && e.call.covers i then flags else lastSet earlier i
    | none => lastSet earlier i

/-- The memories that calls make of a new one, with their history. -/
inductive Recorded : List Event → Memory → Prop
  | create (size : Word) (size_lt : size.toNat + 7 < 2 ^ 64) : Recorded [] (create size size_lt)
  | call {history : List Event} {m : Memory} (c : MemoryCall) (before : Recorded history m)
      (straight : c.address.toNat + c.size.toNat < 2 ^ 64) :
      Recorded (⟨c, (m.call c).1.1⟩ :: history) (m.call c).2

/-- A call in bounds, with the permissions it asks for last set for every byte of its range. -/
def Accepts (size : Word) (history : List Event) (c : MemoryCall) : Prop :=
  c.address.toNat + c.size.toNat ≤ size.toNat ∧ ∀ i < c.size.toNat,
    lastSet history (c.address.toNat + i) &&& c.operation.requiredFlags = c.operation.requiredFlags

/-- What a call does behind a history. -/
structure Faithful (m : Memory) (history : List Event) (c : MemoryCall) : Prop where
  succeeds : (m.call c).1.1 = true ↔ Accepts m.size history c
  reads : (m.call c).1.1 = true → c.operation.reads = true →
    (m.call c).1.2 = (List.range c.size.toNat).map fun i => lastWritten history (c.address.toNat + i)
  permissions : c.operation.given = none → ∀ i, (m.call c).2.permissions i = m.permissions i
  contents : c.operation.written = none → ∀ i < m.permissionsOffset,
    (m.call c).2.contents i = m.contents i
  padding : ∀ i, m.size.toNat ≤ i → (m.call c).2.permissions i = MemoryFlags.none
  failed : (m.call c).1.1 = false → (m.call c).2 = m

/-- The memory is what its history says. -/
structure Records (history : List Event) (m : Memory) : Prop where
  contents : ∀ i < m.size.toNat, m.contents i = lastWritten history i
  permissions : ∀ i < m.size.toNat, m.permissions i = lastSet history i
  padding : m.PaddingClear

section Histories

variable {m : Memory} {history : List Event} {c : MemoryCall}

/-- The memory behind a call that succeeds. -/
def altered (m : Memory) (c : MemoryCall) : Memory :=
  match c.operation with
  | .write data | .writeChecked _ data =>
    { m with allocation := overwrite m.allocation c.address.toNat (bytesAt data 0 c.size.toNat) }
  | .setPermissions flags =>
    let start := m.permissionsOffset + c.address.toNat
    { m with allocation := overwrite m.allocation start (List.replicate c.size.toNat flags) }
  | _ => m

/-- The range of a call is in bounds and grants what the call asks for. -/
def Allows (m : Memory) (c : MemoryCall) : Prop :=
  c.address.toNat + c.size.toNat ≤ m.size.toNat ∧ ∀ i < c.size.toNat,
    m.permissions (c.address.toNat + i) &&& c.operation.requiredFlags = c.operation.requiredFlags

/-- The test an operation makes: of the range, or of the permissions too. -/
def passes (m : Memory) (c : MemoryCall) : Bool :=
  match c.operation with
  | .readChecked flags | .writeChecked flags _ | .verifyPermissions flags =>
    m.verifyPermissions c.address c.size flags
  | .read | .write _ | .setPermissions _ => !m.outOfRange c.address c.size

theorem call_eq (m : Memory) (c : MemoryCall) :
    m.call c = if m.passes c then
        ((true, if c.operation.reads then bytesAt m.allocation c.address.toNat c.size.toNat else []),
          m.altered c)
      else ((false, []), m) := by
  unfold call passes altered
  -- each call makes one test, and then all of its work or none
  cases operation : c.operation <;> dsimp only [MemoryOperation.reads]
  case read =>
    unfold read
    cases m.outOfRange c.address c.size <;> rfl
  case write data =>
    unfold write
    rw [length_bytesAt, BitVec.ofNat_toNat, BitVec.setWidth_eq]
    cases m.outOfRange c.address c.size <;> rfl
  case readChecked flags =>
    rw [readChecked_eq]
    by_cases verified : m.verifyPermissions c.address c.size flags = true
    · rw [if_pos verified, if_pos verified]
      rfl
    · rw [if_neg verified, if_neg verified]
      rfl
  case writeChecked flags data =>
    rw [writeChecked_eq, length_bytesAt, BitVec.ofNat_toNat, BitVec.setWidth_eq]
    by_cases verified : m.verifyPermissions c.address c.size flags = true
    · rw [if_pos verified, if_pos verified]
      rfl
    · rw [if_neg verified, if_neg verified]
      rfl
  case verifyPermissions flags =>
    by_cases verified : m.verifyPermissions c.address c.size flags = true
    · rw [if_pos verified, verified]
      rfl
    · rw [if_neg verified, Bool.eq_false_iff.mpr verified]
  case setPermissions flags =>
    unfold setPermissions
    cases m.outOfRange c.address c.size <;> rfl

theorem passes_iff (m : Memory) (c : MemoryCall) (straight : c.address.toNat + c.size.toNat < 2 ^ 64) :
    m.passes c = true ↔ m.Allows c := by
  have range := outOfRange_eq_false (m := m) straight
  unfold passes Allows
  cases operation : c.operation <;> dsimp only [MemoryOperation.requiredFlags]
  case read | write | setPermissions =>
    rw [Bool.not_eq_true', range]
    exact ⟨fun inside => ⟨inside, fun _ _ => BitVec.and_zero⟩, And.left⟩
  all_goals rw [verifyPermissions_iff, range]

theorem call_allowed (straight : c.address.toNat + c.size.toNat < 2 ^ 64) (allows : m.Allows c) :
    m.call c = ((true, if c.operation.reads then bytesAt m.allocation c.address.toNat c.size.toNat
      else []), m.altered c) := by
  rw [call_eq, if_pos ((passes_iff m c straight).mpr allows)]

theorem call_refused (straight : c.address.toNat + c.size.toNat < 2 ^ 64) (refuses : ¬m.Allows c) :
    m.call c = ((false, []), m) := by
  rw [call_eq, if_neg fun passed => refuses ((passes_iff m c straight).mp passed)]

theorem altered_size (m : Memory) (c : MemoryCall) : (m.altered c).size = m.size := by
  unfold altered
  cases c.operation <;> rfl

/-- The contents behind a call, up to the permission table. -/
theorem altered_contents (m : Memory) (c : MemoryCall) {i : Nat} (low : i < m.permissionsOffset) :
    (m.altered c).contents i = match c.operation.written with
      | some data => if c.covers i then data (i - c.address.toNat) else m.contents i
      | none => m.contents i := by
  unfold altered contents
  cases operation : c.operation <;> dsimp only [MemoryOperation.written]
  case write | writeChecked =>
    rw [overwrite_bytesAt]
    simp only [MemoryCall.covers, Bool.and_eq_true, decide_eq_true_eq, Nat.zero_add]
  case setPermissions => exact overwrite_outside _ _ _ _ (.inl (by omega))

/-- The permissions behind a call in bounds. -/
theorem altered_permissions (m : Memory) (c : MemoryCall) (i : Nat)
    (inside : c.address.toNat + c.size.toNat ≤ m.size.toNat) :
    (m.altered c).permissions i = match c.operation.given with
      | some flags => if c.covers i then flags else m.permissions i
      | none => m.permissions i := by
  unfold altered
  cases operation : c.operation <;> dsimp only [MemoryOperation.given]
  -- contents and permissions do not overlap in the allocation
  case write | writeChecked =>
    exact permissions_overwrite m _ _ (by rw [length_bytesAt]; exact inside) i
  case setPermissions flags =>
    show overwrite m.allocation (m.permissionsOffset + c.address.toNat)
      (List.replicate c.size.toNat flags) (m.permissionsOffset + i) = _
    rw [overwrite_replicate]
    simp only [MemoryCall.covers, Bool.and_eq_true, decide_eq_true_eq]
    refine if_congr ?_ rfl rfl
    omega

/-- One call keeps the memory what its history says. -/
theorem Records.call (records : Records history m) (straight : c.address.toNat + c.size.toNat < 2 ^ 64) :
    Records (⟨c, (m.call c).1.1⟩ :: history) (m.call c).2 := by
  -- an allowed call becomes the latest entry for its range, a refused one changes nothing
  by_cases allows : m.Allows c
  · rw [call_allowed straight allows]
    have half := m.size_le_permissionsOffset
    refine ⟨fun i inside => ?_, fun i inside => ?_, fun i past => ?_⟩
    · rw [altered_size] at inside
      rw [altered_contents m c (by omega), records.contents i inside, lastWritten]
      cases c.operation.written <;> rfl
    · rw [altered_size] at inside
      rw [altered_permissions m c i allows.1, records.permissions i inside, lastSet]
      cases c.operation.given <;> rfl
    · rw [altered_size] at past
      have outside : c.covers i = false := by
        have below := allows.1
        simp only [MemoryCall.covers, Bool.and_eq_false_iff, decide_eq_false_iff_not]
        omega
      rw [altered_permissions m c i allows.1, outside, records.padding i past]
      cases c.operation.given <;> rfl
  · rw [call_refused straight allows]
    refine ⟨fun i inside => ?_, fun i inside => ?_, records.padding⟩
    · rw [records.contents i inside, lastWritten]
      cases c.operation.written <;> rfl
    · rw [records.permissions i inside, lastSet]
      cases c.operation.given <;> rfl

theorem Recorded.records (recorded : Recorded history m) : Records history m := by
  induction recorded with
  | create size size_lt => exact ⟨fun _ _ => rfl, fun _ _ => rfl, fun _ _ => rfl⟩
  | call c before straight ih => exact ih.call straight

theorem Records.accepts_iff (records : Records history m) :
    m.Allows c ↔ Accepts m.size history c := by
  unfold Allows Accepts
  refine and_congr_right fun inside => forall_congr' fun i => forall_congr' fun below => ?_
  rw [records.permissions _ (by omega)]

/-- In every history of calls that do not wrap, every call does what the history says. -/
theorem recorded_faithful (recorded : Recorded history m) (c : MemoryCall)
    (straight : c.address.toNat + c.size.toNat < 2 ^ 64) : m.Faithful history c := by
  have records := recorded.records
  have padding := (records.call straight).padding
  have half := m.size_le_permissionsOffset
  -- the history accepts a call exactly when the memory allows it
  by_cases allows : m.Allows c
  · have result := call_allowed straight allows
    rw [result] at padding
    constructor <;> rw [result]
    case succeeds => exact iff_of_true rfl (records.accepts_iff.mp allows)
    case reads =>
      intro _ reads
      dsimp only
      rw [if_pos reads]
      refine List.map_congr_left fun i member => ?_
      have below := List.mem_range.mp member
      have inside := allows.1
      exact records.contents _ (by omega)
    case permissions =>
      intro none i
      rw [altered_permissions m c i allows.1, none]
    case contents =>
      intro none i low
      rw [altered_contents m c low, none]
    case padding => exact fun i past => padding i (by rw [altered_size]; exact past)
    case failed => exact fun same => by cases same
  · have result := call_refused straight allows
    constructor <;> rw [result]
    case succeeds =>
      exact iff_of_false Bool.false_ne_true fun accepts => allows (records.accepts_iff.mpr accepts)
    case reads => exact fun same => by cases same
    case permissions => exact fun _ _ => rfl
    case contents => exact fun _ _ _ => rfl
    case padding => exact records.padding
    case failed => exact fun _ => rfl

/-- Write permission for three bytes, a write of two of them and a checked read of three. -/
theorem recorded_faithful_read : ∃ (m : Memory) (history : List Event) (c : MemoryCall),
    history.length = 2 ∧ c.operation.reads = true ∧ m.Faithful history c := by
  let grant : MemoryCall := ⟨.setPermissions (MemoryFlags.read ||| MemoryFlags.write), 4, 3⟩
  let store : MemoryCall := ⟨.writeChecked MemoryFlags.write (fun i => BitVec.ofNat 8 (i + 1)), 4, 2⟩
  have granted := Recorded.call grant (.create 12 (by decide)) (by decide)
  have stored := granted.call store (by decide)
  exact ⟨_, _, ⟨.readChecked MemoryFlags.read, 4, 3⟩, rfl, rfl,
    recorded_faithful stored _ (by decide)⟩

end Histories

end Memory

end Riscv64Emulator
