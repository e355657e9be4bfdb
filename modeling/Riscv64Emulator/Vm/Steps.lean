import Riscv64Emulator.Vm.Encoding
import Riscv64Emulator.Vm.MulDiv
import Mathlib.Logic.Relation

/-!
# Steps and runs of the interpreter

What one call of `Interpreter::step` can do, said once: the ways an instruction retires
and the ways it stops. From it, what faults leave behind and what runs of any length keep.
-/
namespace Riscv64Emulator.Interpreter

/-! ### Loads and stores -/

/-- The bytes a load reads. -/
def loadWidth : InstructionType → Option Nat
  | .lb | .lbu => some 1
  | .lh | .lhu => some 2
  | .lw | .lwu => some 4
  | .ld => some 8
  | _ => none

/-- The bytes a store writes. -/
def storeWidth : InstructionType → Option Nat
  | .sb => some 1
  | .sh => some 2
  | .sw => some 4
  | .sd => some 8
  | _ => none

/-- The value a load makes of the number it has read. -/
def extendRead (type : InstructionType) (n : Nat) (v : Word) : Word :=
  match type with
  | .lb | .lh | .lw | .ld => (v.setWidth (8 * n)).signExtend 64
  | _ => v

theorem loadWidth_le {type : InstructionType} {n : Nat} (width : loadWidth type = some n) :
    0 < n ∧ n ≤ 8 := by
  cases type <;> simp only [loadWidth, reduceCtorEq, Option.some.injEq] at width <;> omega

theorem storeWidth_le {type : InstructionType} {n : Nat} (width : storeWidth type = some n) :
    0 < n ∧ n ≤ 8 := by
  cases type <;> simp only [storeWidth, reduceCtorEq, Option.some.injEq] at width <;> omega

theorem loadResult_eq {type : InstructionType} {n : Nat} (width : loadWidth type = some n)
    (m : Memory) (address : Word) :
    loadResult type m address
      = .ok ((m.readT n address MemoryFlags.read).map (extendRead type n)) := by
  cases type <;> simp only [loadWidth, reduceCtorEq, Option.some.injEq] at width <;> subst width <;>
    simp only [loadResult, Except.ok.injEq] <;>
    cases m.readT _ address MemoryFlags.read <;> simp [extendRead]

theorem storeResult_eq {type : InstructionType} {n : Nat} (width : storeWidth type = some n)
    (m : Memory) (address value : Word) :
    storeResult type m address value = .ok (m.writeT n address MemoryFlags.write value) := by
  cases type <;> simp only [storeWidth, reduceCtorEq, Option.some.injEq] at width <;>
    subst width <;> rfl

/-- The address of a load or store. -/
def accessAddress (s : VmState) (i : Instruction) : Word := s.cpu.get i.rs1 + i.imm

theorem execute_load {s : VmState} {i : Instruction} {n : Nat} (pc : Word)
    (width : loadWidth i.type = some n) :
    execute s pc i = match s.memory.readT n (accessAddress s i) MemoryFlags.read with
      | some v =>
        let cpu := s.cpu.set i.rd (extendRead i.type n v)
        .ok (true, { s with cpu := cpu.set Register.pc (pc + 4) })
      | none => .ok (false, { s with exit := ⟨.memoryReadFault, accessAddress s i, i.rd⟩ }) := by
  have result := loadResult_eq width s.memory (accessAddress s i)
  unfold accessAddress at *
  unfold execute
  cases type : i.type <;> simp only [type, loadWidth, reduceCtorEq] at width result ⊢ <;>
    · rw [result]
      cases s.memory.readT n (s.cpu.get i.rs1 + i.imm) MemoryFlags.read <;> rfl

theorem execute_store {s : VmState} {i : Instruction} {n : Nat} (pc : Word)
    (width : storeWidth i.type = some n) :
    execute s pc i =
      match s.memory.writeT n (accessAddress s i) MemoryFlags.write (s.cpu.get i.rs2) with
      | some memory => .ok (true, { s with memory, cpu := s.cpu.set Register.pc (pc + 4) })
      | none => .ok (false, { s with exit := ⟨.memoryWriteFault, accessAddress s i, i.rs2⟩ }) := by
  have result := storeResult_eq width s.memory (accessAddress s i) (s.cpu.get i.rs2)
  unfold accessAddress at *
  unfold execute
  cases type : i.type <;> simp only [type, storeWidth, reduceCtorEq] at width result ⊢ <;>
    · rw [result]
      cases s.memory.writeT n (s.cpu.get i.rs1 + i.imm) MemoryFlags.write (s.cpu.get i.rs2) <;> rfl

/-! ### What a step can do -/

/-- The instructions with a target relative to the pc. -/
def relativeTarget : InstructionType → Bool
  | .jal | .beq | .bne | .blt | .bge | .bltu | .bgeu => true
  | _ => false

/-- The state after a taken branch or a jump. -/
def jump (s : VmState) (cpu : Cpu) (target : Word) : VmState :=
  { s with cpu := cpu.set Register.pc target }

theorem loadWidth_store {type : InstructionType} {n : Nat} (width : storeWidth type = some n) :
    loadWidth type = none := by
  cases type <;> first | rfl | exact absurd width (by simp [storeWidth])

theorem loadWidth_relative {type : InstructionType} (kind : relativeTarget type = true) :
    loadWidth type = none := by
  cases type <;> first | rfl | exact absurd kind (by decide)

/-- The states an instruction can retire in, from `s`. -/
inductive Retired (s : VmState) (i : Instruction) : VmState → Prop
  | computed (v : Word) (kind : loadWidth i.type = none) : Retired s i (retire s (s.cpu.set i.rd v))
  | unchanged (kind : loadWidth i.type = none) : Retired s i (retire s s.cpu)
  | loaded {n : Nat} {v : Word} (width : loadWidth i.type = some n)
      (read : s.memory.readT n (accessAddress s i) MemoryFlags.read = some v) :
      Retired s i (retire s (s.cpu.set i.rd (extendRead i.type n v)))
  | stored {n : Nat} {memory : Memory} (width : storeWidth i.type = some n)
      (written : s.memory.writeT n (accessAddress s i) MemoryFlags.write (s.cpu.get i.rs2)
        = some memory) :
      Retired s i { retire s s.cpu with memory }
  | branched (kind : relativeTarget i.type = true) :
      Retired s i (jump s s.cpu (s.cpu.pc + i.imm))
  | jumped (kind : relativeTarget i.type = true) :
      Retired s i (jump s (s.cpu.set i.rd (s.cpu.pc + 4)) (s.cpu.pc + i.imm))
  | jumpedIndirect (kind : i.type = .jalr) :
      Retired s i (jump s (s.cpu.set i.rd (s.cpu.pc + 4)) (accessAddress s i &&& ~~~1))

/-- The exits an instruction can stop with. -/
inductive Stopped (s : VmState) (i : Instruction) : Exit → Prop
  | readFault {n : Nat} (width : loadWidth i.type = some n)
      (refused : s.memory.readT n (accessAddress s i) MemoryFlags.read = none) :
      Stopped s i ⟨.memoryReadFault, accessAddress s i, i.rd⟩
  | writeFault {n : Nat} (width : storeWidth i.type = some n)
      (refused : s.memory.writeT n (accessAddress s i) MemoryFlags.write (s.cpu.get i.rs2) = none) :
      Stopped s i ⟨.memoryWriteFault, accessAddress s i, i.rs2⟩
  | ecall (kind : i.type = .ecall) : Stopped s i { s.exit with reason := .ecall }
  | ebreak (kind : i.type = .ebreak) : Stopped s i { s.exit with reason := .ebreak }
  | undefined (kind : i.type = .undefined) :
      Stopped s i { s.exit with reason := .undefinedInstruction }

/-- An instruction retires, stops, or has no result. -/
inductive Executed (s : VmState) (i : Instruction) : Except Abort (Bool × VmState) → Prop
  | retired {t : VmState} (after : Retired s i t) : Executed s i (.ok (true, t))
  | stopped {e : Exit} (after : Stopped s i e) : Executed s i (.ok (false, { s with exit := e }))
  | multiplyHigh (kind : i.type = .mulh ∨ i.type = .mulhu ∨ i.type = .mulhsu) :
      Executed s i (.error (.fatalError "multiply high instructions are not supported"))
  | divided (kind : multiplies i.type = true)
      (undefined : ¬Defined i.type (s.cpu.get i.rs1) (s.cpu.get i.rs2)) :
      Executed s i (.error .undefinedBehaviour)

/-- The conditional branches. -/
def branches : InstructionType → Bool
  | .beq | .bne | .blt | .bge | .bltu | .bgeu => true
  | _ => false

theorem execute_branch {i : Instruction} (kind : branches i.type = true) (s : VmState) (pc : Word) :
    ∃ taken, branchTaken i.type (s.cpu.get i.rs1) (s.cpu.get i.rs2) = .ok taken ∧
      execute s pc i = .ok (true, jump s s.cpu (if taken then pc + i.imm else pc + 4)) := by
  unfold execute
  cases type : i.type <;> first | exact absurd (type ▸ kind) (by decide) | exact ⟨_, rfl, rfl⟩

theorem execute_jump {i : Instruction} (kind : i.type = .jal) (s : VmState) (pc : Word) :
    execute s pc i = .ok (true, jump s (s.cpu.set i.rd (pc + 4)) (pc + i.imm)) := by
  simp only [execute, kind, jump]

theorem execute_jumpIndirect {i : Instruction} (kind : i.type = .jalr) (s : VmState) (pc : Word) :
    execute s pc i
      = .ok (true, jump s (s.cpu.set i.rd (pc + 4)) (accessAddress s i &&& ~~~1)) := by
  simp only [execute, kind, jump, accessAddress]

private theorem computed_ok {i : Instruction} {pc : Word} {r : RegisterState}
    (kind : Isa.computes i.type = true) (shape : InstructionDecoder.ImmediateOf i.type i.b) :
    ∃ v, computed i pc r = .ok v :=
  ⟨_, computed_eq i pc r shape kind⟩

/-- Everything one instruction can do. -/
theorem execute_cases (s : VmState) (i : Instruction)
    (shape : InstructionDecoder.ImmediateOf i.type i.b) :
    Executed s i (execute s s.cpu.pc i) := by
  -- loads, stores, computations and branches first, then the types left over one by one
  by_cases load : ∃ n, loadWidth i.type = some n
  · obtain ⟨n, width⟩ := load
    rw [execute_load s.cpu.pc width]
    cases read : s.memory.readT n (accessAddress s i) MemoryFlags.read with
    | some v => exact .retired (.loaded width read)
    | none => exact .stopped (.readFault width read)
  by_cases store : ∃ n, storeWidth i.type = some n
  · obtain ⟨n, width⟩ := store
    rw [execute_store s.cpu.pc width]
    cases written : s.memory.writeT n (accessAddress s i) MemoryFlags.write (s.cpu.get i.rs2) with
    | some memory => exact .retired (.stored width written)
    | none => exact .stopped (.writeFault width written)
  have noLoad : loadWidth i.type = none := by
    cases width : loadWidth i.type with
    | none => rfl
    | some n => exact absurd ⟨n, width⟩ load
  by_cases kind : Isa.computes i.type = true ∨ multiplies i.type = true
  · rw [execute_computed s i kind]
    cases result : computed i s.cpu.pc s.cpu with
    | ok v => exact .retired (.computed v noLoad)
    | error e =>
      -- only a division can have no value
      rcases kind with computes | kind
      · obtain ⟨v, ok⟩ : ∃ v, computed i s.cpu.pc s.cpu = .ok v := computed_ok computes shape
        rw [ok] at result
        cases result
      · rw [computed_mulDiv kind] at result
        obtain ⟨rfl, undefined⟩ := mulDivResult_error kind result
        exact .divided kind undefined
  by_cases branch : branches i.type = true
  · obtain ⟨taken, -, executed⟩ := execute_branch branch s s.cpu.pc
    rw [executed]
    cases taken with
    | true =>
      have relative : relativeTarget i.type = true := by
        revert branch
        cases i.type <;> decide
      exact .retired (.branched relative)
    | false => exact .retired (.unchanged noLoad)
  unfold execute
  cases type : i.type
  case undefined => exact .stopped (.undefined type)
  case ecall => exact .stopped (.ecall type)
  case ebreak => exact .stopped (.ebreak type)
  case mulh | mulhu | mulhsu => exact .multiplyHigh (by simp [type])
  case fence => exact .retired (.unchanged noLoad)
  case jal => exact .retired (.jumped (by simp [type, relativeTarget]))
  case jalr => exact .retired (.jumpedIndirect type)
  -- the rest were loads, stores, computations or branches
  all_goals simp [type, Isa.computes, multiplies, branches, loadWidth, storeWidth] at *

/-- Everything one step can do. -/
inductive Stepped (s : VmState) : Except Abort (Bool × VmState) → Prop
  | unalignedPc (misaligned : s.cpu.pc &&& 3 ≠ 0) :
      Stepped s (.ok (false, { s with exit := { s.exit with reason := .unalignedPc } }))
  | fetchFault (aligned : s.cpu.pc &&& 3 = 0)
      (refused : s.memory.readT 4 s.cpu.pc MemoryFlags.execute = none) :
      Stepped s (.ok (false, { s with exit := { s.exit with reason := .instructionFetchFault } }))
  | executed {i : Instruction} {r : Except Abort (Bool × VmState)} (fetch : fetched s = some i)
      (after : Executed s i r) : Stepped s r

theorem step_cases (s : VmState) : Stepped s (step s) := by
  by_cases aligned : s.cpu.pc &&& 3 = 0
  · cases read : s.memory.readT 4 s.cpu.pc MemoryFlags.execute with
    | none =>
      simp only [step, aligned, read, ne_eq, not_true_eq_false, if_false]
      exact .fetchFault aligned read
    | some w =>
      have fetch : fetched s = some (.ofWord (w.setWidth 32)) := by
        simp only [fetched, aligned, read, ne_eq, not_true_eq_false, if_false, Option.map_some]
      rw [step_of_fetched fetch]
      exact .executed fetch (execute_cases s _ (immediateOf_fetched fetch))
  · simp only [step, aligned, ne_eq, not_false_eq_true, if_true]
    exact .unalignedPc aligned

/-- A step of the interpreter leaves `x0` and the size of the memory. -/
theorem step_keeps {vm vm' : VmState} {ok : Bool} (stepped : step vm = .ok (ok, vm')) :
    vm'.cpu.get Register.zero = vm.cpu.get Register.zero ∧ vm'.memory.size = vm.memory.size := by
  have after := step_cases vm
  rw [stepped] at after
  -- a write keeps the size; no other step replaces the memory, and none writes register zero
  cases after with
  | unalignedPc | fetchFault => exact ⟨rfl, rfl⟩
  | executed fetch after =>
    cases after with
    | stopped => exact ⟨rfl, rfl⟩
    | retired after =>
      cases after with
      | stored width written =>
        refine ⟨by simp only [retire, RegisterState.get_zero_set], ?_⟩
        rw [Memory.writeT_eq] at written
        split at written
        · cases written
          rfl
        · cases written
      | computed | unchanged | loaded | branched | jumped | jumpedIndirect =>
        exact ⟨by simp only [retire, jump, RegisterState.get_zero_set], rfl⟩

/-! ### Faults are precise -/

/-- The exits of a step that stops, with what stopped it. -/
inductive Cause (s : VmState) : Exit → Prop
  | unalignedPc (misaligned : s.cpu.pc &&& 3 ≠ 0) : Cause s { s.exit with reason := .unalignedPc }
  | fetchFault (aligned : s.cpu.pc &&& 3 = 0)
      (refused : s.memory.readT 4 s.cpu.pc MemoryFlags.execute = none) :
      Cause s { s.exit with reason := .instructionFetchFault }
  | stopped {i : Instruction} {e : Exit} (fetch : fetched s = some i) (after : Stopped s i e) :
      Cause s e

theorem Cause.reason_ne_none {s : VmState} {e : Exit} (cause : Cause s e) : e.reason ≠ .none := by
  cases cause with
  | unalignedPc | fetchFault => exact fun same => by cases same
  | stopped fetch after => cases after <;> exact fun same => by cases same

/-- The fetched instruction has a result: it is no multiplication for the high half and no
undefined division. -/
def Supported (s : VmState) : Prop :=
  ∀ i, fetched s = some i → i.type ≠ .mulh ∧ i.type ≠ .mulhu ∧ i.type ≠ .mulhsu ∧
    (multiplies i.type = true → Defined i.type (s.cpu.get i.rs1) (s.cpu.get i.rs2))

/-- What the host can see of a step but for the record of the exit it passes in. -/
def observe (r : Except Abort (Bool × VmState)) :
    Except Abort (Bool × Cpu × Memory × Option ExitReason) :=
  r.map fun p => (p.1, p.2.cpu, p.2.memory, if p.1 then none else some p.2.exit.reason)

private theorem observe_execute (s : VmState) (e : Exit) (i : Instruction) (pc : Word) :
    observe (execute { s with exit := e } pc i) = observe (execute s pc i) := by
  unfold execute
  cases type : i.type <;> dsimp only
  -- the exit is only ever overwritten, so each branch gives the same on both sides
  case beq | bne | blt | bge | bltu | bgeu =>
    cases branchTaken _ (s.cpu.get i.rs1) (s.cpu.get i.rs2) <;> rfl
  case lb | lh | lw | ld | lbu | lhu | lwu =>
    rcases loadResult _ s.memory (s.cpu.get i.rs1 + i.imm) with _ | (_ | _) <;> rfl
  case sb | sh | sw | sd =>
    rcases storeResult _ s.memory (s.cpu.get i.rs1 + i.imm) (s.cpu.get i.rs2) with _ | (_ | _) <;> rfl
  case addi | xori | ori | andi | addiw =>
    cases immediateResult _ (s.cpu.get i.rs1) i.imm <;> rfl
  case slli | srli | srai | slliw | srliw | sraiw =>
    cases shiftImmediateResult _ (s.cpu.get i.rs1) i.shamt <;> rfl
  case add | sub | xor | or | and | sll | srl | sra | addw | subw | sllw | srlw | sraw =>
    cases registerResult _ (s.cpu.get i.rs1) (s.cpu.get i.rs2) <;> rfl
  case mul | mulw | div | divw | divu | divuw | rem | remu | remw | remuw =>
    cases mulDivResult _ (s.cpu.get i.rs1) (s.cpu.get i.rs2) <;> rfl
  all_goals rfl

theorem observe_step (s : VmState) (e : Exit) :
    observe (step { s with exit := e }) = observe (step s) := by
  unfold step
  dsimp only
  split
  · rfl
  · cases s.memory.readT 4 s.cpu.pc MemoryFlags.execute with
    | none => rfl
    | some w => exact observe_execute s e _ s.cpu.pc

/-- What a step that has returned `ok` and left `t` guarantees. -/
structure Precise (s : VmState) (ok : Bool) (t : VmState) : Prop where
  untouched : ok = true → t.exit = s.exit
  registers : ok = false → t.cpu = s.cpu
  memory : ok = false → t.memory = s.memory
  cause : ok = false → t.exit.reason ≠ .none ∧ Cause s t.exit
  /-- Whatever the host changes, the step runs again as it would have run without the fault. -/
  again : ok = false → ∀ memory cpu,
    observe (step { t with memory, cpu }) = observe (step { s with memory, cpu })

private theorem precise_stop {s : VmState} {e : Exit} (cause : Cause s e) :
    Precise s false { s with exit := e } :=
  ⟨fun same => (by cases same), fun _ => rfl, fun _ => rfl, fun _ => ⟨cause.reason_ne_none, cause⟩,
    fun _ memory cpu => observe_step ⟨memory, cpu, s.exit⟩ e⟩

/-- Faults are precise. -/
theorem step_precise (s : VmState) (supported : Supported s) :
    ∃ ok t, step s = .ok (ok, t) ∧ Precise s ok t := by
  have stepped := step_cases s
  generalize step s = r at stepped
  cases stepped with
  | unalignedPc misaligned => exact ⟨false, _, rfl, precise_stop (.unalignedPc misaligned)⟩
  | fetchFault aligned refused => exact ⟨false, _, rfl, precise_stop (.fetchFault aligned refused)⟩
  | executed fetch after =>
    cases after with
    | retired after =>
      refine ⟨true, _, rfl, fun _ => ?_, ?_, ?_, ?_, ?_⟩
      · cases after <;> rfl
      all_goals exact fun same => by cases same
    | stopped after => exact ⟨false, _, rfl, precise_stop (.stopped fetch after)⟩
    -- the two ways to have no defined result are what `Supported` rules out
    | multiplyHigh kind =>
      obtain ⟨notMulh, notMulhu, notMulhsu, -⟩ := supported _ fetch
      rcases kind with kind | kind | kind <;> contradiction
    | divided kind undefined => exact absurd ((supported _ fetch).2.2.2 kind) undefined

/-- `lb x1, 0(x0)` in a memory that is only executable. -/
theorem step_precise_lb : ∃ s ok t, fetched s = some (.ofWord 0x00000083) ∧ step s = .ok (ok, t) ∧
    Precise s ok t := by
  let memory := Memory.ofImage 16 (by decide) [0x83, 0x00, 0x00, 0x00] (MemoryFlags.execute)
  let s : VmState := ⟨memory, ⟨fun _ => 0⟩, {}⟩
  have fetch : fetched s = some (.ofWord 0x00000083) := by decide
  have supported : Supported s := by
    intro i same
    rw [fetch] at same
    cases same
    decide
  obtain ⟨ok, t, result, precise⟩ := step_precise s supported
  exact ⟨s, ok, t, fetch, result, precise⟩

/-! ### Isolation over runs -/

/-- A byte of the memory that grants a permission. -/
def Grants (m : Memory) (flag : MemoryFlags) (j : Nat) : Prop :=
  j < m.size.toNat ∧ m.permissions j &&& flag = flag

/-- A successful step. -/
def Steps (s t : VmState) : Prop := step s = .ok (true, t)

/-- Finitely many successful steps. -/
abbrev Run : VmState → VmState → Prop := Relation.ReflTransGen Steps

/-- What a run keeps, compared with the state it has begun in. -/
structure Isolated (s t : VmState) : Prop where
  zero : t.cpu.get Register.zero = 0
  even : t.cpu.pc.toNat % 2 = 0
  size : t.memory.size = s.memory.size
  permissions : ∀ j, t.memory.permissions j = s.memory.permissions j
  written : ∀ j < s.memory.permissionsOffset, t.memory.contents j ≠ s.memory.contents j →
    Grants s.memory MemoryFlags.write j

/-- What a successful step was allowed to read: the word it executed, and the bytes a load
has put in its register. -/
def Authorised (s t : VmState) : Prop :=
  ∃ i, fetched s = some i ∧ s.cpu.pc.toNat % 4 = 0 ∧
    (∀ k < 4, Grants s.memory MemoryFlags.execute (s.cpu.pc.toNat + k)) ∧
    ∀ n, loadWidth i.type = some n →
      (∀ k < n, Grants s.memory MemoryFlags.read ((accessAddress s i).toNat + k)) ∧
      t.cpu = (s.cpu.set i.rd (extendRead i.type n
        (leValue (bytesAt s.memory.allocation (accessAddress s i).toNat n)))).set Register.pc
        (s.cpu.pc + 4)

section Isolation

variable {s t : VmState} {m : Memory}

/-- In a memory of at most `2 ^ 63` bytes no permitted access wraps. -/
theorem grants_of_verifyPermissions {address : Word} {n : Nat} {flags : MemoryFlags}
    (moderate : m.size.toNat ≤ 2 ^ 63) (short : n ≤ 8)
    (verified : m.verifyPermissions address (BitVec.ofNat 64 n) flags = true) :
    address.toNat + n ≤ m.size.toNat ∧ ∀ k < n, Grants m flags (address.toNat + k) := by
  obtain ⟨range, granted⟩ := Memory.verifyPermissions_iff.mp verified
  have length : (BitVec.ofNat 64 n).toNat = n := by
    rw [BitVec.toNat_ofNat]
    omega
  rw [length] at granted
  -- without this the sum of address and length could wrap
  have below : address.toNat ≤ m.size.toNat := by
    simp only [Memory.outOfRange, Bool.or_eq_false_iff, decide_eq_false_iff_not, BitVec.lt_def] at range
    omega
  have inside := (Memory.outOfRange_eq_false (by omega)).mp range
  rw [length] at inside
  exact ⟨inside, fun k low => ⟨by omega, granted k low⟩⟩

theorem grants_of_readT {address : Word} {n : Nat} {flags : MemoryFlags} {v : Word}
    (moderate : m.size.toNat ≤ 2 ^ 63) (short : n ≤ 8) (read : m.readT n address flags = some v) :
    (∀ k < n, Grants m flags (address.toNat + k)) ∧
      v = leValue (bytesAt m.allocation address.toNat n) := by
  rw [Memory.readT_eq m n address flags (by omega)] at read
  split at read
  next verified => exact ⟨(grants_of_verifyPermissions moderate short verified).2, by cases read; rfl⟩
  next => cases read

/-- A permitted store changes granted bytes only, and no permission. -/
theorem isolated_writeT {address value : Word} {n : Nat} {m' : Memory}
    (moderate : m.size.toNat ≤ 2 ^ 63) (short : n ≤ 8)
    (written : m.writeT n address MemoryFlags.write value = some m') :
    m'.size = m.size ∧ (∀ j, m'.permissions j = m.permissions j) ∧
      ∀ j, m'.contents j ≠ m.contents j → Grants m MemoryFlags.write j := by
  rw [Memory.writeT_eq] at written
  split at written
  next verified =>
    cases written
    obtain ⟨inside, granted⟩ := grants_of_verifyPermissions moderate short verified
    refine ⟨rfl, fun j => Memory.permissions_overwrite m _ _ (by simpa using inside) j, ?_⟩
    intro j changed
    -- a byte inside the range was granted, one outside it did not change
    by_cases within : address.toNat ≤ j ∧ j < address.toNat + n
    · have place := granted (j - address.toNat) (by omega)
      rwa [Nat.add_sub_cancel' within.1] at place
    · exact absurd (overwrite_outside _ _ _ _ (by simp; omega)) changed
  next => cases written

theorem even_add {a b : Word} (left : a.toNat % 2 = 0) (right : b.toNat % 2 = 0) :
    (a + b).toNat % 2 = 0 := by
  rw [BitVec.toNat_add]
  omega

private theorem even_of_bit {a : Word} (bit : a.getLsbD 0 = false) : a.toNat % 2 = 0 := by
  rw [BitVec.getLsbD, Nat.testBit_zero] at bit
  simpa using bit

theorem even_relative {i : Instruction} (fetch : fetched s = some i)
    (kind : relativeTarget i.type = true) : i.imm.toNat % 2 = 0 := by
  unfold fetched at fetch
  split at fetch
  next => cases fetch
  next =>
    obtain ⟨w, -, rfl⟩ := Option.map_eq_some_iff.mp fetch
    have bit : (Instruction.ofWord (w.setWidth 32)).imm.getLsbD 0 = false := by
      change relativeTarget (InstructionDecoder.decode (w.setWidth 32)).type = true at kind
      change (InstructionDecoder.decode (w.setWidth 32)).imm.getLsbD 0 = false
      cases type : (InstructionDecoder.decode (w.setWidth 32)).type <;>
        simp only [type, relativeTarget, Bool.false_eq_true] at kind
      -- a `jal` and the branches drop bit 0 of the offset when they decode
      case jal => exact InstructionDecoder.even_offset (by rw [type]; rfl) (.inl ⟨_, rfl⟩)
      all_goals exact InstructionDecoder.even_offset (by rw [type]; rfl) (.inr ⟨_, _, rfl⟩)
    exact even_of_bit bit

theorem even_masked (a : Word) : (a &&& ~~~1).toNat % 2 = 0 :=
  even_of_bit (by simp)

theorem aligned_of_fetched {i : Instruction} (fetch : fetched s = some i) :
    s.cpu.pc.toNat % 4 = 0 ∧ ∃ w, s.memory.readT 4 s.cpu.pc MemoryFlags.execute = some w := by
  unfold fetched at fetch
  split at fetch
  next => cases fetch
  next aligned =>
    obtain ⟨w, read, -⟩ := Option.map_eq_some_iff.mp fetch
    refine ⟨?_, w, read⟩
    exact (and_mask_eq_zero s.cpu.pc (k := 2) (by decide)).mp (Decidable.not_not.mp aligned)

/-- Registers written before the pc leave the pc as written. -/
theorem pc_set (cpu : Cpu) (v : Word) : RegisterState.pc (cpu.set Register.pc v) = v :=
  RegisterState.get_set_same _ _ _ (by decide)

/-- What a retired instruction keeps. -/
theorem Isolated.retired {i : Instruction} {t' : VmState} (moderate : s.memory.size.toNat ≤ 2 ^ 63)
    (before : Isolated s t) (fetch : fetched t = some i) (after : Retired t i t') :
    Isolated s t' := by
  have next : (t.cpu.pc + 4).toNat % 2 = 0 := even_add before.even rfl
  have zero : ∀ (cpu : Cpu) v, cpu.get Register.zero = 0 →
      (cpu.set Register.pc v).get Register.zero = 0 := by
    intro cpu v clear
    rw [RegisterState.get_zero_set, clear]
  have written : ∀ v, (t.cpu.set i.rd v).get Register.zero = 0 := by
    intro v
    rw [RegisterState.get_zero_set, before.zero]
  -- all but the stores leave the memory alone
  have keeps : ∀ (cpu : Cpu) v, cpu.get Register.zero = 0 → v.toNat % 2 = 0 →
      Isolated s { t with cpu := cpu.set Register.pc v } := by
    intro cpu v clear even
    exact ⟨zero cpu v clear, by rw [pc_set]; exact even, before.size, before.permissions,
      before.written⟩
  cases after with
  | computed v kind => exact keeps _ _ (written v) next
  | unchanged kind => exact keeps _ _ before.zero next
  | loaded width read => exact keeps _ _ (written _) next
  | branched kind => exact keeps _ _ before.zero (even_add before.even (even_relative fetch kind))
  | jumped kind => exact keeps _ _ (written _) (even_add before.even (even_relative fetch kind))
  | jumpedIndirect kind => exact keeps _ _ (written _) (even_masked _)
  | @stored n memory width stored =>
    obtain ⟨size, permissions, changes⟩ :=
      isolated_writeT (by rw [before.size]; exact moderate) (storeWidth_le width).2 stored
    obtain ⟨clear, even, -, -, -⟩ := keeps t.cpu (t.cpu.pc + 4) before.zero next
    refine ⟨clear, even, size.trans before.size,
      fun j => (permissions j).trans (before.permissions j), fun j half changed => ?_⟩
    by_cases fresh : memory.contents j = t.memory.contents j
    · exact before.written j half (by rwa [← fresh])
    · obtain ⟨inside, granted⟩ := changes j fresh
      rw [before.size] at inside
      rw [before.permissions] at granted
      exact ⟨inside, granted⟩

theorem steps_retired {t' : VmState} (next : Steps t t') :
    ∃ i, fetched t = some i ∧ Retired t i t' := by
  have stepped := step_cases t
  rw [show step t = .ok (true, t') from next] at stepped
  cases stepped with
  | executed fetch after =>
    cases after with
    | retired after => exact ⟨_, fetch, after⟩

/-- One step reads and executes what it may. -/
theorem authorised_steps {t' : VmState} (moderate : t.memory.size.toNat ≤ 2 ^ 63)
    (next : Steps t t') : Authorised t t' := by
  obtain ⟨i, fetch, after⟩ := steps_retired next
  obtain ⟨aligned, w, read⟩ := aligned_of_fetched fetch
  refine ⟨i, fetch, aligned, (grants_of_readT moderate (by decide) read).1, fun n width => ?_⟩
  -- only a load has a load width
  cases after with
  | loaded width' read =>
    rw [width] at width'
    cases width'
    obtain ⟨granted, rfl⟩ := grants_of_readT moderate (loadWidth_le width).2 read
    exact ⟨granted, rfl⟩
  | computed v kind | unchanged kind =>
    rw [kind] at width
    cases width
  | stored width' stored =>
    rw [loadWidth_store width'] at width
    cases width
  | branched kind | jumped kind =>
    rw [loadWidth_relative kind] at width
    cases width
  | jumpedIndirect kind =>
    rw [kind] at width
    cases width

/-- A state is isolated from itself. -/
theorem Isolated.refl (zero : s.cpu.get Register.zero = 0) (even : s.cpu.pc.toNat % 2 = 0) :
    Isolated s s :=
  ⟨zero, even, rfl, fun _ => rfl, fun _ _ changed => absurd rfl changed⟩

/-- What a run keeps, from any state that is isolated already. -/
theorem Isolated.run {u : VmState} (moderate : s.memory.size.toNat ≤ 2 ^ 63) (before : Isolated s t)
    (run : Run t u) : Isolated s u := by
  induction run with
  | refl => exact before
  | tail run next ih =>
    obtain ⟨i, fetch, after⟩ := steps_retired next
    exact ih.retired moderate fetch after

/-- Along every run: `x0` stays zero, the pc even and the permissions as they are, only
writable bytes change, and only executable and readable bytes are fetched and loaded. -/
theorem run_isolated (moderate : s.memory.size.toNat ≤ 2 ^ 63)
    (zero : s.cpu.get Register.zero = 0) (even : s.cpu.pc.toNat % 2 = 0) (run : Run s t) :
    Isolated s t ∧ ∀ t', Steps t t' → Authorised t t' := by
  have isolated : Isolated s t := by
    induction run with
    | refl => exact ⟨zero, even, rfl, fun _ => rfl, fun _ _ changed => absurd rfl changed⟩
    | tail run next before =>
      obtain ⟨i, fetch, after⟩ := steps_retired next
      exact before.retired moderate fetch after
  exact ⟨isolated, fun t' next => authorised_steps (by rw [isolated.size]; exact moderate) next⟩

/-- `addi x1, x0, 5` from a fresh machine. -/
theorem run_isolated_addi : ∃ s t : VmState, t.cpu.get 1 = 5 ∧ Isolated s t := by
  let memory := Memory.ofImage 16 (by decide) [0x93, 0x00, 0x50, 0x00] (MemoryFlags.execute)
  let s : VmState := ⟨memory, ⟨fun _ => 0⟩, {}⟩
  have fetch : fetched s = some (.ofWord 0x00500093) := by decide
  have next := step_computes fetch (by decide)
  exact ⟨s, _, by decide, (run_isolated (by decide) rfl rfl (.single next)).1⟩

end Isolation

/-! ### A program that counts to five -/

namespace Counting

/-- `addi x1, x0, 5` in front of `ecall`. -/
def memory : Memory := Memory.ofImage 16 (by decide) [0x93, 0x00, 0x50, 0x00, 0x73, 0x00, 0x00, 0x00]
  MemoryFlags.execute

def vm : VmState := ⟨memory, ⟨fun _ => 0⟩, {}⟩

/-- The state at the `ecall`. -/
def counted : VmState := retire vm (vm.cpu.set 1 5)

theorem steps : Steps vm counted := rfl

theorem stops : step counted = .ok (false, { counted with exit := { counted.exit with reason := .ecall } }) :=
  rfl

end Counting

end Riscv64Emulator.Interpreter
