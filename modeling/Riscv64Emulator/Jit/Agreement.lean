import Riscv64Emulator.Jit.Jumps
import Riscv64Emulator.Jit.X64.Alu
import Riscv64Emulator.Jit.X64.MulDiv

/-!
# One instruction in both engines

When the code of an instruction and the interpreter do the same with a guest: the values of
the computations, the accesses, and where control goes.
-/
namespace Riscv64Emulator.Jit

open Interpreter

/-! ### Values -/

/-- The register computations with one value in both engines. The interpreter shifts to the
left for `srai` and `sra` and divides for `mulw`; x64 code has the register operations in
place without their second operand, and shifts 32-bit operands with the upper half. -/
structure ValuesAgree (host : Host) (i : Instruction) (r : RegisterState) : Prop where
  shifts : AgreesWithIsa i r
  mulw : i.type = .mulw → i.rd = Register.zero ∨
    Isa.low (r.get i.rs1) / Isa.low (r.get i.rs2) = Isa.low (r.get i.rs1) * Isa.low (r.get i.rs2)
  x64 : ∀ codeSize codeSize_pos, host = .x64 codeSize codeSize_pos →
    (X64.alu64 i.type = true → i.rd = Register.zero ∨ i.rd ≠ i.rs1 ∨
      X64.ZeroAgrees i.type (r.get i.rs1) (r.get i.rs2)) ∧
    (X64.isWord i.type = true → i.rd = Register.zero ∨
      X64.LowHalfAgrees i.type i.imm (r.get i.rs1) (r.get i.rs2))

section Values

variable {host : Host} {i : Instruction} {pc v : Word} {r r' : RegisterState}

/-- A computation looks at its sources only. -/
theorem value_congr (first : r.get i.rs1 = r'.get i.rs1) (second : r.get i.rs2 = r'.get i.rs2) :
    host.backEnd.value i pc r = host.backEnd.value i pc r' := by
  cases host with
  | x64 =>
    simp only [Host.backEnd, X64.x64BackEnd, X64.computedValue, first, second]
  | aarch64 =>
    simp only [Host.backEnd, Aarch64.a64BackEnd, Aarch64.computedValue, Isa.result, first, second]

/-- The value of the ISA. -/
def isaValue (i : Instruction) (pc : Word) (r : RegisterState) : Word :=
  if Isa.computes i.type then Isa.result i pc r
  else Isa.mulDiv i.type (r.get i.rs1) (r.get i.rs2)

theorem isComputation_cases (kind : isComputation i.type = true) :
    Isa.computes i.type = true ∨ Isa.computes i.type = false ∧ multiplies i.type = true := by
  revert kind
  cases i.type <;> decide

theorem agreesWithIsa_value (shape : InstructionDecoder.ImmediateOf i.type i.b)
    (kind : Isa.computes i.type = true) (agree : AgreesWithIsa i r) (nonzero : i.rd ≠ Register.zero) :
    computed i pc r = .ok (Isa.result i pc r) := by
  rw [computed_eq i pc r shape kind]
  unfold AgreesWithIsa at agree
  cases type : i.type
  case srai =>
    simp only [type, InstructionDecoder.ImmediateOf] at shape
    simp only [type, nonzero, false_or, shiftsAgree_iff] at agree
    simp only [Isa.result, type, Isa.value, Instruction.shamt6_imm shape, agree]
  case sra =>
    simp only [type, nonzero, false_or, shiftsAgree_iff] at agree
    simp only [Isa.result, type, Isa.value, agree]
  all_goals rfl

/-- The interpreter's value is the ISA's where the engines agree. -/
theorem computed_isa (shape : InstructionDecoder.ImmediateOf i.type i.b)
    (agree : ValuesAgree host i r) (nonzero : i.rd ≠ Register.zero)
    (kind : Isa.computes i.type = true ∨ Isa.computes i.type = false ∧ multiplies i.type = true)
    (value : computed i pc r = .ok v) : v = isaValue i pc r := by
  unfold isaValue
  rcases kind with kind | ⟨indirect, kind⟩
  · rw [agreesWithIsa_value shape kind agree.shifts nonzero] at value
    rw [if_pos kind]
    exact (Except.ok.inj value).symm
  · rw [computed_mulDiv kind, mulDivResult_ok_iff kind] at value
    obtain ⟨-, rfl⟩ := value
    rw [indirect, if_neg Bool.false_ne_true]
    -- the interpreter divides for `mulw`, and agrees only where that gives the product
    split
    · next product =>
      have same := (agree.mulw product).resolve_left nonzero
      rw [product, Isa.mulDiv, same, Isa.product_eq]
    · rfl

theorem x64_divides (defined : Defined i.type (r.get i.rs1) (r.get i.rs2)) :
    X64.DividesAsIsa i.type (r.get i.rs1) (r.get i.rs2) := by
  unfold Defined at defined
  unfold X64.DividesAsIsa
  cases type : i.type <;> simp only [type] at defined ⊢
  case div | divw => exact defined
  case rem => exact defined.1
  case remw => exact ⟨defined.1, fun overflow => absurd overflow defined.2⟩
  case divu | remu | divuw | remuw => exact defined

theorem aarch64_divides (defined : Defined i.type (r.get i.rs1) (r.get i.rs2)) :
    Aarch64.DividesAsIsa i.type (r.get i.rs2) := by
  unfold Defined at defined
  unfold Aarch64.DividesAsIsa
  cases type : i.type <;> simp only [type] at defined ⊢
  case div | divw => exact defined.1
  case divu | divuw => exact defined

theorem x64_value (shape : InstructionDecoder.ImmediateOf i.type i.b)
    (nonzero : i.rd ≠ Register.zero)
    (alu : X64.alu64 i.type = true → i.rd = Register.zero ∨ i.rd ≠ i.rs1 ∨
      X64.ZeroAgrees i.type (r.get i.rs1) (r.get i.rs2))
    (word : X64.isWord i.type = true → i.rd = Register.zero ∨
      X64.LowHalfAgrees i.type i.imm (r.get i.rs1) (r.get i.rs2))
    (kind : Isa.computes i.type = true) : X64.computedValue i pc r = Isa.result i pc r := by
  -- the two families of operations the back end computes itself, and two constants
  have families : X64.alu64 i.type = true ∨ X64.isWord i.type = true ∨ i.type = .lui ∨ i.type = .auipc := by
    revert kind
    cases i.type <;> decide
  rcases families with kind | kind | kind | kind
  · exact (X64.computedValue_eq_result_iff pc r shape kind).mpr ((alu kind).resolve_left nonzero)
  · exact (X64.computedValue_word_iff pc r shape kind).mpr ((word kind).resolve_left nonzero)
  · simp only [X64.computedValue, Isa.result, kind]
    rfl
  · simp only [X64.computedValue, Isa.result, kind]
    rfl

/-- The code's value is the ISA's where the engines agree and the interpreter has one. -/
theorem value_isa (shape : InstructionDecoder.ImmediateOf i.type i.b) (agree : ValuesAgree host i r)
    (nonzero : i.rd ≠ Register.zero)
    (kind : Isa.computes i.type = true ∨ Isa.computes i.type = false ∧ multiplies i.type = true)
    (value : computed i pc r = .ok v) : host.backEnd.value i pc r = some (isaValue i pc r) := by
  unfold isaValue
  -- the emitted code and the interpreter are compared through the manual's value
  rcases kind with kind | ⟨indirect, kind⟩
  · rw [if_pos kind]
    have direct : isDivision i.type = false := by
      revert kind
      cases i.type <;> decide
    cases host with
    | x64 codeSize codeSize_pos =>
      obtain ⟨alu, word⟩ := agree.x64 codeSize codeSize_pos rfl
      simp only [Host.backEnd, X64.x64BackEnd, direct, Bool.false_eq_true, if_false,
        x64_value shape nonzero alu word kind]
    | aarch64 =>
      simp only [Host.backEnd, Aarch64.a64BackEnd, Aarch64.computedValue, kind, if_true]
  · rw [indirect, if_neg Bool.false_ne_true]
    rw [computed_mulDiv kind, mulDivResult_ok_iff kind] at value
    obtain ⟨defined, -⟩ := value
    cases host with
    | x64 =>
      have isa := (X64.mulDivValue_eq_iff kind (r.get i.rs1) (r.get i.rs2)).mpr (x64_divides defined)
      rw [← isa]
      cases type : i.type <;> first | exact absurd (type ▸ kind) (by decide) |
        simp [Host.backEnd, X64.x64BackEnd, X64.mulDivValue, X64.computedValue, type, isDivision]
    | aarch64 =>
      simp only [Host.backEnd, Aarch64.a64BackEnd, Aarch64.computedValue, indirect,
        Bool.false_eq_true, if_false, Option.some.injEq]
      by_cases product : i.type = .mul ∨ i.type = .mulw
      · exact Aarch64.mulDivValue_product product _ _
      · have division : isDivision i.type = true := by
          revert kind product
          cases i.type <;> decide
        exact (Aarch64.mulDivValue_eq_iff division _ _).mpr (aarch64_divides defined)

end Values

/-! ### Guests of the interpreter -/

/-- The host holds the guest the interpreter has in the state `v`: all but the pc, which is not
kept while a block runs. -/
def Mirrors (g : Guest) (v : VmState) : Prop := g.toVm v.cpu.pc v.exit = v

section Mirrors

variable {g : Guest} {v : VmState} {r : Register}

theorem Mirrors.memory (mirrors : Mirrors g v) : g.memory = v.memory := congrArg VmState.memory mirrors

theorem Mirrors.cpu (mirrors : Mirrors g v) : g.registers.set Register.pc v.cpu.pc = v.cpu :=
  congrArg VmState.cpu mirrors

theorem Mirrors.get (mirrors : Mirrors g v) (other : r ≠ Register.pc) :
    g.registers.get r = v.cpu.get r := by
  rw [← mirrors.cpu, RegisterState.get_set_other _ _ other]

theorem set_congr {a b : RegisterState} {value : Word}
    (same : ∀ q, q ≠ Register.pc → a.get q = b.get q) :
    a.set Register.pc value = b.set Register.pc value := by
  apply RegisterState.ext
  funext q
  have left := RegisterState.get_set a Register.pc q value
  have right := RegisterState.get_set b Register.pc q value
  by_cases pc : q = Register.pc
  · rw [if_pos ⟨pc, by decide⟩] at left right
    exact left.trans right.symm
  · rw [if_neg (fun h => pc h.1)] at left right
    exact left.trans ((same q pc).trans right.symm)

/-- Registers written to both, behind which the pc is somewhere else. -/
theorem Mirrors.written (mirrors : Mirrors g v) (r : Register) (value pc : Word) :
    Mirrors (g.setRegister r value)
      { v with cpu := (v.cpu.set r value).set Register.pc pc } := by
  unfold Mirrors Guest.toVm
  have memory := mirrors.memory
  have pcs : RegisterState.pc ((v.cpu.set r value).set Register.pc pc) = pc := Interpreter.pc_set _ _
  simp only [Guest.setRegister, memory, pcs]
  congr 1
  refine set_congr fun q below => ?_
  rw [RegisterState.get_set, RegisterState.get_set, mirrors.get below]

/-- Nothing written. -/
theorem Mirrors.moved (mirrors : Mirrors g v) (pc : Word) :
    Mirrors g { v with cpu := v.cpu.set Register.pc pc } := by
  unfold Mirrors Guest.toVm
  have memory := mirrors.memory
  have pcs : RegisterState.pc (v.cpu.set Register.pc pc) = pc := Interpreter.pc_set _ _
  simp only [memory, pcs]
  congr 1
  exact set_congr fun q below => mirrors.get below

theorem mirrors_guestOf (v : VmState) : Mirrors (guestOf v) v := by
  unfold Mirrors Guest.toVm guestOf
  have same : v.cpu.set Register.pc v.cpu.pc = v.cpu := by
    apply RegisterState.ext
    funext q
    have get := RegisterState.get_set v.cpu Register.pc q v.cpu.pc
    by_cases pc : q = Register.pc
    · rw [if_pos ⟨pc, by decide⟩] at get
      rw [pc] at get ⊢
      exact get
    · rw [if_neg (fun h => pc h.1)] at get
      exact get
  rw [same]

end Mirrors

/-! ### Steps -/

/-- An address of the table. -/
def InTable (limit pc : Word) : Prop := pc &&& 3 = 0 ∧ pc.toNat / 4 < limit.toNat

/-- The instructions whose code leaves the work to the interpreter, though it can be done. -/
def HandedBack (host : Host) (v : VmState) (i : Instruction) : Prop :=
  ((isLoad i.type = true ∨ isStore i.type = true) ∧
    (accessAddress v i).toNat % 2 ^ accessLog2 i.type ≠ 0) ∨
  (isComputation i.type = true ∧ host.backEnd.supports i = false)

/-- The instruction at the pc shows none of the differences between the engines: its value is
the same in both, a load into `x0` does not fault, an indirect jump has an even target and a
direct one a target in the table, and where the executor is asked for the block behind the
instruction, that is in the table. -/
structure Regular (host : Host) (singleStep : Bool) (limit : Word) (v : VmState) (i : Instruction) :
    Prop where
  values : isComputation i.type = true → ValuesAgree host i v.cpu
  quiet : isLoad i.type = true → i.rd = Register.zero → ∃ v', Steps v v'
  even : i.type = .jalr → accessAddress v i &&& 1 = 0
  target : isDirect i.type = true → Taken (guestOf v) i → InTable limit (v.cpu.pc + i.imm)
  behind : singleStep = true ∨ HandedBack host v i → ∀ v', Steps v v' →
    v'.cpu.pc = v.cpu.pc + 4 → InTable limit (v.cpu.pc + 4)

/-- The reasons that stand for each other. -/
def Counted (reported reason : ExitReason) : Prop :=
  reported = reason ∨ reported = .outOfBoundsPc ∧ reason = .instructionFetchFault

/-- The interpreter is in the state `u` where generated code departs. -/
inductive Leads (st : Setting) (u : VmState) : Departure → Prop
  | enter (table : InTable st.maxBlockCount u.cpu.pc)
      (published : st.blockToOffset (u.cpu.pc.toNat / 4) ≠ 0) :
      Leads st u (.enter (st.blockToOffset (u.cpu.pc.toNat / 4)))
  | again {reason : ArchExitReason} (kind : reason.again = true)
      (table : InTable st.maxBlockCount u.cpu.pc) : Leads st u (.exit reason u.cpu.pc)
  | fallsBack {reason : ArchExitReason} (kind : reason.fallsBack = true)
      (table : ∀ u', Steps u u' → InTable st.maxBlockCount u'.cpu.pc) :
      Leads st u (.exit reason u.cpu.pc)
  | leaves {reason : ArchExitReason} {reported e : ExitReason} (kind : reason.exitReason = some reported)
      (counted : Counted reported e)
      (stops : step u = .ok (false, { u with exit := { u.exit with reason := e } })) :
      Leads st u (.exit reason u.cpu.pc)

/-- What the code of an instruction does with the guest of `v`, next to the interpreter. -/
def Follows (st : Setting) (v : VmState) : Outcome → Prop
  | .next g => ∃ v', Steps v v' ∧ Mirrors g v' ∧ v'.cpu.pc = v.cpu.pc + 4
  | .depart d g => ∃ u, (u = v ∧ d.goesOn = false ∨ Steps v u) ∧ Mirrors g u ∧ Leads st u d
  | .fault => False

section Follows

variable {host : Host} {st : Setting} {v : VmState} {i : Instruction} {g : Guest}

/-- The interpreter at an instruction. -/
theorem steps_of_execute {v' : VmState} (fetch : fetched v = some i)
    (executed : execute v v.cpu.pc i = .ok (true, v')) : Steps v v' :=
  (step_of_fetched fetch).trans executed

theorem Mirrors.access (mirrors : Mirrors g v) :
    g.registers.get i.rs1 + i.imm = accessAddress v i := by
  unfold accessAddress
  rw [mirrors.get i.rs1_ne_pc]

/-- A departure into the table goes on with the successor. -/
theorem branchTo_leads {target : Word} {u : VmState} {d : Departure} (here : u.cpu.pc = target)
    (table : InTable st.maxBlockCount target) (branch : st.branchTo target g = .depart d g) :
    Leads st u d := by
  subst here
  rcases branchTo_cases branch with ⟨-, rfl⟩ | ⟨-, -, rfl⟩ | ⟨-, published, rfl⟩
  · exact .again rfl table
  · exact .again rfl table
  · exact .enter table published

theorem extendRead_eq {type : InstructionType} {n : Nat} (width : loadWidth type = some n) (v : Word) :
    n = 2 ^ accessLog2 type ∧ extendRead type n v = extendLoaded type v := by
  cases type <;> simp only [loadWidth, reduceCtorEq, Option.some.injEq] at width <;> subst width <;>
    first
      | exact ⟨rfl, rfl⟩
      | exact ⟨rfl, by simp [extendRead, extendLoaded]⟩

theorem loadWidth_of_isLoad (kind : isLoad i.type = true) : loadWidth i.type = some (2 ^ accessLog2 i.type) := by
  revert kind
  cases i.type <;> decide

theorem storeWidth_of_isStore (kind : isStore i.type = true) :
    storeWidth i.type = some (2 ^ accessLog2 i.type) := by
  revert kind
  cases i.type <;> decide

theorem accessLog2_le (type : InstructionType) : accessLog2 type ≤ 3 := by
  cases type <;> decide

theorem pow_accessLog2_lt (type : InstructionType) : 2 ^ accessLog2 type < 2 ^ 64 :=
  Nat.pow_lt_pow_right (by decide) (Nat.lt_of_le_of_lt (accessLog2_le type) (by decide))

/-- A load that retires has read its value. -/
theorem execute_load_iff (kind : isLoad i.type = true) (v v' : VmState) :
    execute v v.cpu.pc i = .ok (true, v') ↔ v.memory.verifyPermissions (accessAddress v i)
        (BitVec.ofNat 64 (2 ^ accessLog2 i.type)) MemoryFlags.read = true ∧
      v' = retire v (v.cpu.set i.rd ((guestOf v).loaded i.type (accessAddress v i))) := by
  have width := loadWidth_of_isLoad kind
  rw [execute_load v.cpu.pc width, Memory.readT_eq _ _ _ _ (pow_accessLog2_lt i.type)]
  split
  · next value read =>
    split at read
    -- the permissions decide, and the fault changes nothing else
    · next verified =>
      cases read
      simp only [Except.ok.injEq, Prod.mk.injEq, true_and, verified, (extendRead_eq width _).2]
      exact eq_comm
    · cases read
  · next read =>
    split at read
    · cases read
    · next refused =>
      exact ⟨fun same => (by cases same), fun retires => absurd retires.1 refused⟩

theorem steps_load_iff (fetch : fetched v = some i) (kind : isLoad i.type = true) (v' : VmState) :
    Steps v v' ↔ v.memory.verifyPermissions (accessAddress v i)
        (BitVec.ofNat 64 (2 ^ accessLog2 i.type)) MemoryFlags.read = true ∧
      v' = retire v (v.cpu.set i.rd ((guestOf v).loaded i.type (accessAddress v i))) := by
  unfold Steps
  rw [step_of_fetched fetch]
  exact execute_load_iff kind v v'

theorem follows_load (mirrors : Mirrors g v) (fetch : fetched v = some i)
    (checks : st.flags.skipPermissionChecks = false) (clear : v.memory.PaddingClear)
    (regular : Regular host st.singleStep st.maxBlockCount v i) (kind : isLoad i.type = true) :
    Follows st v (effect host.backEnd st v.cpu.pc i g) := by
  have allowed : st.accessAllowed v.memory (accessLog2 i.type) MemoryFlags.read (accessAddress v i) = true ↔ _ :=
    Setting.accessAllowed_eq clear (accessLog2_le i.type) (by decide) checks
  have load := steps_load_iff fetch kind
  rw [effect_load _ st _ g kind, mirrors.memory, mirrors.access]
  split
  · next zero =>
    -- a load to register zero is not emitted, so it must not fault
    obtain ⟨v', steps⟩ := regular.quiet kind zero
    obtain ⟨-, rfl⟩ := (load _).mp steps
    rw [zero, RegisterState.set_zero] at steps
    exact ⟨_, steps, mirrors.moved _, pc_set _ _⟩
  · split
    · next accepted =>
      have steps := (load _).mpr ⟨(allowed.mp accepted).2, rfl⟩
      have value : g.loaded i.type (accessAddress v i) = (guestOf v).loaded i.type (accessAddress v i) := by
        rw [Guest.loaded, mirrors.memory]
        rfl
      rw [value]
      exact ⟨_, steps, mirrors.written _ _ _, pc_set _ _⟩
    · next refused =>
      -- the emitted check also refuses a misaligned address, which the interpreter may accept
      refine ⟨v, .inl ⟨rfl, rfl⟩, mirrors, .fallsBack rfl fun u' steps => ?_⟩
      obtain ⟨verified, rfl⟩ := (load _).mp steps
      have misaligned : (accessAddress v i).toNat % 2 ^ accessLog2 i.type ≠ 0 := fun aligned =>
        refused (allowed.mpr ⟨aligned, verified⟩)
      have successor : (retire v (v.cpu.set i.rd ((guestOf v).loaded i.type
        (accessAddress v i)))).cpu.pc = v.cpu.pc + 4 := pc_set _ _
      rw [successor]
      exact regular.behind (.inr (.inl ⟨.inl kind, misaligned⟩)) _ steps successor

/-- A store that retires has written its value. -/
theorem execute_store_iff (kind : isStore i.type = true) (v v' : VmState) :
    execute v v.cpu.pc i = .ok (true, v') ↔ v.memory.verifyPermissions (accessAddress v i)
        (BitVec.ofNat 64 (2 ^ accessLog2 i.type)) MemoryFlags.write = true ∧
      v' = { retire v v.cpu with memory := ((guestOf v).storeBytes (accessAddress v i)
        (accessLog2 i.type) (v.cpu.get i.rs2)).memory } := by
  have width := storeWidth_of_isStore kind
  rw [execute_store v.cpu.pc width, Memory.writeT_eq]
  split
  · next memory written =>
    split at written
    · next verified =>
      cases written
      simp only [Except.ok.injEq, Prod.mk.injEq, true_and, verified]
      exact eq_comm
    · cases written
  · next written =>
    split at written
    · cases written
    · next refused =>
      exact ⟨fun same => (by cases same), fun retires => absurd retires.1 refused⟩

theorem steps_store_iff (fetch : fetched v = some i) (kind : isStore i.type = true) (v' : VmState) :
    Steps v v' ↔ v.memory.verifyPermissions (accessAddress v i)
        (BitVec.ofNat 64 (2 ^ accessLog2 i.type)) MemoryFlags.write = true ∧
      v' = { retire v v.cpu with memory := ((guestOf v).storeBytes (accessAddress v i)
        (accessLog2 i.type) (v.cpu.get i.rs2)).memory } := by
  unfold Steps
  rw [step_of_fetched fetch]
  exact execute_store_iff kind v v'

theorem follows_store (mirrors : Mirrors g v) (fetch : fetched v = some i)
    (checks : st.flags.skipPermissionChecks = false) (clear : v.memory.PaddingClear)
    (regular : Regular host st.singleStep st.maxBlockCount v i) (kind : isStore i.type = true) :
    Follows st v (effect host.backEnd st v.cpu.pc i g) := by
  have allowed : st.accessAllowed v.memory (accessLog2 i.type) MemoryFlags.write (accessAddress v i) = true ↔ _ :=
    Setting.accessAllowed_eq clear (accessLog2_le i.type) (by decide) checks
  have store := steps_store_iff fetch kind
  rw [effect_store _ st _ g kind, mirrors.memory, mirrors.access]
  split
  · next accepted =>
    have steps := (store _).mpr ⟨(allowed.mp accepted).2, rfl⟩
    refine ⟨_, steps, ?_, pc_set _ _⟩
    have moved := (mirrors.moved (v.cpu.pc + 4)).cpu
    unfold Mirrors Guest.toVm Guest.storeBytes guestOf
    rw [mirrors.memory, mirrors.get i.rs2_ne_pc]
    exact congrArg (fun cpu => VmState.mk _ cpu v.exit) moved
  · next refused =>
    -- as for loads, the interpreter may still accept a misaligned address
    refine ⟨v, .inl ⟨rfl, rfl⟩, mirrors, .fallsBack rfl fun u' steps => ?_⟩
    obtain ⟨verified, rfl⟩ := (store _).mp steps
    have misaligned : (accessAddress v i).toNat % 2 ^ accessLog2 i.type ≠ 0 := fun aligned =>
      refused (allowed.mpr ⟨aligned, verified⟩)
    have successor : (retire v v.cpu).cpu.pc = v.cpu.pc + 4 := pc_set _ _
    show InTable _ (retire v v.cpu).cpu.pc
    rw [successor]
    exact regular.behind (.inr (.inl ⟨.inr kind, misaligned⟩)) _ steps successor

/-- A direct jump to an address of the table. -/
theorem staticBranch_leads {pc target : Word} {u : VmState} (here : u.cpu.pc = target)
    (table : InTable st.maxBlockCount target) :
    ∃ d, st.staticBranch pc target g = .depart d g ∧ Leads st u d := by
  obtain ⟨d, branch⟩ := st.branchTo_departs target g
  refine ⟨d, ?_, branchTo_leads here table branch⟩
  unfold Setting.staticBranch
  rw [if_neg (fun misaligned => misaligned table.1), if_neg (Nat.not_le.mpr table.2), branch]

theorem steps_taken (fetch : fetched v = some i) (kind : isDirect i.type = true)
    (taken : Taken (guestOf v) i) (mirrors : Mirrors g v) :
    ∃ u, Steps v u ∧ u.cpu.pc = v.cpu.pc + i.imm ∧ Mirrors (g.handed i v.cpu.pc) u := by
  unfold Guest.handed
  by_cases jal : i.type = .jal
  · rw [if_pos jal]
    exact ⟨_, steps_of_execute fetch (execute_jump jal v v.cpu.pc), pc_set _ _, mirrors.written _ _ _⟩
  · rw [if_neg jal]
    have branch : branches i.type = true := by
      revert kind jal
      cases i.type <;> decide
    obtain ⟨b, chosen, executed⟩ := execute_branch branch v v.cpu.pc
    cases chosen.symm.trans (taken.resolve_left jal)
    exact ⟨_, steps_of_execute fetch executed, pc_set _ _, mirrors.moved _⟩

theorem steps_notTaken (fetch : fetched v = some i) (kind : isDirect i.type = true)
    (notTaken : ¬Taken (guestOf v) i) :
    Steps v { v with cpu := v.cpu.set Register.pc (v.cpu.pc + 4) } := by
  have branch : branches i.type = true := by
    have jal : i.type ≠ .jal := fun jal => notTaken (.inl jal)
    revert kind jal
    cases i.type <;> decide
  obtain ⟨b, chosen, executed⟩ := execute_branch branch v v.cpu.pc
  cases b with
  | true => exact absurd (.inr chosen) notTaken
  | false => exact steps_of_execute fetch executed

theorem follows_direct (mirrors : Mirrors g v) (fetch : fetched v = some i)
    (regular : Regular host st.singleStep st.maxBlockCount v i) (kind : isDirect i.type = true) :
    Follows st v (effect host.backEnd st v.cpu.pc i g) := by
  classical
  have same : Taken g i ↔ Taken (guestOf v) i := by
    unfold Taken guestOf
    rw [mirrors.get i.rs1_ne_pc, mirrors.get i.rs2_ne_pc]
  rw [effect_direct kind, if_congr same rfl rfl]
  split
  · next taken =>
    obtain ⟨u, steps, here, handed⟩ := steps_taken fetch kind taken mirrors
    obtain ⟨d, branch, leads⟩ := staticBranch_leads here (regular.target kind taken)
    rw [branch]
    exact ⟨u, .inr steps, handed, leads⟩
  · next notTaken =>
    exact ⟨_, steps_notTaken fetch kind notTaken, mirrors.moved _, pc_set _ _⟩

theorem step_unaligned {u : VmState} (misaligned : u.cpu.pc &&& 3 ≠ 0) :
    step u = .ok (false, { u with exit := { u.exit with reason := .unalignedPc } }) := by
  unfold step
  rw [if_pos misaligned]

theorem step_unfetchable {u : VmState} (aligned : u.cpu.pc &&& 3 = 0) (absent : codeAt u.memory u.cpu.pc = none) :
    step u = .ok (false, { u with exit := { u.exit with reason := .instructionFetchFault } }) := by
  unfold step
  rw [if_neg (fun misaligned => misaligned aligned)]
  have refused : u.memory.readT 4 u.cpu.pc MemoryFlags.execute = none := by
    unfold codeAt at absent
    exact Option.map_eq_none_iff.mp absent
  rw [refused]

/-- An indirect jump to an even target. -/
theorem dynamicBranch_leads {u : VmState} (even : u.cpu.pc &&& 1 = 0)
    (bounds : ∀ pc : Word, st.maxBlockCount.toNat ≤ pc.toNat / 4 → codeAt u.memory pc = none) :
    ∃ d, st.dynamicBranch u.cpu.pc g = .depart d g ∧ Leads st u d := by
  unfold Setting.dynamicBranch
  -- the emitted code tests bit 1 and the table; bit 0 is clear by assumption
  by_cases misaligned : u.cpu.pc &&& 2 ≠ 0
  · rw [if_pos misaligned]
    refine ⟨_, rfl, .leaves rfl (.inl rfl) (step_unaligned fun aligned => misaligned ?_)⟩
    rw [show (2 : Word) = 3 &&& 2 by decide, ← BitVec.and_assoc, aligned]
    rfl
  · rw [if_neg misaligned]
    have aligned := aligned_of_bits even (Decidable.not_not.mp misaligned)
    by_cases outside : st.maxBlockCount.toNat ≤ u.cpu.pc.toNat / 4
    · rw [if_pos outside]
      exact ⟨_, rfl, .leaves rfl (.inr ⟨rfl, rfl⟩) (step_unfetchable aligned (bounds _ outside))⟩
    · rw [if_neg outside]
      obtain ⟨d, branch⟩ := st.branchTo_departs u.cpu.pc g
      exact ⟨d, branch, branchTo_leads rfl ⟨aligned, Nat.lt_of_not_le outside⟩ branch⟩

theorem follows_indirect (mirrors : Mirrors g v) (fetch : fetched v = some i)
    (regular : Regular host st.singleStep st.maxBlockCount v i)
    (bounds : ∀ pc : Word, st.maxBlockCount.toNat ≤ pc.toNat / 4 → codeAt v.memory pc = none)
    (kind : i.type = .jalr) : Follows st v (effect host.backEnd st v.cpu.pc i g) := by
  -- the interpreter clears bit 0 of the target and generated code keeps it, so they agree where it is clear
  have even := regular.even kind
  have steps := steps_of_execute fetch (execute_jumpIndirect kind v v.cpu.pc)
  rw [(masked_eq_self_iff _).mpr even] at steps
  let u := jump v (v.cpu.set i.rd (v.cpu.pc + 4)) (accessAddress v i)
  have here : u.cpu.pc = accessAddress v i := pc_set _ _
  obtain ⟨d, branch, leads⟩ : ∃ d, st.dynamicBranch u.cpu.pc (g.setRegister i.rd (v.cpu.pc + 4))
      = .depart d (g.setRegister i.rd (v.cpu.pc + 4)) ∧ Leads st u d :=
    dynamicBranch_leads (by rw [here]; exact even) bounds
  rw [here] at branch
  simp only [effect, kind]
  rw [mirrors.access, branch]
  exact ⟨_, .inr steps, mirrors.written _ _ _, leads⟩

theorem follows_exit (mirrors : Mirrors g v) (fetch : fetched v = some i) {result : Bool × VmState}
    (stepped : step v = .ok result) {reason : ArchExitReason}
    (kind : exitReason i.type = some reason) : Follows st v (effect host.backEnd st v.cpu.pc i g) := by
  rw [effect_exit _ st _ g kind]
  rw [step_of_fetched fetch] at stepped
  have leaves (reported : ExitReason) (same : reason.exitReason = some reported)
      (executed : execute v v.cpu.pc i = .ok (false, { v with exit := { v.exit with reason := reported } })) :
      Follows st v (.depart (.exit reason v.cpu.pc) g) := by
    refine ⟨v, .inl ⟨rfl, ?_⟩, mirrors, .leaves same (.inl rfl) ((step_of_fetched fetch).trans executed)⟩
    cases reason <;> first | rfl | cases same
  unfold execute at stepped leaves
  cases type : i.type <;> rw [type] at kind <;>
    simp only [exitReason, reduceCtorEq, Option.some.injEq] at kind
  -- the interpreter gives up at the upper halves of products, so no run comes past them
  case mulh | mulhu | mulhsu =>
    simp only [type] at stepped
    cases stepped
  all_goals
    subst kind
    exact leaves _ rfl (by simp only [type])

theorem follows_fence (mirrors : Mirrors g v) (fetch : fetched v = some i) (kind : i.type = .fence) :
    Follows st v (effect host.backEnd st v.cpu.pc i g) := by
  have executed : execute v v.cpu.pc i = .ok (true, { v with cpu := v.cpu.set Register.pc (v.cpu.pc + 4) }) := by
    unfold execute
    rw [kind]
  simp only [effect, kind]
  exact ⟨_, steps_of_execute fetch executed, mirrors.moved _, pc_set _ _⟩

theorem follows_computation (mirrors : Mirrors g v) (fetch : fetched v = some i)
    {result : Bool × VmState} (stepped : step v = .ok result)
    (regular : Regular host st.singleStep st.maxBlockCount v i) (kind : isComputation i.type = true) :
    Follows st v (effect host.backEnd st v.cpu.pc i g) := by
  have family := isComputation_cases kind
  have executed := execute_computed v i (family.imp id And.right)
  obtain ⟨value, computes⟩ : ∃ value, computed i v.cpu.pc v.cpu = .ok value := by
    rw [step_of_fetched fetch, executed] at stepped
    cases computes : computed i v.cpu.pc v.cpu with
    | ok value => exact ⟨value, rfl⟩
    | error e =>
      rw [computes] at stepped
      cases stepped
  have steps : Steps v (retire v (v.cpu.set i.rd value)) := by
    refine steps_of_execute fetch ?_
    rw [executed, computes]
    rfl
  have successor : (retire v (v.cpu.set i.rd value)).cpu.pc = v.cpu.pc + 4 := pc_set _ _
  rw [effect_computation _ st _ g kind]
  split
  · next unsupported =>
    -- the interpreter computes what the host has no code for
    refine ⟨v, .inl ⟨rfl, rfl⟩, mirrors, .fallsBack rfl fun u' steps' => ?_⟩
    cases steps.symm.trans steps'
    rw [successor]
    have unsupported : host.backEnd.supports i = false := by simpa using unsupported
    exact regular.behind (.inr (.inr ⟨kind, unsupported⟩)) _ steps successor
  · split
    · next zero =>
      rw [zero, RegisterState.set_zero] at steps
      exact ⟨_, steps, mirrors.moved _, pc_set _ _⟩
    · next nonzero =>
      have shape := immediateOf_fetched fetch
      have agree := regular.values kind
      have same : host.backEnd.value i v.cpu.pc g.registers = some value := by
        rw [value_congr (mirrors.get i.rs1_ne_pc) (mirrors.get i.rs2_ne_pc),
          value_isa shape agree nonzero family computes, computed_isa shape agree nonzero family computes]
      rw [same]
      exact ⟨_, steps, mirrors.written _ _ _, successor⟩

/-- Where the engines do not differ, the code of an instruction follows the interpreter. -/
theorem follows_effect (mirrors : Mirrors g v) (fetch : fetched v = some i) {result : Bool × VmState}
    (stepped : step v = .ok result) (checks : st.flags.skipPermissionChecks = false)
    (clear : v.memory.PaddingClear)
    (bounds : ∀ pc : Word, st.maxBlockCount.toNat ≤ pc.toNat / 4 → codeAt v.memory pc = none)
    (regular : Regular host st.singleStep st.maxBlockCount v i) :
    Follows st v (effect host.backEnd st v.cpu.pc i g) := by
  rcases instruction_family i.type with kind | kind | kind | ⟨reason, kind⟩ | kind | kind | kind | kind
  · exact follows_load mirrors fetch checks clear regular kind
  · exact follows_store mirrors fetch checks clear regular kind
  · exact follows_direct mirrors fetch regular (by simp [isDirect, kind])
  · exact follows_exit mirrors fetch stepped kind
  · exact follows_direct mirrors fetch regular (by simp [isDirect, kind])
  · exact follows_indirect mirrors fetch regular bounds kind
  · exact follows_fence mirrors fetch kind
  · exact follows_computation mirrors fetch stepped regular kind

end Follows

end Riscv64Emulator.Jit
