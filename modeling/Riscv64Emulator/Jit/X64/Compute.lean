import Riscv64Emulator.Jit.X64.Fragments

/-!
# Computations on x64

The code of the instructions that compute a register from registers and an immediate,
with the value it gives `rd`.
-/
namespace Riscv64Emulator.Jit.X64

open LinearCode

/-- The 32-bit operations, whose result is sign-extended when it is stored. -/
def isWord : InstructionType → Bool
  | .addiw | .slliw | .srliw | .sraiw | .addw | .subw | .sllw | .srlw | .sraw => true
  | _ => false

/-- The value of an operation on 64-bit operands, sign-extended for the 32-bit forms. -/
def operationValue (type : InstructionType) (a b : Word) : Word :=
  match hostOp type with
  | some op => if isWord type then signextend32 (op.apply a b) else op.apply a b
  | none => 0

/-- The second operand of the register-register code: the in-place form uses the
immediate. -/
def registerOperand2 (i : Instruction) (b : Word) : Word :=
  if isWord i.type = false ∧ i.rd = i.rs1 then i.imm else b

/-- The value the code of a computation gives `rd`. -/
def computedValue (i : Instruction) (pc : Word) (r : RegisterState) : Word :=
  let a := r.get i.rs1
  let b := r.get i.rs2
  match i.type with
  | .lui => i.imm
  | .auipc => pc + i.imm
  | .addi | .xori | .ori | .andi | .addiw
  | .slli | .srli | .srai | .slliw | .srliw | .sraiw => operationValue i.type a i.imm
  | .slt => if a.slt b then 1 else 0
  | .sltu => if a.ult b then 1 else 0
  | .slti => if a.slt i.imm then 1 else 0
  | .sltiu => if a.ult i.imm then 1 else 0
  | .add | .sub | .xor | .or | .and | .sll | .srl | .sra
  | .addw | .subw | .sllw | .srlw | .sraw => operationValue i.type a (registerOperand2 i b)
  | .mul => a * b
  | .mulw => signextend32 (a * b)
  | _ => 0

/-! ### Flags of a comparison -/

theorem holds_e (a b : Word) : Condition.e.holds (compareFlags a b) = (a == b) :=
  subtraction_zero a b

theorem holds_ne (a b : Word) : Condition.ne.holds (compareFlags a b) = !(a == b) :=
  congrArg not (holds_e a b)

theorem holds_b (a b : Word) : Condition.b.holds (compareFlags a b) = a.ult b := rfl

theorem holds_l (a b : Word) : Condition.l.holds (compareFlags a b) = a.slt b :=
  subtraction_less a b

/-! ### The cases of `generate_instruction` -/

namespace CodeGenerator

variable (st : Setting) (size : Word) {i : Instruction}

/-- The generator's code sets `rd` to a value computed from the registers. -/
abbrev Computes (x : Gen Unit) (rd : Register) (value : RegisterState → Word) : Prop :=
  ∀ n, Does x n () n (Anchored st size)
    (fun env s s' => Retires st size (s.guest.setRegister rd (value s.guest.registers)) env s')

/-- `op t, o` and the store of `t`. -/
theorem does_binary_store {type : InstructionType} {op : HostOp} (known : hostOp type = some op)
    {t : X64R} (scratch : isScratch t = true) {o : Operand}
    (encodable : (op.instr (.reg t) o).encodable = true) {rd : Register}
    (nonzero : rd ≠ Register.zero) (below : rd ≠ Register.pc) (signExtend : Bool) (n : Nat)
    (v : State → Word) :
    Does (do generateBinaryOperation type (.reg t) o; storeRegister rd t signExtend) n () n
      (fun env s => Anchored st size env s ∧ s.foreign t = false ∧ Yields env s o (v s))
      (fun env s s' => Retires st size
        (s.guest.setRegister rd (extended signExtend (op.apply (s.regs t) (v s)))) env s') := by
  refine (does_binary_reg known encodable n v).seq
    (does_storeRegister st size scratch nonzero below signExtend n)
    (fun _ _ holds => holds.2) ?_
  rintro env s s₁ ⟨anchored, -⟩ sets
  refine ⟨⟨sets.anchored anchored scratch, sets.native⟩, fun s₂ retires => ?_⟩
  simpa only [sets.guest, sets.value] using retires

/-- `mov t, [rs]` in front of code that works on `t`. -/
theorem does_load_then {t : X64R} (scratch : isScratch t = true) {rs rd : Register}
    (source : rs ≠ Register.pc) {rest : Gen Unit} {n : Nat}
    (value : RegisterState → Word → Word)
    (does : Does rest n () n (fun env s => Anchored st size env s ∧ s.foreign t = false)
      (fun env s s' => Retires st size
        (s.guest.setRegister rd (value s.guest.registers (s.regs t))) env s')) :
    Does (do loadRegister t rs 0; rest) n () n (Anchored st size)
      (fun env s s' => Retires st size (s.guest.setRegister rd
        (value s.guest.registers (s.guest.registers.get rs))) env s') := by
  refine (does_loadRegister st size source (by decide) n).seq does
    (fun _ _ holds => holds) ?_
  rintro env s s₁ anchored sets
  refine ⟨⟨sets.anchored anchored scratch, sets.native⟩, fun s₂ retires => ?_⟩
  simpa [sets.guest, sets.value] using retires

/-- The 12-bit and shift immediates all have a host encoding. -/
theorem encodable_immediate {op : HostOp} (known : hostOp i.type = some op)
    (shape : InstructionDecoder.ImmediateOf i.type i.b) (dst : Operand) (isDst : dst.isImm = false) :
    (op.instr dst (.imm i.imm)).encodable = true := by
  cases op with
  | alu op =>
    simp [HostOp.instr, Instr.encodable, Operand.pairable, isDst, Operand.isMem, fitsImm32_imm]
  | shift op =>
    -- a shift amount fits the eight bits of its field
    have small : i.b.toNat < 64 := by
      cases type : i.type <;>
        simp only [type, hostOp, Option.some.injEq, reduceCtorEq, InstructionDecoder.ImmediateOf]
          at known shape <;>
        first | exact shape | (rw [shape]; decide) | exact Nat.lt_of_lt_of_le shape (by decide)
    have amount : i.imm.toNat < 256 := by
      have same := Instruction.imm_toNat_of_small (i := i) (by omega)
      omega
    simp [HostOp.instr, Instr.encodable, isDst, amount]

/-- Register immediates, `li`, `mv` and `sext.w`. The code for `sext.w` of `x0` does not
exist. -/
theorem computes_generateImmediate {op : HostOp} (known : hostOp i.type = some op)
    (shape : InstructionDecoder.ImmediateOf i.type i.b) (nonzero : i.rd ≠ Register.zero)
    (word : instructionAnyOf i.type [.addiw, .slliw, .srliw, .sraiw] = isWord i.type)
    (compilable : ¬(i.type = .addiw ∧ i.imm = 0 ∧ i.rs1 = Register.zero)) :
    Computes st size (generateImmediate i) i.rd
      (fun r => operationValue i.type (r.get i.rs1) i.imm) := by
  intro n
  unfold generateImmediate
  have value : ∀ a b, operationValue i.type a b = extended (isWord i.type) (op.apply a b) := by
    intro a b
    simp only [operationValue, known, extended]
  split
  -- `li`: an addition to register zero
  next li =>
    refine (does_storeImmToRegister st size (by rfl) i.rd_ne_pc i.imm n).conseq
      (fun _ _ holds => holds) ?_
    rintro env s s' anchored ⟨retires, -⟩
    have add : operationValue i.type (s.guest.registers.get i.rs1) i.imm = i.imm := by
      rw [li.1, li.2, anchored.serves.zero]
      exact BitVec.zero_add _
    simpa only [add] using retires
  next =>
  split
  -- `mv`: an addition of zero
  next mv =>
    refine (does_loadRegister st size (t := RA.a) i.rs1_ne_pc (by decide) n).seq
      (does_storeRegister st size rfl nonzero i.rd_ne_pc false n) (fun _ _ holds => holds) ?_
    rintro env s s₁ anchored sets
    refine ⟨⟨sets.anchored anchored rfl, sets.native⟩, fun s₂ retires => ?_⟩
    have add : ∀ a, operationValue i.type a i.imm = a := by
      intro a
      rw [mv.1, mv.2]
      exact BitVec.add_zero a
    simpa [sets.guest, sets.value, extended, add] using retires
  next =>
  split
  -- `sext.w`: a word addition of zero
  next sext =>
    have source : i.rs1 ≠ Register.zero := fun zero => compilable ⟨sext.1, sext.2, zero⟩
    refine .silent (run_registerOperandOrZero i.rs1_ne_pc n) ?_
    rw [slotOrZero, if_neg source]
    have extend : Does (ins (.extend .sxd RA.a (slot i.rs1))) n () n (Anchored st size)
        (fun _ s s' => Sets RA.a (signextend32 (s.guest.registers.get i.rs1)) s s') := by
      refine .instr (run_ins rfl n) fun env s anchored => ?_
      obtain ⟨safe, next⟩ := step_sxd_slot RA.a anchored source i.rs1_ne_pc
      exact ⟨safe, _, next, s.flags, rfl⟩
    refine extend.seq (does_storeRegister st size rfl nonzero i.rd_ne_pc false n)
      (fun _ _ holds => holds) ?_
    rintro env s s₁ anchored sets
    refine ⟨⟨sets.anchored anchored rfl, sets.native⟩, fun s₂ retires => ?_⟩
    have add : ∀ a, operationValue i.type a i.imm = signextend32 a := by
      intro a
      rw [sext.1, sext.2]
      exact congrArg signextend32 (BitVec.add_zero a)
    simpa [sets.guest, sets.value, extended, add] using retires
  next =>
  dsimp only
  split
  -- the destination is the source, so the slot itself is operated on
  next inPlace =>
    refine .silent (run_registerOperand nonzero i.rd_ne_pc n) ?_
    refine (does_binary_slot st size known nonzero i.rd_ne_pc
      (encodable_immediate known shape _ rfl) n fun _ => i.imm).conseq
      (fun env s anchored => ⟨anchored, yields_imm env s i.imm⟩) ?_
    rintro env s s' - retires
    have plain : isWord i.type = false := by rw [← word]; simpa using inPlace.1
    simpa [value, plain, extended, ← inPlace.2] using retires
  next =>
    simp only [value, word]
    refine does_load_then st size rfl i.rs1_ne_pc
      (fun _ a => extended (isWord i.type) (op.apply a i.imm)) ?_
    exact (does_binary_store st size known rfl (encodable_immediate known shape _ rfl) nonzero
      i.rd_ne_pc _ n fun _ => i.imm).conseq
      (fun env s holds => ⟨holds.1, holds.2, yields_imm env s i.imm⟩) (fun _ _ _ _ post => post)

/-- Register-register operations. -/
theorem computes_generateRegister {op : HostOp} (known : hostOp i.type = some op)
    (shape : InstructionDecoder.ImmediateOf i.type i.b) (nonzero : i.rd ≠ Register.zero)
    (word : instructionAnyOf i.type [.addw, .subw, .sllw, .srlw, .sraw] = isWord i.type)
    (shift : instructionAnyOf i.type [.sll, .srl, .sra, .sllw, .srlw, .sraw] = op.isShift) :
    Computes st size (generateRegister i) i.rd
      (fun r => operationValue i.type (r.get i.rs1) (registerOperand2 i (r.get i.rs2))) := by
  intro n
  have value : ∀ a b, operationValue i.type a b = extended (isWord i.type) (op.apply a b) := by
    intro a b
    simp only [operationValue, known, extended]
  unfold generateRegister
  rw [word, shift]
  dsimp only
  split
  next inPlace =>
    refine .silent (run_registerOperand nonzero i.rd_ne_pc n) ?_
    refine (does_binary_slot st size known nonzero i.rd_ne_pc
      (encodable_immediate known shape _ rfl) n fun _ => i.imm).conseq
      (fun env s anchored => ⟨anchored, yields_imm env s i.imm⟩) ?_
    rintro env s s' - retires
    have plain : isWord i.type = false := by simpa using inPlace.1
    simpa [value, plain, extended, registerOperand2, ← inPlace.2] using retires
  next separate =>
    have second : ∀ b, registerOperand2 i b = b := by
      intro b
      rw [registerOperand2, if_neg (by simpa using separate)]
    simp only [value, second]
    refine does_load_then st size rfl i.rs1_ne_pc
      (fun r a => extended (isWord i.type) (op.apply a (r.get i.rs2))) ?_
    cases op with
    | alu op =>
      simp only [HostOp.isShift, Bool.false_eq_true, if_false]
      refine .silent (run_registerOperandOrZero i.rs2_ne_pc n) ?_
      exact (does_binary_store st size known (t := RA.a) rfl (encodable_slotOrZero op RA.a i.rs2)
        nonzero i.rd_ne_pc _ n fun s => s.guest.registers.get i.rs2).conseq
        (fun env s holds => ⟨holds.1, holds.2, yields_slotOrZero holds.1 i.rs2_ne_pc⟩)
        (fun _ _ _ _ post => post)
    | shift op =>
      simp only [HostOp.isShift, if_true]
      -- the amount goes to `cl`, past the value in `a`
      refine (does_loadRegister st size (t := RA.c) i.rs2_ne_pc (by decide) n).seq
        (.silent (Emitter.run_pure _ n) (does_binary_store st size known (t := RA.a) rfl rfl
          nonzero i.rd_ne_pc _ n fun s => s.regs RA.c)) (fun _ _ holds => holds.1) ?_
      rintro env s s₁ ⟨anchored, native⟩ sets
      have kept := sets.other (q := RA.a) (by decide)
      refine ⟨⟨sets.anchored anchored rfl, kept.2.trans native, yields_reg env sets.native⟩,
        fun s₂ retires => ?_⟩
      simpa [sets.guest, sets.value, kept.1] using retires

/-- `cmp o, o'`, `setcc a` and the store of `a`. -/
theorem does_cmp_setcc_store {o o' : Operand} (encodable : (Instr.cmp o o').encodable = true)
    (c : Condition) {rd : Register} (nonzero : rd ≠ Register.zero) (below : rd ≠ Register.pc)
    (n : Nat) (x y : RegisterState → Word) :
    Does (do ins (.cmp o o'); ins (.setcc c RA.a); storeRegister rd RA.a false) n () n
      (fun env s => Anchored st size env s ∧ s.regs RA.a = 0 ∧ s.foreign RA.a = false ∧
        Yields env s o (x s.guest.registers) ∧ Yields env s o' (y s.guest.registers))
      (fun env s s' => Retires st size (s.guest.setRegister rd
        (if c.holds (compareFlags (x s.guest.registers) (y s.guest.registers)) then 1 else 0))
        env s') := by
  -- the three instructions, each from what it needs
  have compare : Does (ins (.cmp o o')) n () n
      (fun env s => Yields env s o (x s.guest.registers) ∧ Yields env s o' (y s.guest.registers))
      (fun _ s s' => s' = s.setFlags (some
        (compareFlags (x s.guest.registers) (y s.guest.registers)))) := by
    refine .instr (run_ins encodable n) fun env s ⟨left, right⟩ => ?_
    obtain ⟨safe, next⟩ := step_cmp left right
    exact ⟨safe, _, next, rfl⟩
  have set : Does (ins (.setcc c RA.a)) n () n
      (fun _ s => s.regs RA.a = 0 ∧ s.foreign RA.a = false ∧ s.flags = some
        (compareFlags (x s.guest.registers) (y s.guest.registers)))
      (fun _ s s' => Sets RA.a (if c.holds (compareFlags (x s.guest.registers)
        (y s.guest.registers)) then 1 else 0) s s') := by
    refine .instr (run_ins rfl n) fun env s ⟨clear, native, known⟩ => ?_
    obtain ⟨safe, next⟩ := step_setcc env c known clear
    exact ⟨safe, _, next, s.flags, by rw [native]; rfl⟩
  have store : Does (do ins (.setcc c RA.a); storeRegister rd RA.a false) n () n
      (fun env s => Anchored st size env s ∧ s.regs RA.a = 0 ∧ s.foreign RA.a = false ∧
        s.flags = some (compareFlags (x s.guest.registers) (y s.guest.registers)))
      (fun env s s' => Retires st size (s.guest.setRegister rd
        (if c.holds (compareFlags (x s.guest.registers) (y s.guest.registers)) then 1 else 0))
        env s') := by
    refine set.seq (does_storeRegister st size rfl nonzero below false n)
      (fun _ _ holds => holds.2) ?_
    rintro env s s₁ ⟨anchored, -⟩ sets
    refine ⟨⟨sets.anchored anchored rfl, sets.native⟩, fun s₂ retires => ?_⟩
    simpa [sets.guest, sets.value, extended] using retires
  refine compare.seq store (fun _ _ holds => holds.2.2.2) ?_
  rintro env s s₁ ⟨anchored, clear, native, -⟩ rfl
  exact ⟨⟨anchored.setFlags _, clear, native, rfl⟩, fun s₂ retires => retires⟩

/-- The comparisons. There is no code for comparing `x0` with an immediate. -/
theorem computes_generateCompare (kind : instructionAnyOf i.type [.slt, .sltu, .slti, .sltiu] = true)
    (nonzero : i.rd ≠ Register.zero)
    (compilable : ¬((i.type = .slti ∨ i.type = .sltiu) ∧ i.rs1 = Register.zero)) (pc : Word) :
    Computes st size (generateCompare i) i.rd (computedValue i pc) := by
  intro n
  unfold generateCompare
  have clear : Does (ins (.alu .xor .bits64 (.reg RA.a) (.reg RA.a))) n () n (Anchored st size)
      (fun _ s s' => Sets RA.a 0 s s') := by
    refine .instr (run_ins rfl n) fun env s _ => ?_
    obtain ⟨safe, next⟩ := step_clear env s RA.a
    exact ⟨safe, _, next, none, rfl⟩
  -- the result register is cleared first, as `setcc` writes one byte
  by_cases hasImm : instructionAnyOf i.type [.slti, .sltiu] = true
  · have source : i.rs1 ≠ Register.zero := fun zero =>
      compilable ⟨by simpa [instructionAnyOf] using hasImm, zero⟩
    simp only [hasImm, if_true]
    refine clear.seq (.silent (run_registerOperand source i.rs1_ne_pc n)
      (does_cmp_setcc_store st size (encodable_cmp_imm rfl (fitsImm32_imm i)) _ nonzero i.rd_ne_pc
        n (fun r => r.get i.rs1) fun _ => i.imm)) (fun _ _ holds => holds) ?_
    rintro env s s₁ anchored sets
    have anchored₁ := sets.anchored anchored rfl
    refine ⟨⟨anchored₁, sets.value, sets.native, yields_slot anchored₁ source i.rs1_ne_pc,
      yields_imm env s₁ i.imm⟩, fun s₂ retires => ?_⟩
    rw [sets.guest] at retires
    unfold computedValue
    cases type : i.type <;> simp only [type, instructionAnyOf] at hasImm
    all_goals first
      | exact absurd hasImm (by decide)
      | simpa [type, instructionAnyOf, holds_l, holds_b] using retires
  · simp only [hasImm]
    have compare : Does (do
          loadRegister RA.b i.rs1 0
          ins (.cmp (.reg RA.b) (← registerOperandOrZero i.rs2))
          ins (.setcc (if instructionAnyOf i.type [.sltu, .sltiu] then .b else .l) RA.a)
          storeRegister i.rd RA.a false) n () n
        (fun env s => Anchored st size env s ∧ s.regs RA.a = 0 ∧ s.foreign RA.a = false)
        (fun env s s' => Retires st size
          (s.guest.setRegister i.rd (computedValue i pc s.guest.registers)) env s') := by
      refine (does_loadRegister st size (t := RA.b) i.rs1_ne_pc (by decide) n).seq
        (.silent (run_registerOperandOrZero i.rs2_ne_pc n)
          (does_cmp_setcc_store st size (encodable_cmp_slotOrZero RA.b i.rs2) _ nonzero i.rd_ne_pc
            n (fun r => r.get i.rs1) fun r => r.get i.rs2)) (fun _ _ holds => holds.1) ?_
      rintro env s s₁ ⟨anchored, cleared, native⟩ sets
      have anchored₁ := sets.anchored anchored rfl
      -- loading the operand does not disturb the cleared register
      have kept := sets.other (q := RA.a) (by decide)
      have left := yields_reg env sets.native
      rw [sets.value, BitVec.ofNat_eq_ofNat, BitVec.add_zero, ← sets.guest] at left
      refine ⟨⟨anchored₁, kept.1.trans cleared, kept.2.trans native, left,
        yields_slotOrZero anchored₁ i.rs2_ne_pc⟩, fun s₂ retires => ?_⟩
      rw [sets.guest] at retires
      unfold computedValue
      cases type : i.type <;> simp only [type, instructionAnyOf] at kind hasImm
      all_goals first
        | exact absurd kind (by decide)
        | exact absurd rfl hasImm
        | simpa [type, instructionAnyOf, holds_l, holds_b] using retires
    refine clear.seq compare (fun _ _ holds => holds) ?_
    rintro env s s₁ anchored sets
    refine ⟨⟨sets.anchored anchored rfl, sets.value, sets.native⟩, fun s₂ retires => ?_⟩
    simpa only [sets.guest] using retires

theorem signextend32_lowBytes (v : Word) : signextend32 (lowBytes 4 v) = signextend32 v := by
  rw [signextend32, setWidth_lowBytes, signextend32]

theorem computes_generateMultiply (kind : i.type = .mul ∨ i.type = .mulw)
    (nonzero : i.rd ≠ Register.zero) (pc : Word) :
    Computes st size (generateMultiply i) i.rd (computedValue i pc) := by
  intro n
  unfold generateMultiply
  have multiply : ∀ word : Bool,
      Does (ins (.imul (if word then .bits32 else .bits64) RA.a RA.b)) n () n
        (fun _ s => s.foreign RA.a = false ∧ s.foreign RA.b = false)
        (fun _ s s' => Sets RA.a
          (if word then lowBytes 4 (s.regs RA.a * s.regs RA.b) else s.regs RA.a * s.regs RA.b) s s')
      := by
    intro word
    refine .instr (run_ins rfl n) fun env s ⟨left, right⟩ => ⟨rfl, _, rfl, none, ?_⟩
    rw [left, right]
    cases word <;> rfl
  let word := instructionAnyOf i.type [.mulw]
  have product : Does (do
        ins (.imul (if word then .bits32 else .bits64) RA.a RA.b)
        storeRegister i.rd RA.a word) n () n
      (fun env s => Anchored st size env s ∧ s.foreign RA.a = false ∧ s.foreign RA.b = false)
      (fun env s s' => Retires st size (s.guest.setRegister i.rd
        (extended word (s.regs RA.a * s.regs RA.b))) env s') := by
    refine (multiply word).seq (does_storeRegister st size rfl nonzero i.rd_ne_pc word n)
      (fun _ _ holds => holds.2) ?_
    rintro env s s₁ ⟨anchored, -⟩ sets
    refine ⟨⟨sets.anchored anchored rfl, sets.native⟩, fun s₂ retires => ?_⟩
    rw [sets.guest, sets.value] at retires
    cases known : word <;> simpa [known, extended, signextend32_lowBytes] using retires
  have operands : Does (do
        loadRegister RA.b i.rs2 0
        ins (.imul (if word then .bits32 else .bits64) RA.a RA.b)
        storeRegister i.rd RA.a word) n () n
      (fun env s => Anchored st size env s ∧ s.foreign RA.a = false)
      (fun env s s' => Retires st size (s.guest.setRegister i.rd
        (extended word (s.regs RA.a * s.guest.registers.get i.rs2))) env s') := by
    refine (does_loadRegister st size (t := RA.b) i.rs2_ne_pc (by decide) n).seq product
      (fun _ _ holds => holds.1) ?_
    rintro env s s₁ ⟨anchored, native⟩ sets
    -- the second operand is loaded over neither the first nor the result
    have kept := sets.other (q := RA.a) (by decide)
    refine ⟨⟨sets.anchored anchored rfl, kept.2.trans native, sets.native⟩, fun s₂ retires => ?_⟩
    simpa [sets.guest, sets.value, kept.1] using retires
  refine (does_load_then st size rfl i.rs1_ne_pc
    (fun r a => extended word (a * r.get i.rs2)) operands).conseq (fun _ _ holds => holds) ?_
  rintro env s s' - retires
  unfold computedValue
  rcases kind with type | type <;>
    simpa [type, word, instructionAnyOf, extended] using retires

/-- No host instruction does what the generator asks for: comparing `x0` with an
immediate, or sign-extending it. -/
def NoCode (i : Instruction) : Prop :=
  i.rd ≠ Register.zero ∧ i.rs1 = Register.zero ∧
    (i.type = .slti ∨ i.type = .sltiu ∨ (i.type = .addiw ∧ i.imm = 0))

/-- The generator of a computation's code. -/
def computation (g : CodeGenerator) (i : Instruction) : Gen Unit :=
  match i.type with
  | .lui => storeImmToRegister i.rd RA.a i.imm
  | .auipc => storeUimmToRegister i.rd RA.a (g.currentPc + i.imm)
  | .slt | .sltu | .slti | .sltiu => generateCompare i
  | .add | .sub | .xor | .or | .and | .sll | .srl | .sra
  | .addw | .subw | .sllw | .srlw | .sraw => generateRegister i
  | .mul | .mulw => generateMultiply i
  | _ => generateImmediate i

theorem generateInstruction_computation (g : CodeGenerator)
    (kind : computesDirectly i.type = true) :
    g.generateInstruction i =
      (do
        if i.rd ≠ Register.zero then g.computation i
        pure true) := by
  unfold generateInstruction computation
  cases type : i.type <;> simp only [type, computesDirectly] at kind <;>
    first | rfl | exact absurd kind (by decide)

theorem computes_computation (g : CodeGenerator)
    (shape : InstructionDecoder.ImmediateOf i.type i.b) (kind : computesDirectly i.type = true)
    (nonzero : i.rd ≠ Register.zero) (compilable : ¬NoCode i) :
    Computes st size (g.computation i) i.rd (computedValue i g.currentPc) := by
  -- the families take their operation from `hostOp`
  have immediate : ∀ op, hostOp i.type = some op →
      instructionAnyOf i.type [.addiw, .slliw, .srliw, .sraiw] = isWord i.type →
      Computes st size (generateImmediate i) i.rd
        (fun r => operationValue i.type (r.get i.rs1) i.imm) := fun op known word =>
    computes_generateImmediate st size known shape nonzero word
      fun h => compilable ⟨nonzero, h.2.2, Or.inr (Or.inr ⟨h.1, h.2.1⟩)⟩
  have register : ∀ op, hostOp i.type = some op →
      instructionAnyOf i.type [.addw, .subw, .sllw, .srlw, .sraw] = isWord i.type →
      instructionAnyOf i.type [.sll, .srl, .sra, .sllw, .srlw, .sraw] = op.isShift →
      Computes st size (generateRegister i) i.rd
        (fun r => operationValue i.type (r.get i.rs1) (registerOperand2 i (r.get i.rs2))) :=
    fun op known word shift => computes_generateRegister st size known shape nonzero word shift
  have compare : instructionAnyOf i.type [.slt, .sltu, .slti, .sltiu] = true →
      Computes st size (generateCompare i) i.rd (computedValue i g.currentPc) := fun kind =>
    computes_generateCompare st size kind nonzero
      (fun h => compilable ⟨nonzero, h.2, h.1.imp_right Or.inl⟩) g.currentPc
  have constant : ∀ imm : Word,
      Computes st size (storeImmToRegister i.rd RA.a imm) i.rd fun _ => imm := fun imm n =>
    (does_storeImmToRegister st size rfl i.rd_ne_pc imm n).conseq (fun _ _ holds => holds)
      fun _ _ _ _ post => post.1
  have multiply := computes_generateMultiply st size (i := i)
  unfold computation
  cases type : i.type <;> simp only [type, computesDirectly] at kind
  all_goals first
    | exact absurd kind (by decide)
    | exact compare (by rw [type]; rfl)
    | exact multiply (by simp [type]) nonzero g.currentPc
    | (unfold computedValue; simp only [type]; exact constant _)
    | (have value := immediate _ (by rw [type]; rfl) (by rw [type]; rfl)
       unfold computedValue; simpa only [type] using value)
    | (have value := register _ (by rw [type]; rfl) (by rw [type]; rfl) (by rw [type]; rfl)
       unfold computedValue; simpa only [type] using value)

end CodeGenerator

open CodeGenerator in
/-- The generator gives up on the instructions without code: `register_operand` rejects
`x0`, and `movsxd` takes no immediate. -/
theorem run_noCode (g : CodeGenerator) {i : Instruction} (noCode : NoCode i) (n : Nat) :
    ∃ e, (g.generateInstruction i).run n = .error e := by
  obtain ⟨nonzero, source, kind⟩ := noCode
  have direct : computesDirectly i.type = true := by
    rcases kind with type | type | ⟨type, -⟩ <;> rw [type] <;> rfl
  have failed : ∃ e, (g.computation i).run n = .error e := by
    -- a comparison asks for the slot of register zero, which it does not have;
    -- a `sext.w` of it would extend an immediate, which cannot be encoded
    have compare : i.type = .slti ∨ i.type = .sltiu → (generateCompare i).run n
        = .error (.verify "cannot get operand for zero register") := by
      rintro (type | type) <;>
        simp [type, source, generateCompare, instructionAnyOf, Emitter.run_bind,
          run_ins (rfl : (Instr.alu .xor .bits64 (.reg RA.a) (.reg RA.a)).encodable = true),
          run_registerOperand_zero]
    unfold computation
    rcases kind with type | type | ⟨type, imm⟩
    · exact ⟨_, by simpa only [type] using compare (Or.inl type)⟩
    · exact ⟨_, by simpa only [type] using compare (Or.inr type)⟩
    · refine ⟨.notEncodable, ?_⟩
      simp [type, imm, source, generateImmediate, registerOperandOrZero, Emitter.run_bind, ins,
        Instr.encodable, Operand.isImm]
  obtain ⟨e, failed⟩ := failed
  refine ⟨e, ?_⟩
  rw [generateInstruction_computation g direct]
  simp only [ne_eq, nonzero, not_false_eq_true, if_true]
  exact Emitter.run_bind_of_error failed _

open CodeGenerator in
/-- The code of a computation sets `rd` to `computedValue`. -/
theorem does_computation (st : Setting) (size : Word) (g : CodeGenerator) {i : Instruction}
    (shape : InstructionDecoder.ImmediateOf i.type i.b)
    (kind : computesDirectly i.type = true) (compilable : ¬NoCode i) (n : Nat) :
    Does (g.generateInstruction i) n true n (Anchored st size)
      (fun env s s' => Retires st size
        (s.guest.setRegister i.rd (computedValue i g.currentPc s.guest.registers)) env s') := by
  rw [generateInstruction_computation g kind]
  -- nothing is emitted for register zero
  by_cases zero : i.rd = Register.zero
  · simp only [zero, ne_eq, not_true_eq_false, if_false]
    refine (Emitter.Straight.pure true n).conseq (fun _ _ _ => trivial) ?_
    rintro env s s' anchored rfl
    exact ⟨anchored, by rw [Guest.setRegister_zero]⟩
  · simp only [ne_eq, zero, not_false_eq_true, if_true]
    refine (computes_computation st size g shape kind zero compilable n).seq
      (.pure true n) (fun _ _ holds => holds) ?_
    rintro env s s₁ anchored retires
    refine ⟨trivial, ?_⟩
    rintro s₂ rfl
    exact retires

end Riscv64Emulator.Jit.X64
