import Riscv64Emulator.Jit.Aarch64.Operands

/-!
# Computations on AArch64

The code of the instructions that compute a register. Its values are those of the ISA;
multiplications and divisions have the values of the host.
-/
namespace Riscv64Emulator.Jit.Aarch64

open LinearCode CodeGenerator RegisterCache

/-- The sign extension of a result of a width. -/
def Width.extend : Width → Word → Word
  | .w32, v => signextend32 v
  | .w64, v => v

/-- The value of a multiplication, a division or a remainder. -/
def mulDivValue (type : InstructionType) (a b : Word) : Word :=
  let quotient (signed : Bool) (width : Width) : Word := width.lift (divide signed) a b
  let remainder (signed : Bool) (width : Width) : Word :=
    width.lift (fun _ x y => x - y) a
      (width.lift (fun _ x y => x * y) (quotient signed width) b)
  match type with
  | .mul => Width.w64.lift (fun _ x y => x * y) a b
  | .mulw => Width.w32.extend (Width.w32.lift (fun _ x y => x * y) a b)
  | .div => Width.w64.extend (quotient true .w64)
  | .divw => Width.w32.extend (quotient true .w32)
  | .divu => Width.w64.extend (quotient false .w64)
  | .divuw => Width.w32.extend (quotient false .w32)
  | .rem => Width.w64.extend (remainder true .w64)
  | .remu => Width.w64.extend (remainder false .w64)
  | .remw => Width.w32.extend (remainder true .w32)
  | .remuw => Width.w32.extend (remainder false .w32)
  | _ => 0

/-! ### Rules -/

theorem Disturbs.mono {ts ts' : List A64R} {s s' : State} (disturbs : Disturbs ts s s')
    (more : ∀ t ∈ ts, t ∈ ts') : Disturbs ts' s s' :=
  ⟨disturbs.1, fun q other => disturbs.2 q fun member => other (more q member)⟩

theorem Writes.setReg {d : A64R} (real : d ≠ A64R.xzr) (v : Word) (s : State) :
    Writes d v s (s.setReg d v false) where
  disturbs := .setReg List.mem_cons_self s v false
  value := by rw [State.regs_setReg s real, if_pos rfl]
  native := by rw [State.foreign_setReg s real, if_pos rfl]

/-- The code of `x` returns `o` and gives `d` the value `v` of the state it starts in. Of the
registers with guest values it reads the `operands`. -/
def Computes {α : Type} (b : Block) (x : Gen α) (o : α) (operands : List A64R) (d : A64R)
    (v : State → Word) : Prop :=
  ∀ c, Does x c o c (fun _ s => b.Based s ∧ ∀ r ∈ operands, s.getForeign r = false)
    (fun _ s s' => Writes d (v s) s s')

section Rules

variable {α β : Type} {b : Block} {operands : List A64R} {d t : A64R}

theorem Computes.instr {i : Instr} {v : State → Word} (encodable : i.encodable = true)
    (real : d ≠ A64R.xzr) (safe : ∀ env s, Sandboxed env i s)
    (steps : ∀ env s, (∀ r ∈ operands, s.getForeign r = false) →
      step env i s = .next (s.setReg d (v s) false)) :
    Computes b (ins i) () operands d v := fun c =>
  .instr (run_ins encodable c) fun env s holds =>
    ⟨safe env.1 s, _, steps env.1 s holds.2, .setReg real (v s) s⟩

/-- A part that emits nothing. -/
theorem Computes.silent {x : Gen α} {o : α} {f : α → Gen β} {p : β} {v : State → Word}
    (ran : ∀ c, x.run c = .ok ⟨o, [], [], c⟩) (rest : Computes b (f o) p operands d v) :
    Computes b (x >>= f) p operands d v := fun c => .silent (ran c) (rest c)

/-- A part that only returns. -/
theorem Computes.returns {x : Gen α} {o : α} {v : State → Word} (first : Computes b x o operands d v)
    {f : α → Gen β} {p : β} (same : f o = pure p) : Computes b (x >>= f) p operands d v := by
  intro c
  have rest : Does (f o) c p c (fun _ _ => True) (fun _ s s' => s' = s) := by
    rw [same]
    exact .pure p c
  refine (first c).seq rest (fun _ _ holds => holds) ?_
  rintro k s s₁ - writes
  refine ⟨trivial, ?_⟩
  rintro s₂ rfl
  exact writes

/-- A second part that reads what the first one wrote. -/
theorem Computes.bind {x : Gen α} {o : α} {f : α → Gen β} {p : β} {reads : List A64R}
    {u v w : State → Word} (first : Computes b x o operands t u)
    (second : Computes b (f o) p reads d w) (target : t = d ∨ isScratch t = true)
    (based : t ≠ RA.basePc)
    (known : ∀ r ∈ reads, r = t ∨ (r ∈ operands ∧ r ≠ t ∧ isScratch r = false))
    (value : ∀ s s', Writes t (u s) s s' → w s' = v s) :
    Computes b (x >>= f) p operands d v := by
  refine fun c => (first c).seq (second c) (fun _ _ holds => holds) ?_
  rintro k s s₁ ⟨ready, native⟩ writes
  -- the first computation changes its target and the scratch registers only
  have outside : ∀ r, r ≠ t → isScratch r = false → r ∉ [t, RA.a, RA.b, RA.c] := by
    intro r apart other member
    rcases List.mem_cons.mp member with same | scratch
    · exact apart same
    · have all : ∀ r ∈ [RA.a, RA.b, RA.c], isScratch r = true := by decide
      rw [all r scratch] at other
      cases other
  refine ⟨⟨ready.disturb writes.disturbs (outside _ (Ne.symm based) rfl), fun r member => ?_⟩,
    fun s₂ after => ?_⟩
  · rcases known r member with rfl | ⟨operand, apart, other⟩
    · rw [State.getForeign, writes.native, Bool.and_false]
    · rw [(writes.disturbs.get (outside r apart other)).2]
      exact native r operand
  · have inside : ∀ q ∈ [t, RA.a, RA.b, RA.c], q ∈ [d, RA.a, RA.b, RA.c] := by
      have scratches : ∀ q, isScratch q = true → q ∈ [RA.a, RA.b, RA.c] := by decide
      intro q member
      rcases List.mem_cons.mp member with rfl | scratch
      · rcases target with rfl | scratch
        · exact List.mem_cons_self
        · exact List.mem_cons_of_mem _ (scratches q scratch)
      · exact List.mem_cons_of_mem _ scratch
    refine ⟨(writes.disturbs.mono inside).trans after.disturbs, ?_, after.native⟩
    rw [after.value, value s s₁ writes]

/-- `sxtw` behind a 32-bit operation. -/
theorem Computes.extended {x : Gen Unit} {v : State → Word} (width : Width) (real : d ≠ A64R.xzr)
    (based : d ≠ RA.basePc) (first : Computes b x () operands d v) :
    Computes b (do x; CodeGenerator.extendResult width d) () operands d
      (fun s => width.extend (v s)) := by
  cases width with
  | w64 => exact first.returns rfl
  | w32 =>
    have extend : Computes b (ins (.sxtw d d)) () [d] d (fun s => signextend32 (s.get d)) :=
      .instr rfl real (fun _ _ => rfl) fun env s native => by
        simp only [step, native d List.mem_cons_self]
    refine first.bind extend (Or.inl rfl) based (fun r member => ?_) fun s s' writes => ?_
    · exact Or.inl (List.mem_singleton.mp member)
    · rw [State.get_of_ne s' real, writes.value]
      rfl

/-- A comparison and the condition it was made for. -/
theorem Computes.compared {i : Instr} {flags : State → Flags} (encodable : i.encodable = true)
    (real : d ≠ A64R.xzr) (safe : ∀ env s, Sandboxed env i s)
    (steps : ∀ env s, step env i s = .next (s.setFlags (some (flags s)))) (condition : Condition) :
    Computes b (do ins i; ins (.cset d condition)) () operands d
      (fun s => if condition.holds (flags s) then 1 else 0) := by
  intro c
  have compare : Does (ins i) c () c (fun _ _ => True)
      (fun _ s s' => s' = s.setFlags (some (flags s))) :=
    .instr (run_ins encodable c) fun env s _ => ⟨safe env.1 s, _, steps env.1 s, rfl⟩
  -- the flags the comparison left decide what is set
  have set : Does (ins (.cset d condition)) c () c (fun _ s => s.flags.isSome = true)
      (fun _ s s' => ∀ f, s.flags = some f → Writes d (if condition.holds f then 1 else 0) s s') := by
    refine .instr (run_ins rfl c) fun env s known => ?_
    obtain ⟨f, flag⟩ := Option.isSome_iff_exists.mp known
    have next : step env.1 (.cset d condition) s
        = .next (s.setReg d (if condition.holds f then 1 else 0) false) := by
      simp only [step, flag]
    refine ⟨rfl, _, next, fun f' same => ?_⟩
    rw [flag] at same
    cases same
    exact .setReg real _ s
  refine compare.seq set (fun _ _ _ => trivial) ?_
  rintro k s s₁ - rfl
  refine ⟨rfl, fun s₂ after => ?_⟩
  obtain ⟨disturbs, value, native⟩ := after _ rfl
  exact ⟨(Disturbs.setFlags _ s _).trans disturbs, value, native⟩

theorem computes_loadImmediate {g : CodeGenerator} (uses : g.Uses b) (real : d ≠ A64R.xzr)
    (imm : Word) : Computes b (g.loadImmediate d imm) () operands d (fun _ => imm) := by
  refine fun c => .instr (run_loadImmediate uses d real imm c) fun k s holds => ?_
  obtain ⟨safe, next⟩ := step_immediateInstr holds.1 k.1 d imm
  exact ⟨safe, _, next, .setReg real imm s⟩

/-- An immediate in a scratch register, or the zero register. -/
theorem Computes.immediateOrZero {g : CodeGenerator} (uses : g.Uses b) (imm : Word)
    {f : A64R → Gen Unit} {v : State → Word} {w : A64R → State → Word}
    (outside : ∀ r ∈ operands, isScratch r = false)
    (rest : ∀ r, (r = A64R.xzr ∨ r = RA.a) → Computes b (f r) () (r :: operands) d (w r))
    (value : ∀ r s s', s'.get r = imm → (∀ q ∈ operands, s'.get q = s.get q) → w r s' = v s) :
    Computes b (g.loadImmediateOrZero RA.a imm >>= f) () operands d v := by
  unfold CodeGenerator.loadImmediateOrZero
  -- a zero is read from the zero register, anything else goes through a scratch register
  by_cases zero : imm = 0
  · rw [if_pos zero]
    intro c
    refine (Emitter.Straight.pure A64R.xzr c).seq (rest A64R.xzr (Or.inl rfl) c)
      (fun _ _ _ => trivial) ?_
    rintro k s s₁ ⟨based, native⟩ rfl
    refine ⟨⟨based, List.forall_mem_cons.mpr ⟨rfl, native⟩⟩, fun s₂ after => ?_⟩
    rwa [value A64R.xzr s₁ s₁ zero.symm fun _ _ => rfl] at after
  · rw [if_neg zero]
    have load : Computes b (do g.loadImmediate RA.a imm; pure RA.a) RA.a operands RA.a
        (fun _ => imm) := (computes_loadImmediate uses (by decide) imm).returns rfl
    refine load.bind (rest RA.a (Or.inr rfl)) (Or.inr rfl) (by decide) (fun r member => ?_)
      fun s s' writes => ?_
    · rcases List.mem_cons.mp member with same | operand
      · exact Or.inl same
      · have other := outside r operand
        refine Or.inr ⟨operand, ?_, other⟩
        rintro rfl
        cases other
    · refine value RA.a s s' writes.value fun q operand => (writes.disturbs.get ?_).1
      intro member
      have all : ∀ r ∈ [RA.a, RA.a, RA.b, RA.c], isScratch r = true := by decide
      exact absurd (outside q operand) (by rw [all q member]; decide)

end Rules

/-! ### The cases of `generate_instruction` -/

theorem signextend32_eq_word (v : Word) : signextend32 v = Isa.word (Isa.low v) := rfl

theorem low_add (a v : Word) : Isa.low (a + v) = Isa.low a + Isa.low v :=
  BitVec.setWidth_add a v (by decide)

theorem holds_less (a v : Word) : Condition.less.holds (compareFlags a v) = a.slt v :=
  subtraction_less a v

theorem holds_unsignedLess (a v : Word) :
    Condition.unsignedLess.holds (compareFlags a v) = a.ult v := by
  simp only [Condition.holds, compareFlags, BitVec.ule_eq_not_ult, Bool.not_not]

/-- The instructions `generate_immediate` is for. -/
def hasImmediateOp (type : InstructionType) : Bool :=
  match type with
  | .addi | .xori | .ori | .andi | .addiw => true
  | _ => false

/-- The shifts by an immediate. -/
def isShiftImmediate (type : InstructionType) : Bool :=
  match type with
  | .slli | .srli | .srai | .slliw | .srliw | .sraiw => true
  | _ => false

/-- The shift of the host is the shift of the ISA. -/
theorem shiftImmediate_value {i : Instruction} (kind : isShiftImmediate i.type = true)
    (shape : InstructionDecoder.ImmediateOf i.type i.b) :
    ∃ op width, shiftOp i.type = .ok (op, width) ∧ i.shamt.toNat < width.bits ∧
      ∀ pc a v, Isa.value i.type pc i.imm a v
        = width.extend (width.lift op.apply a (BitVec.ofNat 64 i.shamt.toNat)) := by
  -- the amount fits its field, so reading six or five bits of it changes nothing
  have six : i.b.toNat < 64 → Isa.shamt6 i.imm = (BitVec.ofNat 64 i.shamt.toNat).toNat % 64 := by
    intro small
    rw [Instruction.shamt6_imm small, BitVec.toNat_ofNat, Instruction.shamt]
    omega
  have five : i.b.toNat < 32 →
      Isa.shamt5 i.imm = ((BitVec.ofNat 64 i.shamt.toNat).setWidth 32).toNat % 32 := by
    intro small
    rw [Instruction.shamt5_imm small, BitVec.toNat_setWidth, BitVec.toNat_ofNat, Instruction.shamt]
    omega
  have bits : i.shamt.toNat = i.b.toNat := rfl
  cases type : i.type <;> simp only [type, isShiftImmediate, Bool.false_eq_true] at kind <;>
    simp only [type, InstructionDecoder.ImmediateOf] at shape
  case slli | srli | srai =>
    refine ⟨_, .w64, rfl, by rw [bits]; exact shape, fun pc a v => ?_⟩
    rw [Isa.value, six shape]
    rfl
  all_goals
    refine ⟨_, .w32, rfl, by rw [bits]; exact shape, fun pc a v => ?_⟩
    rw [Isa.value, five shape, Width.extend, Width.lift, signextend32_setWidth]
    rfl

/-- The comparison of the host is the comparison of the ISA. -/
theorem value_less {type : InstructionType} (kind : type = .slt ∨ type = .sltu) (pc imm a v : Word) :
    Isa.value type pc imm a v =
      if (if type = .sltu then Condition.unsignedLess else .less).holds (compareFlags a v) then 1
      else 0 := by
  rcases kind with rfl | rfl
  · simp [Isa.value, holds_less, BitVec.slt_iff_toInt_lt]
  · simp [Isa.value, holds_unsignedLess, BitVec.ult_iff_lt, BitVec.lt_def]

theorem value_lessImmediate {type : InstructionType} (kind : type = .slti ∨ type = .sltiu)
    (pc imm a v : Word) : Isa.value type pc imm a v =
      if (if type = .sltiu then Condition.unsignedLess else .less).holds (compareFlags a imm) then 1
      else 0 := by
  rcases kind with rfl | rfl
  · simp [Isa.value, holds_less, BitVec.slt_iff_toInt_lt]
  · simp [Isa.value, holds_unsignedLess, BitVec.ult_iff_lt, BitVec.lt_def]

/-- The instructions `generate_register` is for. -/
def isRegisterOperation (type : InstructionType) : Bool :=
  match type with
  | .add | .sub | .xor | .or | .and | .sll | .srl | .sra => true
  | .addw | .subw | .sllw | .srlw | .sraw => true
  | _ => false

/-- The host has one instruction for each of them. -/
theorem registerInstr_value {type : InstructionType} (d x y : A64R)
    (kind : isRegisterOperation type = true) :
    ∃ (instr : Instr) (width : Width) (value : Word → Word → Word),
      registerInstr d x y type = .ok (instr, width) ∧
      instr.encodable = true ∧ (∀ env s, Sandboxed env instr s) ∧
      (∀ env s, step env instr s = .next
        (s.setReg d (value (s.get x) (s.get y)) (s.getForeign x || s.getForeign y))) ∧
      ∀ pc imm a v, Isa.value type pc imm a v = width.extend (value a v) := by
  have five : ∀ v : Word, Isa.shamt5 v = (v.setWidth 32).toNat % 32 := by
    intro v
    rw [Isa.shamt5, BitVec.toNat_setWidth]
    omega
  cases type <;> simp only [isRegisterOperation, Bool.false_eq_true] at kind
  -- the host's 64 bit shifts take the amount modulo 64, as the manual does
  case add | sub | xor | or | and | sll | srl | sra =>
    exact ⟨_, .w64, _, rfl, rfl, fun _ _ => rfl, fun _ _ => rfl, fun _ _ _ _ => rfl⟩
  case addw | subw =>
    refine ⟨_, .w32, _, rfl, rfl, fun _ _ => rfl, fun _ _ => rfl, fun _ _ a v => ?_⟩
    exact (signextend32_setWidth _).symm
  all_goals
    refine ⟨_, .w32, _, rfl, rfl, fun _ _ => rfl, fun _ _ => rfl, fun _ _ a v => ?_⟩
    rw [Isa.value, five]
    exact (signextend32_setWidth _).symm

section Families

variable {b : Block} {g : CodeGenerator} (uses : g.Uses b) {i : Instruction} {x y d : A64R}
  (left : isScratch x = false) (real : d ≠ A64R.xzr) (based : d ≠ RA.basePc) (pc v : Word)
include uses left real based

omit uses left in
/-- The extension behind an addition. -/
private theorem Computes.addition (kind : i.type = .addi ∨ i.type = .addiw) {add : Gen Unit}
    (adds : Computes b add () [x] d fun s => s.get x + i.imm) :
    Computes b (do
      add
      if i.type = .addiw then do
        ins (.sxtw d d)
        pure true
      else pure true) true [x] d (fun s => Isa.value i.type pc i.imm (s.get x) v) := by
  -- `addiw` extends the sum of the whole registers, whose low half is the sum of the halves
  rcases kind with type | type
  · have value : (fun s : State => Isa.value i.type pc i.imm (s.get x) v)
        = fun s => s.get x + i.imm := by simp only [type, Isa.value]
    rw [value]
    exact adds.returns (by simp [type])
  · have extend : Computes b (ins (.sxtw d d)) () [d] d (fun s => signextend32 (s.get d)) :=
      .instr rfl real (fun _ _ => rfl) fun env s native => by
        simp only [step, native d List.mem_cons_self]
    simp only [type, if_true]
    refine adds.bind (extend.returns rfl) (Or.inl rfl) based
      (fun r member => Or.inl (List.mem_singleton.mp member)) fun s s' writes => ?_
    rw [State.get_of_ne s' real, writes.value, signextend32_eq_word, low_add]
    rfl

omit left in
/-- The first attempt emits the operation, or nothing. -/
theorem tryImmediate_cases (kind : hasImmediateOp i.type = true) :
    Computes b (g.tryImmediate i x d) true [x] d
        (fun s => Isa.value i.type pc i.imm (s.get x) v) ∨
      ∀ c, (g.tryImmediate i x d).run c = .ok ⟨false, [], [], c⟩ := by
  by_cases adds : i.type = .addi ∨ i.type = .addiw
  · have op : immediateOp i.type = .ok .add := by rcases adds with type | type <;> rw [type] <;> rfl
    unfold CodeGenerator.tryImmediate
    rw [op, liftExcept_ok_bind, if_pos adds]
    simp only [Emitter.pure_bind, true_and, Bool.false_eq_true, false_and, if_false]
    -- a move, a constant, an addition that fits the encoder, or nothing
    by_cases zero : i.imm = 0
    · rw [if_pos zero]
      refine Or.inl (.addition real based pc v adds ?_)
      refine .instr rfl real (fun _ _ => rfl) fun env s native => ?_
      simp only [step, native x List.mem_cons_self, zero, BitVec.ofNat_eq_ofNat, BitVec.add_zero]
    rw [if_neg zero]
    by_cases source : x = A64R.xzr
    · rw [if_pos source]
      refine Or.inl (.addition real based pc v adds ?_)
      have value : (fun s : State => s.get x + i.imm) = fun _ => i.imm := by
        funext s
        rw [source, State.get, if_pos rfl, BitVec.ofNat_eq_ofNat, BitVec.zero_add]
      rw [value]
      exact computes_loadImmediate uses real i.imm
    rw [if_neg source]
    by_cases fits : g.platform.tryAddI d x i.imm = true
    · rw [if_pos fits]
      refine Or.inl (.addition real based pc v adds ?_)
      refine .instr (by simp [Instr.encodable, real, source]) real (fun _ _ => rfl)
        fun env s native => ?_
      simp only [step, native x List.mem_cons_self]
    · rw [if_neg fits]
      exact Or.inr fun c => rfl
  · have op : ∃ op, immediateOp i.type = .ok op ∧
        ∀ a, Isa.value i.type pc i.imm a v = op.apply 64 a i.imm := by
      cases type : i.type <;> simp only [type, hasImmediateOp, reduceCtorEq, or_self, or_true, true_or,
        not_true_eq_false, not_false_eq_true, Bool.false_eq_true] at kind adds
      all_goals exact ⟨_, rfl, fun _ => rfl⟩
    obtain ⟨op, known, value⟩ := op
    unfold CodeGenerator.tryImmediate
    rw [known, liftExcept_ok_bind, if_neg adds]
    -- the encoder decides which constants a logical instruction takes
    by_cases fits : g.platform.tryLogic op d x i.imm = true
    · rw [if_pos fits]
      have logic : Computes b (ins (.logicImm op d x i.imm)) () [x] d
          (fun s => Isa.value i.type pc i.imm (s.get x) v) := by
        refine .instr (bne_iff_ne.mpr real) real (fun _ _ => rfl) fun env s native => ?_
        simp only [step, native x List.mem_cons_self, value]
      exact Or.inl (logic.returns rfl)
    · rw [if_neg fits]
      exact Or.inr fun c => rfl

theorem computes_immediate (kind : hasImmediateOp i.type = true) :
    Computes b (do
      let succeeded ← g.tryImmediate i x d
      if !succeeded then do
        let y ← g.loadImmediateOrZero RA.a i.imm
        ins (.alu (← liftExcept (immediateOp i.type)) .w64 d x y)
        if i.type = .addiw then ins (.sxtw d d)) () [x] d
      (fun s => Isa.value i.type pc i.imm (s.get x) v) := by
  -- where no immediate form fits, the constant is loaded into a register
  rcases tryImmediate_cases uses real based pc v kind with succeeds | nothing
  · exact succeeds.returns rfl
  refine .silent nothing ?_
  simp only [Bool.not_false, if_true]
  have op : ∃ op, immediateOp i.type = .ok op ∧ ∀ a,
      Isa.value i.type pc i.imm a v = if i.type = .addiw then signextend32 (op.apply 64 a i.imm)
        else op.apply 64 a i.imm := by
    cases type : i.type <;> simp only [type, hasImmediateOp, Bool.false_eq_true] at kind
    case addiw =>
      refine ⟨_, rfl, fun a => ?_⟩
      rw [if_pos rfl, signextend32_eq_word, AluOp.apply, low_add]
      rfl
    all_goals exact ⟨_, rfl, fun _ => rfl⟩
  obtain ⟨op, known, value⟩ := op
  rw [known]
  simp only [liftExcept_ok_bind]
  have operate : ∀ y, (y = A64R.xzr ∨ y = RA.a) → Computes b (do
      ins (.alu op .w64 d x y)
      if i.type = .addiw then ins (.sxtw d d)) () [y, x] d (fun s =>
        if i.type = .addiw then signextend32 (op.apply 64 (s.get x) (s.get y))
        else op.apply 64 (s.get x) (s.get y)) := by
    intro y _
    have alu : Computes b (ins (.alu op .w64 d x y)) () [y, x] d
        (fun s => op.apply 64 (s.get x) (s.get y)) := by
      refine .instr rfl real (fun _ _ => rfl) fun env s native => ?_
      simp only [step, native x (by simp), native y (by simp), Width.lift, Bool.or_self]
    by_cases word : i.type = .addiw
    · simp only [word, if_true]
      exact alu.extended .w32 real based
    · simp only [word, if_false]
      exact alu.returns rfl
  refine .immediateOrZero uses i.imm (fun r member => ?_) operate fun y s s' here kept => ?_
  · rw [List.mem_singleton.mp member]
    exact left
  · rw [value, kept x List.mem_cons_self, here]

omit uses left in
theorem computes_shiftImmediate (kind : isShiftImmediate i.type = true)
    (shape : InstructionDecoder.ImmediateOf i.type i.b) :
    Computes b (do
      let (op, width) ← liftExcept (shiftOp i.type)
      ins (.shiftImm op width d x i.shamt.toNat)
      extendResult width d) () [x] d (fun s => Isa.value i.type pc i.imm (s.get x) v) := by
  obtain ⟨op, width, known, fits, value⟩ := shiftImmediate_value kind shape
  rw [known]
  simp only [liftExcept_ok_bind]
  have shifts : Computes b (ins (.shiftImm op width d x i.shamt.toNat)) () [x] d
      (fun s => width.lift op.apply (s.get x) (BitVec.ofNat 64 i.shamt.toNat)) := by
    refine .instr (decide_eq_true fits) real (fun _ _ => rfl) fun env s native => ?_
    simp only [step, native x List.mem_cons_self]
  simpa only [value] using shifts.extended width real based

omit uses left based in
theorem computes_compare (kind : i.type = .slt ∨ i.type = .sltu) :
    Computes b (do
      ins (.cmp .w64 x y)
      ins (.cset d (if i.type = .sltu then .unsignedLess else .less))) () [x, y] d
      (fun s => Isa.value i.type pc v (s.get x) (s.get y)) := by
  simp only [value_less kind]
  exact .compared (i := .cmp .w64 x y) rfl real (fun _ _ => rfl) (fun _ _ => rfl) _

omit based in
theorem computes_compareImmediate (kind : i.type = .slti ∨ i.type = .sltiu)
    (source : x ≠ A64R.xzr) :
    Computes b (do
      if g.platform.tryCmp x i.imm then ins (.cmpImm x i.imm)
      else do
        let y ← g.loadImmediateOrZero RA.a i.imm
        ins (.cmp .w64 x y)
      ins (.cset d (if i.type = .sltiu then .unsignedLess else .less))) () [x] d
      (fun s => Isa.value i.type pc i.imm (s.get x) v) := by
  simp only [value_lessImmediate kind]
  -- the encoder decides whether the constant fits the comparison
  by_cases fits : g.platform.tryCmp x i.imm = true
  · rw [if_pos fits]
    exact .compared (i := .cmpImm x i.imm) (bne_iff_ne.mpr source) real (fun _ _ => rfl) (fun _ _ => rfl) _
  · rw [if_neg fits]
    refine .immediateOrZero uses i.imm (fun r member => ?_) (fun y _ => .compared (i := .cmp .w64 x y)
      rfl real (fun _ _ => rfl) (fun _ _ => rfl) _) fun y s s' here kept => ?_
    · rw [List.mem_singleton.mp member]
      exact left
    · simp only [kept x List.mem_cons_self, here]

omit uses left in
theorem computes_register (kind : isRegisterOperation i.type = true) :
    Computes b (do
      let (instr, width) ← liftExcept (registerInstr d x y i.type)
      ins instr
      extendResult width d) () [x, y] d
      (fun s => Isa.value i.type pc v (s.get x) (s.get y)) := by
  obtain ⟨instr, width, value, known, encodable, safe, steps, same⟩ :=
    registerInstr_value d x y kind
  rw [known]
  simp only [liftExcept_ok_bind]
  have operates : Computes b (ins instr) () [x, y] d (fun s => value (s.get x) (s.get y)) := by
    refine .instr encodable real safe fun env s native => ?_
    rw [steps env s, native x (by simp), native y (by simp)]
    rfl
  simpa only [same] using operates.extended width real based

omit uses left in
private theorem computes_quotient (signed : Bool) (width : Width) :
    Computes b (do
      ins (.div signed width d x y)
      extendResult width d) () [x, y] d
      (fun s => width.extend (width.lift (divide signed) (s.get x) (s.get y))) := by
  have divides : Computes b (ins (.div signed width d x y)) () [x, y] d
      (fun s => width.lift (divide signed) (s.get x) (s.get y)) := by
    refine .instr rfl real (fun _ _ => rfl) fun env s native => ?_
    simp only [step, native x (by simp), native y (by simp), Bool.or_self]
  exact divides.extended width real based

omit uses in
private theorem computes_remainder (right : isScratch y = false) (signed : Bool) (width : Width) :
    Computes b (do
      ins (.div signed width RA.a x y)
      ins (.msub width d RA.a y x)
      extendResult width d) () [x, y] d
      (fun s => width.extend (width.lift (fun _ p q => p - q) (s.get x)
        (width.lift (fun _ p q => p * q) (width.lift (divide signed) (s.get x) (s.get y))
          (s.get y)))) := by
  have divides : Computes b (ins (.div signed width RA.a x y)) () [x, y] RA.a
      (fun s => width.lift (divide signed) (s.get x) (s.get y)) := by
    refine .instr rfl (by decide) (fun _ _ => rfl) fun env s native => ?_
    simp only [step, native x (by simp), native y (by simp), Bool.or_self]
  -- the host has no remainder: it is the dividend less the quotient times the divisor
  have subtracts : Computes b (ins (.msub width d RA.a y x)) () [RA.a, x, y] d
      (fun s => width.lift (fun _ p q => p - q) (s.get x)
        (width.lift (fun _ p q => p * q) (s.get RA.a) (s.get y))) := by
    refine .instr rfl real (fun _ _ => rfl) fun env s native => ?_
    simp only [step, native RA.a (by simp), native x (by simp), native y (by simp), Bool.or_self]
  have apart : ∀ r, isScratch r = false → r ∉ [RA.a, RA.a, RA.b, RA.c] := by
    intro r other member
    have all : ∀ r ∈ [RA.a, RA.a, RA.b, RA.c], isScratch r = true := by decide
    rw [all r member] at other
    cases other
  refine divides.bind (subtracts.extended width real based) (Or.inr rfl) (by decide)
    (fun r member => ?_) fun s s' writes => ?_
  · simp only [List.mem_cons, List.not_mem_nil, or_false] at member
    have operand : ∀ q, isScratch q = false → q ≠ RA.a := fun q other same =>
      apart q other (by simp [same])
    rcases member with rfl | rfl | rfl
    · exact Or.inl rfl
    · exact Or.inr ⟨by simp, operand r left, left⟩
    · exact Or.inr ⟨by simp, operand r right, right⟩
  · rw [State.get_of_ne s' (r := RA.a) (by decide), writes.value,
      (writes.disturbs.get (apart x left)).1, (writes.disturbs.get (apart y right)).1]

omit uses in
theorem computes_mulDiv (right : isScratch y = false)
    (kind : isDivision i.type = true ∨ i.type = .mul ∨ i.type = .mulw) :
    Computes b (mulDivCode d x y i.type) () [x, y] d
      (fun s => mulDivValue i.type (s.get x) (s.get y)) := by
  -- one host multiplication; `mulw` extends its result
  have multiplies : ∀ width : Width, Computes b (ins (.mul width d x y)) () [x, y] d
      (fun s => width.lift (fun _ p q => p * q) (s.get x) (s.get y)) := fun width => by
    refine .instr rfl real (fun _ _ => rfl) fun env s native => ?_
    simp only [step, native x (by simp), native y (by simp), Bool.or_self]
  have quotient := computes_quotient (b := b) (x := x) (y := y) real based
  have remainder := computes_remainder (b := b) left real based right
  cases type : i.type <;> simp only [type, isDivision, Bool.false_eq_true, reduceCtorEq, or_self] at kind
  case mul => exact multiplies .w64
  case mulw => exact (multiplies .w32).extended .w32 real based
  case div => exact quotient true .w64
  case divw => exact quotient true .w32
  case divu => exact quotient false .w64
  case divuw => exact quotient false .w32
  case rem => exact remainder true .w64
  case remu => exact remainder false .w64
  case remw => exact remainder true .w32
  case remuw => exact remainder false .w32

end Families

/-! ### The computed register -/

/-- The value of the AArch64 code of a computation. -/
def computedValue (i : Instruction) (pc : Word) (r : RegisterState) : Word :=
  if Isa.computes i.type then Isa.result i pc r
  else mulDivValue i.type (r.get i.rs1) (r.get i.rs2)

/-- Where the registers of an instruction live while its code runs. -/
structure Placed (reads : List Register) (rd : Register) (home : Register → A64R) : Prop where
  outside : ∀ r, isScratch (home r) = false
  real : ∀ r ∈ reads ++ [rd], r ≠ Register.zero → home r ≠ A64R.xzr
  based : home rd ≠ RA.basePc

/-- Code that computes the destination retires the instruction. -/
theorem emits_computed {b : Block} {g : CodeGenerator} {c : GenState} (idle : c.cache.Idle)
    {reads : List Register} {rd : Register} (nonzero : rd ≠ Register.zero)
    (below : ∀ r ∈ reads ++ [rd], r ≠ Register.pc) (few : reads.length ≤ 2)
    {write : List A64R → A64R → Gen Unit} (value : List Word → Word)
    (computes : ∀ home, Placed reads rd home →
      Computes b (write (reads.map home) (home rd)) () (reads.map home) (home rd)
        (fun s => value (reads.map fun r => s.get (home r)))) :
    ∃ c', c'.cache.Idle ∧ c'.cache.Dirty rd ∧
      Emits b (g.withRegisters reads rd write) c () c' (Mirrors b c.cache settled)
        (fun k _ => Meets b c'.cache k.1
          (.next (k.2.setRegister rd (value (reads.map k.2.registers.get))))) := by
  refine emits_withRegisters idle nonzero below few
    (fun k => .value (value (reads.map k.2.registers.get))) fun c₁ locks => ⟨c₁.nextLabel, ?_⟩
  -- every operand and the destination was given a slot
  have homes : ∀ r ∈ reads ++ [rd], r ≠ Register.zero → ∃ id, c₁.cache.home r = RA.cache id := by
    intro r member real
    have asked : r ∈ requested (operandsOf reads rd) :=
      mem_requested_operandsOf.mpr ⟨by simpa using member, real⟩
    obtain ⟨id, place, -⟩ := locks.placed r asked
    exact ⟨id, home_placed place⟩
  have placed : Placed reads rd c₁.cache.home := by
    refine ⟨isScratch_home c₁.cache, fun r member real => ?_, ?_⟩
    · obtain ⟨id, home⟩ := homes r member real
      rw [home]
      exact cache_ne_xzr id
    · obtain ⟨id, home⟩ := homes rd (by simp) nonzero
      rw [home]
      exact fun same => by simpa [same, isFree] using isFree_cache id
  refine (Emitter.Emits.of_straight (Nat.le_refl _) (computes c₁.cache.home placed c₁)).conseq ?_ ?_
  · rintro k s mirrors
    refine ⟨mirrors.ready.based, fun q member => ?_⟩
    obtain ⟨r, read, rfl⟩ := List.mem_map.mp member
    exact (mirrors.operand locks (List.mem_append_left _ (List.mem_map_of_mem read))).2
  · rintro k s ending mirrors ⟨s', rfl, writes⟩
    have same : (reads.map fun r => s.get (c₁.cache.home r)) = reads.map k.2.registers.get :=
      List.map_congr_left fun r read =>
        (mirrors.operand locks (List.mem_append_left _ (List.mem_map_of_mem read))).1
    simp only [same] at writes
    exact writes

/-- The generator compiles `i` into the computation of `value` from the registers `reads`. -/
structure Computation (b : Block) (g : CodeGenerator) (i : Instruction) (reads : List Register)
    (write : List A64R → A64R → Gen Unit) (value : List Word → Word) : Prop where
  generated : g.generateInstruction i = do g.withRegisters reads i.rd write; pure true
  few : reads.length ≤ 2
  below : ∀ r ∈ reads ++ [i.rd], r ≠ Register.pc
  computes : ∀ home, Placed reads i.rd home →
    Computes b (write (reads.map home) (home i.rd)) () (reads.map home) (home i.rd)
      (fun s => value (reads.map fun r => s.get (home r)))
  computed : ∀ r : RegisterState, r.get Register.zero = 0 →
    value (reads.map r.get) = computedValue i g.currentPc r

section Computations

variable {b : Block} {g : CodeGenerator} {i : Instruction} (nonzero : i.rd ≠ Register.zero)
include nonzero

private theorem computation_constant (uses : g.Uses b) (v : Word)
    (generated : g.generateInstruction i =
      do g.withDestination i.rd fun dest => g.loadImmediate dest v; pure true)
    (computed : ∀ r : RegisterState, r.get Register.zero = 0 → v = computedValue i g.currentPc r) :
    ∃ reads write value, Computation b g i reads write value :=
  ⟨[], fun _ dest => g.loadImmediate dest v, fun _ => v, {
    generated := generated
    few := Nat.zero_le _
    below := by simpa using i.rd_ne_pc
    computes := fun home placed =>
      computes_loadImmediate uses (placed.real i.rd (by simp) nonzero) v
    computed := computed }⟩

private theorem computation_operand (value : Word → Word) {write : A64R → A64R → Gen Unit}
    (generated : g.generateInstruction i = do g.withOperand i.rs1 i.rd write; pure true)
    (computes : ∀ x d, isScratch x = false → (i.rs1 ≠ Register.zero → x ≠ A64R.xzr) →
      d ≠ A64R.xzr → d ≠ RA.basePc →
      Computes b (write x d) () [x] d fun s => value (s.get x))
    (computed : ∀ r : RegisterState, value (r.get i.rs1) = computedValue i g.currentPc r) :
    ∃ reads write value, Computation b g i reads write value :=
  ⟨[i.rs1], _, fun operands => value (operands.headD 0), {
    generated := generated
    few := by simp
    below := by simpa using ⟨i.rs1_ne_pc, i.rd_ne_pc⟩
    computes := fun home placed => computes (home i.rs1) (home i.rd) (placed.outside i.rs1)
      (placed.real i.rs1 (by simp)) (placed.real i.rd (by simp) nonzero) placed.based
    computed := fun r _ => computed r }⟩

private theorem computation_operands (value : Word → Word → Word)
    {write : A64R → A64R → A64R → Gen Unit}
    (generated : g.generateInstruction i = do g.withOperands i.rs1 i.rs2 i.rd write; pure true)
    (computes : ∀ x y d, isScratch x = false → isScratch y = false → d ≠ A64R.xzr →
      d ≠ RA.basePc → Computes b (write x y d) () [x, y] d fun s => value (s.get x) (s.get y))
    (computed : ∀ r : RegisterState,
      value (r.get i.rs1) (r.get i.rs2) = computedValue i g.currentPc r) :
    ∃ reads write value, Computation b g i reads write value :=
  ⟨[i.rs1, i.rs2], _, fun operands => value (operands.headD 0) (operands.tail.headD 0), {
    generated := generated
    few := Nat.le_refl 2
    below := by simpa using ⟨i.rs1_ne_pc, i.rs2_ne_pc, i.rd_ne_pc⟩
    computes := fun home placed => computes (home i.rs1) (home i.rs2) (home i.rd)
      (placed.outside i.rs1) (placed.outside i.rs2) (placed.real i.rd (by simp) nonzero) placed.based
    computed := fun r _ => computed r }⟩

/-- Every computation but a division or multiplication into `x0` is compiled as one. -/
theorem computation (uses : g.Uses b) (kind : isComputation i.type = true)
    (shape : InstructionDecoder.ImmediateOf i.type i.b) :
    ∃ reads write value, Computation b g i reads write value := by
  have result : ∀ r : RegisterState, Isa.computes i.type = true →
      computedValue i g.currentPc r
        = Isa.value i.type g.currentPc i.imm (r.get i.rs1) (r.get i.rs2) := fun r direct =>
    if_pos direct
  have products : ∀ r : RegisterState, Isa.computes i.type = false →
      computedValue i g.currentPc r = mulDivValue i.type (r.get i.rs1) (r.get i.rs2) := fun r other =>
    if_neg (by simp [other])
  -- one case for each shape of code, with the value that shape computes
  let isaValue : Word → Word → Word := Isa.value i.type g.currentPc i.imm
  cases type : i.type <;> try exact absurd (type ▸ kind) (by decide)
  case lui | auipc =>
    refine computation_constant nonzero uses (isaValue 0 0) ?_ fun r _ => ?_
    · simp only [generateInstruction, type, nonzero, ne_eq, not_false_eq_true, if_true, isaValue,
        Isa.value]
    · rw [result r (by rw [type]; rfl)]
      simp only [isaValue, type, Isa.value]
  case addi | xori | ori | andi | addiw =>
    refine computation_operand nonzero (isaValue · 0) ?_ (fun x d left _ real based =>
      computes_immediate uses left real based g.currentPc 0 (by rw [type]; rfl)) fun r => ?_
    · have generated : g.generateInstruction i = (do g.generateImmediate i; pure true) := by
        simp only [generateInstruction, type, nonzero, ne_eq, not_false_eq_true, if_true]
      exact generated
    · rw [result r (by rw [type]; rfl)]
      simp only [isaValue, type, Isa.value]
  case slli | srli | srai | slliw | srliw | sraiw =>
    refine computation_operand nonzero (isaValue · 0) ?_ (fun x d _ _ real based =>
      computes_shiftImmediate real based g.currentPc 0 (by rw [type]; rfl) shape) fun r => ?_
    · have generated : g.generateInstruction i = (do g.generateShiftImmediate i; pure true) := by
        simp only [generateInstruction, type, nonzero, ne_eq, not_false_eq_true, if_true]
      exact generated
    · rw [result r (by rw [type]; rfl)]
      simp only [isaValue, type, Isa.value]
  case slt | sltu =>
    refine computation_operands nonzero isaValue ?_ (fun x y d _ _ real _ =>
      computes_compare real g.currentPc i.imm (by simp [type])) fun r => ?_
    · have generated : g.generateInstruction i = (do g.generateCompare i; pure true) := by
        simp only [generateInstruction, type, nonzero, ne_eq, not_false_eq_true, if_true]
      exact generated
    · rw [result r (by rw [type]; rfl)]
  case slti | sltiu =>
    -- comparing register zero with an immediate is decided at compile time
    by_cases zero : i.rs1 = Register.zero
    · refine computation_constant nonzero uses (isaValue 0 0) ?_ fun r clear => ?_
      · simp only [generateInstruction, type, nonzero, ne_eq, not_false_eq_true, if_true,
          generateCompareImmediate, zero, isaValue, Isa.value, BitVec.slt_iff_toInt_lt, reduceCtorEq,
          BitVec.ult_iff_lt, BitVec.lt_def, if_false]
      · rw [result r (by rw [type]; rfl), zero, clear]
        simp only [isaValue, type, Isa.value]
    · refine computation_operand nonzero (isaValue · 0) ?_ (fun x d left source real _ =>
        computes_compareImmediate uses left real g.currentPc 0 (by simp [type]) (source zero))
        fun r => ?_
      · simp only [generateInstruction, type, nonzero, ne_eq, not_false_eq_true, if_true,
          generateCompareImmediate, zero, if_false]
      · rw [result r (by rw [type]; rfl)]
        simp only [isaValue, type, Isa.value]
  case add | sub | xor | or | and | sll | srl | sra | addw | subw | sllw | srlw | sraw =>
    refine computation_operands nonzero isaValue ?_ (fun x y d _ _ real based =>
      computes_register real based g.currentPc i.imm (by rw [type]; rfl)) fun r => ?_
    · have generated : g.generateInstruction i = (do g.generateRegister i; pure true) := by
        simp only [generateInstruction, type, nonzero, ne_eq, not_false_eq_true, if_true]
      exact generated
    · rw [result r (by rw [type]; rfl)]
  case mul | mulw | div | divw | divu | divuw | rem | remw | remu | remuw =>
    refine computation_operands nonzero (mulDivValue i.type) ?_ (fun x y d left right real based =>
      computes_mulDiv left real based right (by simp [type, isDivision])) fun r => ?_
    · simp only [generateInstruction, type, nonzero, ne_eq, not_false_eq_true, if_true]
    · rw [products r (by rw [type]; rfl)]

/-- The code of a computation sets `rd` to its value. -/
theorem emits_computation (uses : g.Uses b) (kind : isComputation i.type = true)
    (shape : InstructionDecoder.ImmediateOf i.type i.b) {c : GenState} (idle : c.cache.Idle) :
    ∃ c', c'.cache.Idle ∧ c'.cache.Dirty i.rd ∧
      Emits b (g.generateInstruction i) c true c' (Mirrors b c.cache settled)
        (fun k _ => Meets b c'.cache k.1
          (.next (k.2.setRegister i.rd (computedValue i g.currentPc k.2.registers)))) := by
  obtain ⟨reads, write, value, found⟩ := computation nonzero uses kind shape
  obtain ⟨c', idle', dirty, emits⟩ :=
    emits_computed idle nonzero found.below found.few value found.computes
  refine ⟨c', idle', dirty, ?_⟩
  rw [found.generated]
  refine (emits.returns fun _ => true).conseq (fun _ _ mirrors => mirrors) ?_
  intro k s ending mirrors meets
  rwa [found.computed _ (mirrors.restores idle.wf).serves.zero] at meets

end Computations

end Riscv64Emulator.Jit.Aarch64
