import Riscv64Emulator.Jit.X64.Transfers

/-!
# Divisions on x64

The generator divides with `div` and `idiv` and tests for the one signed division whose
quotient does not fit; a zero divisor faults.
-/
namespace Riscv64Emulator.Jit.X64

open LinearCode CodeGenerator

def widened {w : Nat} (p : BitVec w × BitVec w) : Word × Word :=
  (p.1.setWidth 64, p.2.setWidth 64)

/-- What the host division leaves in `rax` and `rdx`. -/
def hostQuotients (word unsigned : Bool) (a b : Word) : Option (Word × Word) :=
  let a32 := a.setWidth 32
  let b32 := b.setWidth 32
  match word, unsigned with
  | false, false => (divideSigned (if a.msb then -1 else 0) a b).map widened
  | false, true => (divideUnsigned 0 a b).map widened
  | true, false => (divideSigned (if a32.msb then -1 else 0) a32 b32).map widened
  | true, true => (divideUnsigned 0 a32 b32).map widened

/-- The dividend whose division by -1 the generator tests for. -/
def overflowDividend (word : Bool) : Word :=
  if word then (BitVec.intMin 32).signExtend 64 else BitVec.intMin 64

/-- The value the code of a division gives `rd`. -/
def divisionValue (word unsigned remainder : Bool) (a b : Word) : Option Word :=
  if unsigned = false ∧ b = -1 ∧ a = overflowDividend word then some 0
  else (hostQuotients word unsigned a b).map fun p =>
    extended word (if remainder then p.2 else p.1)

def divideValue (type : InstructionType) (a b : Word) : Option Word :=
  divisionValue (instructionAnyOf type [.divw, .divuw, .remw, .remuw])
    (instructionAnyOf type [.divu, .divuw, .remu, .remuw])
    (instructionAnyOf type [.rem, .remu, .remw, .remuw]) a b

/-! ### The host division -/

section Host

variable {st : Setting} {size : Word} {env : Env} {s : State}

/-- The division of `rax` by `rbx`. -/
def divisionInstrs (word unsigned : Bool) : List (Item Instr) :=
  let size : OperandSize := if word then .bits32 else .bits64
  if unsigned then [.instr (.alu .xor size (.reg .rdx) (.reg .rdx)), .instr (.div size .rbx)]
  else [.instr (.cqo size), .instr (.idiv size .rbx)]

/-- The state after a division whose operands are guest values. -/
private def Divided (quotients : Option (Word × Word)) (s : State) : Effect State Exit :=
  match quotients with
  | none => .fault
  | some (q, r) => .next (((s.setReg .rax q false).setReg .rdx r false).setFlags none)

private theorem divided_native {w : Nat} (native : ∀ q, q ∈ [X64R.rax, .rdx, .rbx] → s.foreign q = false)
    (p : Option (BitVec w × BitVec w)) : s.divided .rbx p = Divided (p.map widened) s := by
  cases p with
  | none => rfl
  | some p =>
    simp only [State.divided, Divided, widened, Option.map_some, native .rax (by decide),
      native .rdx (by decide), native .rbx (by decide), Bool.or_self]

/-- The code faults, or leaves the quotient and the remainder in their registers. -/
def Divides (st : Setting) (size : Word) (env : Env) (code : List (Item Instr)) (s : State) :
    Option (Word × Word) → Prop
  | none => Faults (step env) (Sandboxed env) code s
  | some (q, r) => ∃ s₁, Continues (step env) (Sandboxed env) code s s₁ ∧
      Anchored st size env s₁ ∧ s₁.guest = s.guest ∧
      (s₁.regs .rax = q ∧ s₁.foreign .rax = false) ∧ s₁.regs .rdx = r ∧ s₁.foreign .rdx = false

/-- One instruction that prepares `rdx`, and the division. -/
private theorem division_runs (prepare divide : Instr) {quotients : Option (Word × Word)}
    (anchored : Anchored st size env s) (left : s.foreign .rax = false)
    (right : s.foreign .rbx = false) (high : Word)
    (safe : Sandboxed env prepare s ∧ ∀ t, Sandboxed env divide t)
    (prepares : ∃ f, step env prepare s = .next ((s.setReg .rdx high false).setFlags f))
    (divides : ∀ t : State, t.regs .rdx = high → t.regs .rax = s.regs .rax →
      t.regs .rbx = s.regs .rbx → (∀ q, q ∈ [X64R.rax, .rdx, .rbx] → t.foreign q = false) →
      step env divide t = Divided quotients t) :
    Divides st size env [.instr prepare, .instr divide] s quotients := by
  obtain ⟨f, next⟩ := prepares
  have divided := divides ((s.setReg .rdx high false).setFlags f) (by simp) (by simp) (by simp)
    (by simp [left, right])
  -- the instruction faults, or leaves quotient and remainder in rax and rdx
  cases quotients with
  | none => exact .cons safe.1 next (.fault (safe.2 _) divided)
  | some p =>
    obtain ⟨q, r⟩ := p
    refine ⟨_, .cons safe.1 next (.cons (safe.2 _) divided (.nil _)), ?_, rfl, ⟨?_, ?_⟩, ?_, ?_⟩
    · exact ((((anchored.setReg rfl _ _).setFlags f).setReg rfl _ _).setReg rfl _ _).setFlags none
    all_goals simp

theorem divisionInstrs_runs (word unsigned : Bool) (anchored : Anchored st size env s)
    (left : s.foreign .rax = false) (right : s.foreign .rbx = false) :
    Divides st size env (divisionInstrs word unsigned) s
      (hostQuotients word unsigned (s.regs .rax) (s.regs .rbx)) := by
  have safe : ∀ i, (∀ t, accesses i t = [] ∧ storesForeign env i t = false) →
      ∀ t, Sandboxed env i t := by
    intro i quiet t
    rw [Sandboxed, sandboxed, (quiet t).1, (quiet t).2]
    rfl
  have quiet : ∀ i, (∀ t, accesses i t = [] ∧ storesForeign env i t = false) →
    ∀ j, (∀ t, accesses j t = [] ∧ storesForeign env j t = false) →
      Sandboxed env i s ∧ ∀ t, Sandboxed env j t := fun i hi j hj => ⟨safe i hi s, safe j hj⟩
  -- signed sequences extend the dividend into rdx, unsigned ones clear it
  cases word <;> cases unsigned
  · refine division_runs (.cqo .bits64) (.idiv .bits64 .rbx) anchored left right (if (s.regs .rax).msb then -1 else 0)
      (quiet _ (fun _ => ⟨rfl, rfl⟩) _ fun _ => ⟨rfl, rfl⟩)
      ⟨s.flags, by simp only [step, left]; rfl⟩ ?_
    intro t high rax rbx native
    simp only [step, hostQuotients, high, rax, rbx, divided_native native]
  · refine division_runs (.alu .xor .bits64 (.reg .rdx) (.reg .rdx)) (.div .bits64 .rbx) anchored left right 0 (quiet _ (fun _ => ⟨rfl, rfl⟩) _ fun _ => ⟨rfl, rfl⟩)
      ⟨none, (step_clear env s .rdx).2⟩ ?_
    intro t high rax rbx native
    simp only [step, hostQuotients, high, rax, rbx, divided_native native]
  · refine division_runs (.cqo .bits32) (.idiv .bits32 .rbx) anchored left right
      (if (s.regs .rax).getLsbD 31 then 0xffffffff else 0)
      (quiet _ (fun _ => ⟨rfl, rfl⟩) _ fun _ => ⟨rfl, rfl⟩)
      ⟨s.flags, by simp only [step, left]; rfl⟩ ?_
    intro t high rax rbx native
    have sign : ((s.regs .rax).setWidth 32).msb = (s.regs .rax).getLsbD 31 := by
      simp [BitVec.msb_eq_getLsbD_last]
    have fill : (if (s.regs .rax).getLsbD 31 = true then (0xffffffff : Word) else 0).setWidth 32
        = if (s.regs .rax).getLsbD 31 = true then -1 else 0 := by
      split <;> rfl
    simp only [step, hostQuotients, high, rax, rbx, divided_native native, sign, fill]
  · refine division_runs (.alu .xor .bits32 (.reg .rdx) (.reg .rdx)) (.div .bits32 .rbx) anchored left right 0 (quiet _ (fun _ => ⟨rfl, rfl⟩) _ fun _ => ⟨rfl, rfl⟩)
      ⟨none, ?_⟩ ?_
    · simp [step, State.read, State.write, State.merge, AluOp.apply, OperandSize.bytes, lowBytes]
    · intro t high rax rbx native
      simp only [step, hostQuotients, high, rax, rbx, divided_native native]
      rfl

/-- The store of the result behind a division. -/
private theorem realizes_division {rd : Register} (nonzero : rd ≠ Register.zero)
    (below : rd ≠ Register.pc) (word unsigned remainder : Bool) (n : Nat) :
    ∃ code, (storeRegister rd (if remainder then .rdx else .rax) word).run n
        = .ok ⟨(), code, [], n⟩ ∧ binds code = [] ∧
      ∀ env s, Anchored st size env s → s.foreign .rax = false → s.foreign .rbx = false →
        Realizes st size env (divisionInstrs word unsigned ++ code) [] s
          (.ofValue s.guest rd ((hostQuotients word unsigned (s.regs .rax) (s.regs .rbx)).map
            fun p => extended word (if remainder then p.2 else p.1))) := by
  have scratch : isScratch (if remainder then .rdx else .rax) = true := by cases remainder <;> rfl
  obtain ⟨code, ran, free, runs⟩ := does_storeRegister st size scratch nonzero below word n
  refine ⟨code, ran, free, fun env s anchored left right => ?_⟩
  have divides := divisionInstrs_runs word unsigned anchored left right
  -- nothing is stored behind a fault
  cases quotients : hostQuotients word unsigned (s.regs .rax) (s.regs .rbx) with
  | none =>
    rw [quotients] at divides
    exact ⟨.faulted, Faults.append divides, trivial⟩
  | some p =>
    obtain ⟨q, r⟩ := p
    rw [quotients] at divides
    obtain ⟨s₁, continues, anchored₁, guest, ⟨low, nativeLow⟩, high, nativeHigh⟩ := divides
    have value : s₁.regs (if remainder then .rdx else .rax) = if remainder then r else q := by
      cases remainder
      · exact low
      · exact high
    have native : s₁.foreign (if remainder then .rdx else .rax) = false := by
      cases remainder
      · exact nativeLow
      · exact nativeHigh
    obtain ⟨s₂, run, always, retires⟩ := runs env s₁ ⟨anchored₁, native⟩
    rw [value, guest] at retires
    exact ⟨.ran s₂, continues.append ⟨run, always⟩, retires⟩

/-! ### The test for overflow -/

/-- The tests for the division of the least number by -1. -/
def overflowTests (word : Bool) (l : Nat) : List (Item Instr) :=
  [.instr (.cmp (.reg .rbx) (.imm (-1))), .instr (.jcc .ne l)] ++
    (if word then [.instr (.cmp (.reg .rax) (.imm ((BitVec.intMin 32).signExtend 64)))]
    else [.instr (.mov .bits64 (.reg .rdx) (.imm (BitVec.intMin 64))),
      .instr (.cmp (.reg .rax) (.reg .rdx))]) ++ [.instr (.jcc .ne l)]

/-- A jump on inequality behind a comparison. -/
private theorem jne_step (a b : Word) (l : Nat) :
    Sandboxed env (.jcc .ne l) (s.setFlags (some (compareFlags a b))) ∧
      step env (.jcc .ne l) (s.setFlags (some (compareFlags a b))) =
        if a = b then .next (s.setFlags (some (compareFlags a b)))
        else .jump l (s.setFlags (some (compareFlags a b))) := by
  constructor
  · simp [Sandboxed, sandboxed, accesses, storesForeign]
  · simp only [step, State.flags_setFlags, holds_ne]
    by_cases equal : a = b <;> simp [equal]

theorem overflowTests_runs (word : Bool) (l : Nat) (env : Env) (s : State) :
    ∃ s₁, Disturbs [.rdx] s s₁ ∧
      if s.regs .rbx = -1 ∧ s.regs .rax = overflowDividend word then
        Continues (step env) (Sandboxed env) (overflowTests word l) s s₁
      else Seeks (step env) (Sandboxed env) (overflowTests word l) l s s₁ := by
  obtain ⟨safe₁, compare⟩ := step_cmp_imm env s .rbx (-1)
  obtain ⟨safe₂, jump⟩ := @jne_step env s (s.regs .rbx) (-1) l
  by_cases divisor : s.regs .rbx = -1
  · rw [if_pos divisor] at jump
    let s₁ := s.setFlags (some (compareFlags (s.regs .rbx) (-1)))
    -- the second comparison, from the state it is made in
    have rest : ∀ compared t, Disturbs [.rdx] s t →
        Continues (step env) (Sandboxed env) compared s₁
          (t.setFlags (some (compareFlags (s.regs .rax) (overflowDividend word)))) →
        binds compared = [] → overflowTests word l
          = [.instr (.cmp (.reg .rbx) (.imm (-1))), .instr (.jcc .ne l)]
            ++ (compared ++ [.instr (.jcc .ne l)]) →
        ∃ s₁, Disturbs [.rdx] s s₁ ∧
          if s.regs .rbx = -1 ∧ s.regs .rax = overflowDividend word then
            Continues (step env) (Sandboxed env) (overflowTests word l) s s₁
          else Seeks (step env) (Sandboxed env) (overflowTests word l) l s s₁ := by
      intro compared t disturbs continues free shape
      obtain ⟨safe₃, last⟩ := @jne_step env t (s.regs .rax) (overflowDividend word) l
      have before : Continues (step env) (Sandboxed env)
          [.instr (.cmp (.reg .rbx) (.imm (-1))), .instr (.jcc .ne l)] s s₁ :=
        .cons safe₁ compare (.cons safe₂ jump (.nil _))
      refine ⟨t.setFlags (some (compareFlags (s.regs .rax) (overflowDividend word))),
        disturbs.trans (.setFlags _ _ _), ?_⟩
      rw [shape]
      by_cases dividend : s.regs .rax = overflowDividend word
      · rw [if_pos dividend] at last
        rw [if_pos ⟨divisor, dividend⟩]
        exact before.append (continues.append (.cons safe₃ last (.nil _)))
      · rw [if_neg dividend] at last
        rw [if_neg fun both => dividend both.2]
        exact before.seeks (continues.seeks (.jump safe₃ last List.not_mem_nil))
    cases word with
    | true =>
      obtain ⟨safe₃, next⟩ := step_cmp_imm env s₁ .rax ((BitVec.intMin 32).signExtend 64)
      exact rest _ s₁ (.setFlags _ _ _) (.cons safe₃ next (.nil _)) rfl rfl
    | false =>
      obtain ⟨safe₃, move⟩ := step_mov_reg .rdx (yields_imm env s₁ (BitVec.intMin 64))
      obtain ⟨safe₄, next⟩ := step_cmp_regs env (s₁.setReg .rdx (BitVec.intMin 64) false) .rax .rdx
      refine rest _ (s₁.setReg .rdx (BitVec.intMin 64) false)
        ((Disturbs.setFlags _ _ _).trans (.setReg (by decide) _ _ _))
        (.cons safe₃ move (.cons safe₄ ?_ (.nil _))) rfl rfl
      rw [next]
      rfl
  · rw [if_neg divisor] at jump
    refine ⟨s.setFlags (some (compareFlags (s.regs .rbx) (-1))), .setFlags _ _ _, ?_⟩
    rw [if_neg fun both => divisor both.1]
    refine .cons safe₁ compare (.jump safe₂ jump ?_)
    cases word <;> exact List.not_mem_nil

/-! ### The code of a division -/

/-- The store of zero that stands for the division that would overflow. -/
def overflowResult (rd : Register) (skip : Nat) : List (Item Instr) :=
  [.instr (.mov .bits64 (slot rd) (.imm 0)), .instr (.jmp skip)]

/-- The code between the loads of the operands and the end of a division. -/
def divisionCode (word unsigned : Bool) (rd : Register) (store : List (Item Instr)) (n : Nat) :
    List (Item Instr) :=
  (if unsigned then [] else overflowTests word n ++ overflowResult rd (n + 1)) ++
    ([.label n] ++ (divisionInstrs word unsigned ++ store) ++ [.label (n + 1)])

theorem divisionCode_realizes {rd : Register} (nonzero : rd ≠ Register.zero)
    (below : rd ≠ Register.pc) {word unsigned remainder : Bool} {store : List (Item Instr)} {n : Nat}
    (free : binds store = [])
    (divides : ∀ env s, Anchored st size env s → s.foreign .rax = false → s.foreign .rbx = false →
      Realizes st size env (divisionInstrs word unsigned ++ store) [] s
        (.ofValue s.guest rd ((hostQuotients word unsigned (s.regs .rax) (s.regs .rbx)).map
          fun p => extended word (if remainder then p.2 else p.1))))
    (anchored : Anchored st size env s) (left : s.foreign .rax = false)
    (right : s.foreign .rbx = false) :
    Realizes st size env (divisionCode word unsigned rd store n) [] s
      (.ofValue s.guest rd (divisionValue word unsigned remainder (s.regs .rax) (s.regs .rbx))) := by
  have unbound : binds (divisionInstrs word unsigned ++ store) = [] := by
    rw [binds_append, free]
    cases word <;> cases unsigned <;> rfl
  -- the division, with the labels around it
  have between : ∀ code t, Continues (step env) (Sandboxed env) (code ++ [.label n]) s t →
      Disturbs [.rdx] s t →
      Realizes st size env
        (code ++ ([.label n] ++ (divisionInstrs word unsigned ++ store) ++ [.label (n + 1)])) [] s
        (.ofValue s.guest rd ((hostQuotients word unsigned (s.regs .rax) (s.regs .rbx)).map
          fun p => extended word (if remainder then p.2 else p.1))) := by
    intro code t continues disturbs
    have low := disturbs.2 .rax (by decide)
    have high := disturbs.2 .rbx (by decide)
    have divided := divides env t (disturbs.anchored (by decide) anchored)
      (low.2.trans left) (high.2.trans right)
    rw [disturbs.1, low.1, high.1] at divided
    have whole := (divided.after bindsOwn_exitCode continues).labeled bindsOwn_exitCode (l := n + 1)
      fun _ member => absurd member List.not_mem_nil
    simpa using whole
  unfold divisionCode divisionValue
  cases unsigned with
  | true =>
    simp only [if_true, Bool.true_eq_false, false_and, if_false]
    exact between [] s (.label n s) (.refl _ s)
  | false =>
    simp only [Bool.false_eq_true, if_false, true_and]
    obtain ⟨t, disturbs, runs⟩ := overflowTests_runs word n env s
    by_cases overflow : s.regs .rbx = -1 ∧ s.regs .rax = overflowDividend word
    · rw [if_pos overflow] at runs ⊢
      have anchored' := disturbs.anchored (by decide) anchored
      obtain ⟨safe, zero⟩ := step_mov_slot anchored' nonzero below (yields_imm env t 0)
      let t' := t.setGuest (t.guest.setRegister rd 0)
      have safe' : Sandboxed env (.jmp (n + 1)) t' := by
        simp [Sandboxed, sandboxed, accesses, storesForeign]
      have leave : Seeks (step env) (Sandboxed env) (overflowResult rd (n + 1)) (n + 1) t t' :=
        .cons safe zero (.jump safe' rfl List.not_mem_nil)
      have absent : n + 1 ∉ binds ([.label n] ++ (divisionInstrs word false ++ store)) := by
        rw [binds_append, unbound]
        simp
      have arrives := ((runs.seeks leave).pass absent).arrive
      refine ⟨.ran t', ?_, anchored'.setRegister rd 0, by rw [State.guest_setGuest, disturbs.1]⟩
      simpa only [Ends, List.append_assoc] using arrives
    · rw [if_neg overflow] at runs ⊢
      have absent : n ∉ binds (overflowResult rd (n + 1)) := List.not_mem_nil
      exact between _ t (runs.pass absent).arrive disturbs

end Host

/-- The loads of the operands in front. -/
private theorem emits_operands {st : Setting} {size : Word} {i : Instruction} {rest : Gen Unit}
    {n : Nat} {value : Word → Word → Option Word}
    (emits : Emits st size rest n ()
      (fun env s => Anchored st size env s ∧ s.foreign .rax = false ∧ s.foreign .rbx = false)
      fun s => .ofValue s.guest i.rd (value (s.regs .rax) (s.regs .rbx))) :
    Emits st size (do loadRegister .rax i.rs1 0; loadRegister .rbx i.rs2 0; rest) n ()
      (Anchored st size) fun s => .ofValue s.guest i.rd
        (value (s.guest.registers.get i.rs1) (s.guest.registers.get i.rs2)) := by
  have second : Emits st size (do loadRegister .rbx i.rs2 0; rest) n ()
      (fun env s => Anchored st size env s ∧ s.foreign .rax = false)
      fun s => .ofValue s.guest i.rd (value (s.regs .rax) (s.guest.registers.get i.rs2)) := by
    refine Emits.after_does (does_loadRegister st size i.rs2_ne_pc (by decide) n) emits
      (fun _ _ holds => holds.1) ?_
    rintro env s s₁ ⟨anchored, native⟩ sets
    -- loading the second operand keeps the first
    have kept := sets.other (q := .rax) (by decide)
    refine ⟨⟨sets.anchored anchored rfl, kept.2.trans native, sets.native⟩, ?_⟩
    rw [sets.guest, sets.value, kept.1]
    simp
  refine Emits.after_does (does_loadRegister st size i.rs1_ne_pc (by decide) n) second
    (fun _ _ holds => holds) ?_
  intro env s s₁ anchored sets
  refine ⟨⟨sets.anchored anchored rfl, sets.native⟩, ?_⟩
  rw [sets.guest, sets.value]
  simp

/-- `generate_divide` for `rd` not `x0`. -/
theorem emits_generateDivide {st : Setting} {size : Word} {i : Instruction}
    (nonzero : i.rd ≠ Register.zero) (n : Nat) :
    Emits st size (generateDivide i) n () (Anchored st size)
      fun s => .ofValue s.guest i.rd
        (divideValue i.type (s.guest.registers.get i.rs1) (s.guest.registers.get i.rs2)) := by
  unfold generateDivide divideValue
  generalize instructionAnyOf i.type [.divw, .divuw, .remw, .remuw] = word
  generalize instructionAnyOf i.type [.divu, .divuw, .remu, .remuw] = unsigned
  generalize instructionAnyOf i.type [.rem, .remu, .remw, .remuw] = remainder
  obtain ⟨store, ran, free, divides⟩ :=
    @realizes_division st size _ nonzero i.rd_ne_pc word unsigned remainder (n + 2)
  dsimp only
  have fresh : FreshLabels PendingExit.label n (divisionCode word unsigned i.rd store n) [] (n + 2) := by
    have unbound : binds (divisionInstrs word unsigned) = [] := by
      cases word <;> cases unsigned <;> rfl
    have tests : ∀ l, binds (overflowTests word l) = [] := by
      cases word <;> exact fun _ => rfl
    refine ⟨by omega, ?_, fun _ member => absurd member List.not_mem_nil⟩
    cases unsigned <;> simp [divisionCode, tests, overflowResult, unbound, free]
  refine emits_operands ⟨n + 2, divisionCode word unsigned i.rd store n, [], ?_, fresh,
    fun env s ⟨anchored, left, right⟩ =>
      divisionCode_realizes nonzero i.rd_ne_pc free divides anchored left right⟩
  -- the constants in the form `simp` leaves them in
  · have test : ∀ t, (Instr.cmp (.reg t) (.imm 18446744073709551615#64)).encodable = true :=
      fun _ => rfl
    have least : (Instr.cmp (.reg .rax) (.imm ((BitVec.intMin 32).signExtend 64))).encodable = true :=
      rfl
    have load : (Instr.mov .bits64 (.reg .rdx) (.imm (BitVec.intMin 64))).encodable = true := rfl
    have compare : (Instr.cmp (.reg .rax) (.reg .rdx)).encodable = true := rfl
    have clear : ∀ size, (Instr.alu .xor size (.reg .rdx) (.reg .rdx)).encodable = true :=
      fun _ => rfl
    have cqo : ∀ size, (Instr.cqo size).encodable = true := fun _ => rfl
    have div : ∀ size, (Instr.div size .rbx).encodable = true := fun _ => rfl
    have idiv : ∀ size, (Instr.idiv size .rbx).encodable = true := fun _ => rfl
    have jcc : ∀ l, (Instr.jcc .ne l).encodable = true := fun _ => rfl
    have jmp : ∀ l, (Instr.jmp l).encodable = true := fun _ => rfl
    have zero : (storeUimmToRegister i.rd RA.a 0#64).run (n + 2)
        = .ok ⟨(), [.instr (.mov .bits64 (slot i.rd) (.imm 0))], [], n + 2⟩ := by
      have encodable : (Instr.mov .bits64 (slot i.rd) (.imm 0)).encodable = true := rfl
      have small : inInt32 0#64 = true := rfl
      simp only [storeUimmToRegister, storeImmToRegister, nonzero, small, if_true, if_false]
      rw [Emitter.run_bind_of_ok (run_registerOperand nonzero i.rd_ne_pc _)]
      exact congrArg _ (run_ins encodable (n + 2))
    cases word <;> cases unsigned <;>
      simp [Emitter.run_bind, run_ins, test, least, load, compare, clear, cqo, div, idiv, jcc, jmp,
        zero, ran, divisionCode, divisionInstrs, overflowTests, overflowResult]

theorem generateInstruction_division {i : Instruction} (g : CodeGenerator)
    (kind : isDivision i.type = true) :
    g.generateInstruction i =
      (do
        if i.rd ≠ Register.zero then generateDivide i
        pure true) := by
  unfold generateInstruction
  cases type : i.type <;> first | rfl | exact absurd (type ▸ kind) (by decide)

/-- `generate_instruction` on a division. -/
theorem emits_division {st : Setting} {size : Word} {i : Instruction} (g : CodeGenerator)
    (kind : isDivision i.type = true) (n : Nat) :
    Emits st size (g.generateInstruction i) n true (Anchored st size)
      fun s => if i.rd = Register.zero then .next s.guest else .ofValue s.guest i.rd
        (divideValue i.type (s.guest.registers.get i.rs1) (s.guest.registers.get i.rs2)) := by
  rw [generateInstruction_division g kind]
  by_cases zero : i.rd = Register.zero
  · simp only [zero, ne_eq, not_true_eq_false, if_false, if_true]
    exact Emits.unchanged true n
  · simp only [ne_eq, zero, not_false_eq_true, if_true, if_false]
    exact (emits_generateDivide zero n).returns true

end Riscv64Emulator.Jit.X64
