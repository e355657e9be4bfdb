import Riscv64Emulator.Jit.X64.Divide

/-!
# The x64 generator refines the abstract model

Every instruction the generator compiles has its abstract effect, and a block has the
effect of its instructions in order: whatever code `generate_code` returns, entered in a
state the trampoline sets up, leaves the guest as `blockEffect` says, and stays in the
sandbox on the way.
-/
namespace Riscv64Emulator.Jit.X64

open LinearCode CodeGenerator

/-- The arithmetic of x64 code. -/
def x64BackEnd : BackEnd where
  value i pc r :=
    if isDivision i.type then divideValue i.type (r.get i.rs1) (r.get i.rs2)
    else some (computedValue i pc r)
  supports _ := true

/-- The instructions the generator finds code for. -/
structure Compilable (g : CodeGenerator) (i : Instruction) : Prop where
  hasCode : ¬NoCode i
  memory : (isLoad i.type = true ∧ i.rd ≠ Register.zero) ∨ isStore i.type = true →
    fitsImm32 g.memory.size = true
  blocks : i.type = .jalr → fitsImm32 g.maxBlockCount = true

/-! ### What a successful run tells -/

theorem encodable_of_run {j : Instr} {n : Nat} {o : Emitted Instr PendingExit Nat Unit}
    (ran : (ins j).run n = .ok o) : j.encodable = true := by
  cases encodable : j.encodable with
  | true => rfl
  | false =>
    rw [run_ins_error encodable] at ran
    cases ran

theorem fitsImm32_of_run_cmp {t : X64R} {v : Word} {n : Nat}
    {o : Emitted Instr PendingExit Nat Unit} (ran : (ins (.cmp (.reg t) (.imm v))).run n = .ok o) :
    fitsImm32 v = true := by
  simpa [Instr.encodable, Operand.pairable, Operand.isMem, Operand.isImm] using encodable_of_run ran

theorem fitsImm32_of_validate {g : CodeGenerator} {t scratch1 scratch2 : X64R} {k : Nat}
    {write : Bool} {n : Nat} {o : Emitted Instr PendingExit Nat Unit}
    (ran : (g.generateValidateMemoryAccess t scratch1 scratch2 k write).run n = .ok o) :
    fitsImm32 g.memory.size = true := by
  unfold generateValidateMemoryAccess at ran
  obtain ⟨_, _, -, rest, -⟩ := Emitter.run_bind_ok_iff.mp ran
  by_cases positive : k > 0
  · simp only [positive, if_true] at rest
    obtain ⟨_, _, -, rest, -⟩ := Emitter.run_bind_ok_iff.mp rest
    obtain ⟨_, _, -, rest, -⟩ := Emitter.run_bind_ok_iff.mp rest
    obtain ⟨_, _, compare, -, -⟩ := Emitter.run_bind_ok_iff.mp rest
    exact fitsImm32_of_run_cmp compare
  · simp only [positive, if_false] at rest
    obtain ⟨_, _, compare, -, -⟩ := Emitter.run_bind_ok_iff.mp rest
    exact fitsImm32_of_run_cmp compare

theorem fitsImm32_of_dynamicBranch {g : CodeGenerator} {t scratch : X64R} {n : Nat}
    {o : Emitted Instr PendingExit Nat Unit} (ran : (g.generateDynamicBranch t scratch).run n = .ok o) :
    fitsImm32 g.maxBlockCount = true := by
  unfold generateDynamicBranch at ran
  obtain ⟨_, _, -, rest, -⟩ := Emitter.run_bind_ok_iff.mp ran
  obtain ⟨_, _, -, rest, -⟩ := Emitter.run_bind_ok_iff.mp rest
  obtain ⟨_, _, -, rest, -⟩ := Emitter.run_bind_ok_iff.mp rest
  obtain ⟨_, _, -, rest, -⟩ := Emitter.run_bind_ok_iff.mp rest
  obtain ⟨_, _, -, rest, -⟩ := Emitter.run_bind_ok_iff.mp rest
  obtain ⟨_, _, -, rest, -⟩ := Emitter.run_bind_ok_iff.mp rest
  obtain ⟨_, _, compare, -, -⟩ := Emitter.run_bind_ok_iff.mp rest
  exact fitsImm32_of_run_cmp compare

variable {i : Instruction}

theorem compilable_of_run {g : CodeGenerator} {n : Nat} {o : Emitted Instr PendingExit Nat Bool}
    (ran : (g.generateInstruction i).run n = .ok o) : Compilable g i where
  hasCode noCode := by
    obtain ⟨e, failed⟩ := run_noCode g noCode n
    rw [failed] at ran
    cases ran
  -- a check that was emitted compared with the memory's size as an immediate
  memory access := by
    rcases access with ⟨kind, nonzero⟩ | kind
    · rw [generateInstruction_load g kind, if_pos nonzero] at ran
      obtain ⟨_, _, load, -, -⟩ := Emitter.run_bind_ok_iff.mp ran
      unfold generateLoad at load
      obtain ⟨_, _, -, rest, -⟩ := Emitter.run_bind_ok_iff.mp load
      obtain ⟨_, _, -, rest, -⟩ := Emitter.run_bind_ok_iff.mp rest
      obtain ⟨_, _, check, -, -⟩ := Emitter.run_bind_ok_iff.mp rest
      exact fitsImm32_of_validate check
    · rw [generateInstruction_store g kind] at ran
      obtain ⟨_, _, store, -, -⟩ := Emitter.run_bind_ok_iff.mp ran
      unfold generateStore at store
      obtain ⟨_, _, -, rest, -⟩ := Emitter.run_bind_ok_iff.mp store
      obtain ⟨_, _, -, rest, -⟩ := Emitter.run_bind_ok_iff.mp rest
      obtain ⟨_, _, check, -, -⟩ := Emitter.run_bind_ok_iff.mp rest
      exact fitsImm32_of_validate check
  -- likewise for the number of blocks
  blocks kind := by
    rw [generateInstruction_jalr g kind] at ran
    obtain ⟨_, _, -, rest, -⟩ := Emitter.run_bind_ok_iff.mp ran
    by_cases zero : i.rd = Register.zero
    · simp only [zero, ne_eq, not_true_eq_false, if_false] at rest
      obtain ⟨_, _, jump, -, -⟩ := Emitter.run_bind_ok_iff.mp rest
      exact fitsImm32_of_dynamicBranch jump
    · simp only [ne_eq, zero, not_false_eq_true, if_true] at rest
      obtain ⟨_, _, -, rest, -⟩ := Emitter.run_bind_ok_iff.mp rest
      obtain ⟨_, _, jump, -, -⟩ := Emitter.run_bind_ok_iff.mp rest
      exact fitsImm32_of_dynamicBranch jump

/-! ### One instruction -/

/-- The code of an instruction has its effect, and control comes back from it only when the
generator goes on with the next one. -/
def CompilesTo (st : Setting) (size : Word) (g : CodeGenerator) (i : Instruction) (n : Nat)
    (outcome : Guest → Outcome) : Prop :=
  ∃ goesOn, Emits st size (g.generateInstruction i) n goesOn (Anchored st size)
      (fun s => outcome s.guest) ∧
    (goesOn = false → ∀ guest guest', outcome guest ≠ .next guest')

section Instructions

variable {st : Setting} {size : Word} {g : CodeGenerator} {n : Nat} {outcome : Guest → Outcome}

private theorem CompilesTo.goesOn (emits : Emits st size (g.generateInstruction i) n true
    (Anchored st size) fun s => outcome s.guest) : CompilesTo st size g i n outcome :=
  ⟨true, emits, fun h => by cases h⟩

private theorem CompilesTo.ends (emits : Emits st size (g.generateInstruction i) n false
    (Anchored st size) fun s => outcome s.guest)
    (departs : ∀ guest, ∃ d guest', outcome guest = .depart d guest') :
    CompilesTo st size g i n outcome := by
  refine ⟨false, emits, fun _ guest guest' same => ?_⟩
  obtain ⟨d, g', departs⟩ := departs guest
  cases same.symm.trans departs

theorem compilesTo_computation (kind : isComputation i.type = true)
    (shape : InstructionDecoder.ImmediateOf i.type i.b) (hasCode : ¬NoCode i) :
    CompilesTo st size g i n (effect x64BackEnd st g.currentPc i) := by
  refine .goesOn ?_
  -- a division can fault, a computation cannot
  cases division : isDivision i.type with
  | true =>
    refine (emits_division g division n).congr (fun _ _ anchored => anchored) fun env s _ => ?_
    rw [effect_computation x64BackEnd st g.currentPc s.guest kind]
    simp [x64BackEnd, division]
  | false =>
    have direct : computesDirectly i.type = true := by
      simpa [isComputation, division] using kind
    refine (Emits.of_does _ (does_computation st size g shape direct hasCode n)).congr
      (fun _ _ anchored => anchored) fun env s _ => ?_
    rw [effect_computation x64BackEnd st g.currentPc s.guest kind]
    by_cases zero : i.rd = Register.zero <;> simp [x64BackEnd, division, zero, Outcome.ofValue]

theorem compilesTo_effect (uses : g.Uses st) (bound : size = g.memory.size)
    (shape : InstructionDecoder.ImmediateOf i.type i.b) (compilable : Compilable g i) :
    CompilesTo st size g i n (effect x64BackEnd st g.currentPc i) := by
  -- one case for each family of the source's `switch`
  rcases instruction_family i.type with kind | kind | kind | ⟨reason, kind⟩ | kind | kind | kind | kind
  · exact .goesOn (emits_load _ g kind uses.flags bound
      (fun nonzero => compilable.memory (Or.inl ⟨kind, nonzero⟩)) n)
  · exact .goesOn (emits_store _ g kind uses.flags bound (compilable.memory (Or.inr kind)) n)
  · exact .goesOn (emits_branch _ g kind uses n)
  · exact .ends (emits_exitReason _ g kind n) fun guest =>
      ⟨_, _, effect_exit x64BackEnd st g.currentPc guest kind⟩
  · refine .ends (emits_jal _ g kind uses n) fun guest => ?_
    obtain ⟨d, departs⟩ := st.staticBranch_departs g.currentPc (g.currentPc + i.imm)
      (guest.setRegister i.rd (g.currentPc + 4))
    exact ⟨d, _, by simpa only [effect, kind] using departs⟩
  · refine .ends (emits_jalr _ g kind uses (compilable.blocks kind) n) fun guest => ?_
    obtain ⟨d, departs⟩ := st.dynamicBranch_departs (guest.registers.get i.rs1 + i.imm)
      (guest.setRegister i.rd (g.currentPc + 4))
    exact ⟨d, _, by simpa only [effect, kind] using departs⟩
  · exact .goesOn (emits_fence _ g kind n)
  · exact compilesTo_computation kind shape compilable.hasCode

theorem run_generateInstruction (shape : InstructionDecoder.ImmediateOf i.type i.b)
    (compilable : Compilable g i) (n : Nat) : ∃ o, (g.generateInstruction i).run n = .ok o := by
  let st : Setting := ⟨g.flags, g.maxBlockCount, g.singleStep, fun _ => 0⟩
  have uses : g.Uses st := ⟨rfl, rfl, rfl⟩
  obtain ⟨goesOn, ⟨n', code, exits, ran, -⟩, -⟩ := compilesTo_effect (n := n) uses rfl shape compilable
  exact ⟨_, ran⟩

end Instructions

/-! ### A block -/

/-- A block realizes the effects of its instructions in order. The guest's memory may have
changed since the block was compiled from `g.memory`; its size has not. -/
theorem generateBlock_realizes {st : Setting} (fuel : Nat) (g : CodeGenerator) (uses : g.Uses st)
    {n : Nat} {o : Emitted Instr PendingExit Nat Unit} (ran : (g.generateBlock fuel).run n = .ok o) :
    FreshLabels PendingExit.label n o.code o.exits o.state ∧ ∀ env s, Anchored st g.memory.size env s →
      Realizes st g.memory.size env o.code o.exits s
        (blockEffect x64BackEnd st g.memory fuel g.currentPc s.guest) := by
  induction fuel generalizing g n o with
  | zero => cases ran
  | succ fuel ih =>
    unfold generateBlock at ran
    unfold blockEffect
    cases fetched : codeAt g.memory g.currentPc with
    | none =>
      simp only [fetched, run_generateExit, Except.ok.injEq] at ran
      subst ran
      exact ⟨(Terminal.exit n .instructionFetchFault (.value g.currentPc)).freshLabels, fun env s anchored =>
        realizes_exit anchored .instructionFetchFault (.value g.currentPc)⟩
    | some i =>
      have shape : InstructionDecoder.ImmediateOf i.type i.b := by
        obtain ⟨w, -, rfl⟩ := Option.map_eq_some_iff.mp fetched
        exact Instruction.immediateOf_ofWord _
      simp only [fetched] at ran
      obtain ⟨o₁, o₂, first, rest, rfl⟩ := Emitter.run_bind_ok_iff.mp ran
      obtain ⟨goesOn, ⟨n₁, code₁, exits₁, ran₁, fresh₁, realizes₁⟩, ends⟩ :=
        compilesTo_effect (n := n) uses rfl shape (compilable_of_run first)
      cases first.symm.trans ran₁
      -- what follows the instruction, and what it does
      have second : FreshLabels PendingExit.label n₁ o₂.code o₂.exits o₂.state ∧ (goesOn = true → ∀ env s,
          Anchored st g.memory.size env s →
          Realizes st g.memory.size env o₂.code o₂.exits s
            (if st.singleStep then .depart (.exit .singleStep (g.currentPc + 4)) s.guest
            else blockEffect x64BackEnd st g.memory fuel (g.currentPc + 4) s.guest)) := by
        cases goesOn with
        | false =>
          cases rest
          exact ⟨⟨Nat.le_refl _, fun _ member => absurd member List.not_mem_nil,
            fun _ member => absurd member List.not_mem_nil⟩, fun h => by cases h⟩
        | true =>
          simp only [if_true] at rest
          rw [uses.singleStep]
          cases stepping : g.singleStep with
          | true =>
            simp only [stepping, if_true, run_generateExit, Except.ok.injEq] at rest
            subst rest
            exact ⟨(Terminal.exit n₁ .singleStep (.value (g.currentPc + 4))).freshLabels, fun _ env s anchored =>
              realizes_exit anchored .singleStep (.value (g.currentPc + 4))⟩
          | false =>
            simp only [stepping, Bool.false_eq_true, if_false] at rest
            have block := ih { g with singleStep := false, currentPc := g.currentPc + 4 }
              ⟨uses.flags, uses.maxBlockCount, uses.singleStep.trans stepping⟩ rest
            exact ⟨block.1, fun _ => block.2⟩
      refine ⟨fresh₁.append second.1, fun env s anchored => ?_⟩
      cases outcome : effect x64BackEnd st g.currentPc i s.guest with
      | next guest =>
        have stays : goesOn = true := by
          cases goesOn with
          | true => rfl
          | false => exact absurd outcome (ends rfl _ _)
        refine (realizes₁ env s anchored).seq bindsOwn_exitCode fresh₁ second.1 ?_ ?_ ?_ <;>
          simp only [outcome]
        · intro s₁ retires
          rw [← retires.guest]
          exact second.2 stays env s₁ retires.anchored
        · exact fun _ _ meets => False.elim meets
        · exact fun meets => False.elim meets
      | depart d guest =>
        refine (realizes₁ env s anchored).seq bindsOwn_exitCode fresh₁ second.1 ?_ ?_ ?_ <;>
          simp only [outcome]
        · exact fun _ meets => False.elim meets
        · exact fun _ _ meets => meets
        · exact fun meets => False.elim meets
      | fault =>
        refine (realizes₁ env s anchored).seq bindsOwn_exitCode fresh₁ second.1 ?_ ?_ ?_ <;>
          simp only [outcome]
        · exact fun _ meets => False.elim meets
        · exact fun _ _ meets => False.elim meets
        · exact fun _ => trivial

/-- What the code of a whole block does: it leaves as the abstract outcome says, or faults. -/
def Performs (st : Setting) (size : Word) (env : Env) (code : List (Item Instr)) (s : State) :
    Outcome → Prop
  | .next _ => False
  | .depart d guest => ∃ e s', Quits (step env) (Sandboxed env) code s e s' ∧
      Departs st size env d guest e s'
  | .fault => Faults (step env) (Sandboxed env) code s

/-- `generate_code` refines `blockEffect`. -/
theorem generateCode_performs (g : CodeGenerator) {fuel : Nat} {code : List (Item Instr)}
    (ran : g.generateCode fuel = .ok code) {env : Env} {s : State}
    (anchored : Anchored (g.setting env) g.memory.size env s) :
    Performs (g.setting env) g.memory.size env code s
      (blockEffect x64BackEnd (g.setting env) g.memory fuel g.currentPc s.guest) := by
  unfold generateCode at ran
  cases block : (g.generateBlock fuel).run 0 with
  | error e => rw [block] at ran; cases ran
  | ok o =>
    simp only [block, run_generatePendingExits] at ran
    cases ran
    obtain ⟨-, realizes⟩ := generateBlock_realizes fuel g (g.uses_setting env) block
    have realized := realizes env s anchored
    obtain ⟨ending, ends, meets⟩ := realizes env s anchored
    -- the ending the code realizes is the one the effect names
    cases outcome : blockEffect x64BackEnd (g.setting env) g.memory fuel g.currentPc s.guest with
    | next guest => exact blockEffect_ne_next _ _ _ _ _ _ _ outcome
    | depart d guest =>
      rw [outcome] at meets
      cases ending with
      | left e s' => exact ⟨e, s', ⟨ends.runs, ends.always⟩, meets⟩
      | ran s' => exact False.elim meets
      | faulted => exact False.elim meets
    | fault =>
      rw [outcome] at meets
      cases ending with
      | left e s' => exact False.elim meets
      | ran s' => exact False.elim meets
      | faulted => exact Faults.append ends

end Riscv64Emulator.Jit.X64
