import Riscv64Emulator.Jit.Aarch64.Transfers
import Riscv64Emulator.Jit.Aarch64.Entry

/-!
# The AArch64 generator refines the abstract model

Every instruction the generator compiles has its abstract effect, and a block has the
effect of its instructions in order, however its registers were spread over the cache in
between. The generator never gives up on a block.
-/
namespace Riscv64Emulator.Jit.Aarch64

open LinearCode CodeGenerator RegisterCache

/-- The arithmetic of AArch64 code. A product or quotient into `x0` is handed back to the
interpreter. -/
def a64BackEnd : BackEnd where
  value i pc r := some (computedValue i pc r)
  supports i := Isa.computes i.type || i.rd != Register.zero

section Instructions

variable {b : Block} {g : CodeGenerator} (uses : g.Uses b) {i : Instruction} {c : GenState}
include uses

theorem compilesTo_computation (kind : isComputation i.type = true)
    (shape : InstructionDecoder.ImmediateOf i.type i.b) (idle : c.cache.Idle) :
    ∃ goesOn, CompilesTo b g i c goesOn (effect a64BackEnd b.setting g.currentPc i) ∧
      (goesOn = false → ∀ guest, ∃ d guest',
        effect a64BackEnd b.setting g.currentPc i guest = .depart d guest') := by
  by_cases zero : i.rd = Register.zero
  -- nothing is emitted into register zero, except that a product or a division leaves the block
  · cases direct : Isa.computes i.type with
    | true =>
      have generated : g.generateInstruction i = pure true := by
        unfold generateInstruction
        cases type : i.type <;> first
          | exact absurd (type ▸ direct) (by decide)
          | exact if_neg (fun nonzero => nonzero zero)
      refine ⟨true, (CompilesTo.unchanged idle generated).congr fun guest => ?_, fun h => by cases h⟩
      rw [effect_computation a64BackEnd b.setting g.currentPc guest kind]
      simp [a64BackEnd, direct, zero]
    | false =>
      have outcome : ∀ guest, effect a64BackEnd b.setting g.currentPc i guest
          = .depart (.exit .unsupportedInstruction g.currentPc) guest := fun guest => by
        rw [effect_computation a64BackEnd b.setting g.currentPc guest kind]
        simp [a64BackEnd, direct, zero]
      have generated : g.generateInstruction i
          = (do g.generateExit .unsupportedInstruction g.currentPc; pure false) := by
        unfold generateInstruction
        cases type : i.type <;> first
          | exact absurd (type ▸ kind) (by decide)
          | exact absurd (type ▸ direct) (by decide)
          | exact if_neg (fun nonzero => nonzero zero)
      refine ⟨false, ⟨c, idle, ?_⟩, fun _ guest => ⟨_, _, outcome guest⟩⟩
      rw [generated]
      refine ((emits_exit uses .unsupportedInstruction g.currentPc idle.wf c.cache).returns
        fun _ => false).conseq (fun _ _ mirrors => mirrors) ?_
      intro k s ending _ meets
      rwa [outcome]
  · obtain ⟨c', idle', -, emits⟩ := emits_computation zero uses kind shape idle
    refine ⟨true, ⟨c', idle', emits.conseq (fun _ _ mirrors => mirrors) ?_⟩, fun h => by cases h⟩
    intro k s ending _ meets
    rw [effect_computation a64BackEnd b.setting g.currentPc k.2 kind]
    have supported : a64BackEnd.supports i = true := by simp [a64BackEnd, zero]
    rw [supported, if_neg (by decide), if_neg zero]
    exact meets

/-- Every instruction has code, and the code has its effect. Control comes back from it only
when the generator goes on with the next one. -/
theorem compilesTo_effect (shape : InstructionDecoder.ImmediateOf i.type i.b) (idle : c.cache.Idle) :
    ∃ goesOn, CompilesTo b g i c goesOn (effect a64BackEnd b.setting g.currentPc i) ∧
      (goesOn = false → ∀ guest, ∃ d guest',
        effect a64BackEnd b.setting g.currentPc i guest = .depart d guest') := by
  have continues : ∀ {P : Prop}, true = false → P := fun h => by cases h
  rcases instruction_family i.type with kind | kind | kind | ⟨reason, kind⟩ | kind | kind | kind | kind
  · exact ⟨true, compilesTo_load uses _ kind idle, continues⟩
  · exact ⟨true, compilesTo_store uses _ kind idle, continues⟩
  · exact ⟨true, compilesTo_branch uses _ kind idle, continues⟩
  · exact ⟨false, compilesTo_exit uses _ kind idle, fun _ guest =>
      ⟨_, _, effect_exit a64BackEnd b.setting g.currentPc guest kind⟩⟩
  -- `jal` and `jalr` leave by one of their exits
  · refine ⟨false, compilesTo_jal uses _ kind idle, fun _ guest => ?_⟩
    obtain ⟨d, departs⟩ := b.setting.staticBranch_departs g.currentPc (g.currentPc + i.imm)
      (guest.setRegister i.rd (g.currentPc + 4))
    exact ⟨d, _, by simpa only [effect, kind] using departs⟩
  · refine ⟨false, compilesTo_jalr uses _ kind idle, fun _ guest => ?_⟩
    obtain ⟨d, departs⟩ := b.setting.dynamicBranch_departs (guest.registers.get i.rs1 + i.imm)
      (guest.setRegister i.rd (g.currentPc + 4))
    exact ⟨d, _, by simpa only [effect, kind] using departs⟩
  · exact ⟨true, compilesTo_fence _ kind idle, continues⟩
  · exact compilesTo_computation uses kind shape idle

end Instructions

/-! ### A block -/

/-- Behind an instruction no register is locked. -/
theorem run_finishInstruction {c : GenState} (idle : c.cache.Idle) :
    finishInstruction.run c = .ok ⟨(), [], [],
      { c with cache := { c.cache with programCounter := c.cache.programCounter + 1 } }⟩ := by
  have unlocked : (List.finRange RA.cacheSize).all (fun id => !(c.cache.slots id).locked) = true := by
    refine List.all_eq_true.mpr fun id _ => ?_
    rw [idle.unlocked]
    rfl
  unfold finishInstruction
  rw [Emitter.run_bind_of_ok (run_getCache c)]
  dsimp only
  rw [verify, if_pos unlocked]
  rfl

theorem RegisterCache.Idle.tick {c : RegisterCache} (idle : c.Idle) :
    ({ c with programCounter := c.programCounter + 1 } : RegisterCache).Idle where
  wf := { idle.wf with }
  unlocked := idle.unlocked

/-- The guest behind an instruction that passes control on. -/
def nextGuest (guest : Guest) : Outcome → Guest
  | .next guest' => guest'
  | _ => guest

/-- A block realizes the effects of its instructions in order. The guest's memory may have
changed since the block was compiled from `g.memory`; its size has not. -/
theorem generateBlock_emits {b : Block} (fuel : Nat) (g : CodeGenerator) (uses : g.Uses b)
    {c : GenState} (idle : c.cache.Idle) {o : Emitted Instr PendingExit GenState Unit}
    (ran : (g.generateBlock fuel).run c = .ok o) :
    Emits b (g.generateBlock fuel) c () o.state (Mirrors b c.cache settled) (fun k _ =>
      Meets b o.state.cache k.1 (blockEffect a64BackEnd b.setting g.memory fuel g.currentPc k.2)) := by
  induction fuel generalizing g c o with
  | zero => cases ran
  | succ fuel ih =>
    unfold generateBlock at ran ⊢
    unfold blockEffect
    cases fetched : codeAt g.memory g.currentPc with
    | none =>
      -- the block ends where no instruction can be fetched
      simp only [fetched] at ran ⊢
      rw [run_generateExit uses] at ran
      cases ran
      exact emits_exit uses .instructionFetchFault g.currentPc idle.wf c.cache
    | some i =>
      -- the code of the instruction, then `finishInstruction`, then the rest of the block
      have shape : InstructionDecoder.ImmediateOf i.type i.b := by
        obtain ⟨w, -, rfl⟩ := Option.map_eq_some_iff.mp fetched
        exact Instruction.immediateOf_ofWord _
      simp only [fetched] at ran ⊢
      obtain ⟨goesOn, ⟨c₁, idle₁, first⟩, ends⟩ := compilesTo_effect uses shape idle
      obtain ⟨code₁, exits₁, ran₁, -⟩ := id first
      obtain ⟨o₁, o₂, here, behind, rfl⟩ := Emitter.run_bind_ok_iff.mp ran
      cases here.symm.trans ran₁
      let c₂ : GenState := { c₁ with cache := { c₁.cache with programCounter := c₁.cache.programCounter + 1 } }
      have idle₂ : c₂.cache.Idle := idle₁.tick
      have finish := run_finishInstruction idle₁
      obtain ⟨o₃, o₄, finished, rest, rfl⟩ := Emitter.run_bind_ok_iff.mp behind
      cases finished.symm.trans finish
      let g' : CodeGenerator := { g with currentPc := g.currentPc + 4 }
      have uses' : g'.Uses b := { uses with }
      have second : Emits b (do
            if goesOn then
              let g' := { g with currentPc := g.currentPc + 4 }
              if g.singleStep then g'.generateExit .singleStep g'.currentPc
              else g'.generateBlock fuel) c₂ () o₄.state
          (fun k s => goesOn = true ∧ Mirrors b c₂.cache settled k s) (fun k _ =>
            Meets b o₄.state.cache k.1
              (if b.setting.singleStep then .depart (.exit .singleStep (g.currentPc + 4)) k.2
              else blockEffect a64BackEnd b.setting g.memory fuel (g.currentPc + 4) k.2)) := by
        cases goesOn with
        | false =>
          -- nothing is emitted behind an instruction that does not go on
          cases rest
          refine (Emitter.Emits.pure () c₂).conseq (fun _ _ _ => trivial) ?_
          rintro k s ending ⟨goes, -⟩
          cases goes
        | true =>
          rw [uses.singleStep]
          cases stepping : g.singleStep with
          | true =>
            -- single-stepping: an exit behind the instruction
            simp only [stepping, if_true] at rest ⊢
            have uses'' : ({ g' with singleStep := true } : CodeGenerator).Uses b :=
              { uses' with singleStep := uses.singleStep.trans stepping }
            rw [run_generateExit uses''] at rest
            cases rest
            exact (emits_exit uses'' .singleStep (g.currentPc + 4) idle₂.wf c₂.cache).conseq
              (fun _ _ holds => holds.2) fun _ _ _ _ meets => meets
          | false =>
            -- the rest of the block, by the induction
            simp only [stepping, Bool.false_eq_true, if_false, if_true] at rest ⊢
            have uses'' : ({ g' with singleStep := false } : CodeGenerator).Uses b :=
              { uses' with singleStep := uses.singleStep.trans stepping }
            exact (ih _ uses'' idle₂ rest).conseq (fun _ _ holds => holds.2) fun _ _ _ _ meets => meets
      let update : Guest → Guest := fun guest =>
        nextGuest guest (effect a64BackEnd b.setting g.currentPc i guest)
      refine Emitter.Emits.seq (bindsOwn_exitCode b) first
        (.silent (show c₁.nextLabel ≤ c₂.nextLabel from Nat.le_refl _) finish (second.rebase update))
        (fun _ _ mirrors => mirrors) ?_ ?_ ?_
      · -- the instruction's code runs on: the effect passes control to the next one
        intro k s s₁ _ meets
        cases outcome : effect a64BackEnd b.setting g.currentPc i k.2 with
        | next guest =>
          rw [outcome] at meets
          have stays : goesOn = true := by
            cases goesOn with
            | true => rfl
            | false =>
              obtain ⟨d, guest', departs⟩ := ends rfl k.2
              cases outcome.symm.trans departs
          have updated : update k.2 = guest := by simp only [update, outcome, nextGuest]
          rw [updated]
          exact ⟨⟨stays, Mirrors.congr meets rfl⟩, fun ending meets => meets⟩
        | depart d guest =>
          rw [outcome] at meets
          exact False.elim meets
        | fault =>
          rw [outcome] at meets
          exact False.elim meets
      · -- it leaves the block: so does the effect
        intro k s e s₁ _ meets
        cases outcome : effect a64BackEnd b.setting g.currentPc i k.2 with
        | depart d guest =>
          rw [outcome] at meets
          exact meets
        | next guest =>
          rw [outcome] at meets
          exact False.elim meets
        | fault =>
          rw [outcome] at meets
          exact False.elim meets
      · -- it faults: so does the effect
        intro k s _ meets
        cases outcome : effect a64BackEnd b.setting g.currentPc i k.2 with
        | fault => exact trivial
        | next guest =>
          rw [outcome] at meets
          exact False.elim meets
        | depart d guest =>
          rw [outcome] at meets
          exact False.elim meets

/-- The generator comes to the end of every block that has one: it gives up on no
instruction. -/
theorem run_generateBlock {b : Block} (fuel : Nat) (g : CodeGenerator) (uses : g.Uses b)
    {c : GenState} (idle : c.cache.Idle)
    (ends : ∃ n < fuel, codeAt g.memory (g.currentPc + BitVec.ofNat 64 (4 * n)) = none) :
    ∃ o, (g.generateBlock fuel).run c = .ok o := by
  induction fuel generalizing g c with
  | zero =>
    obtain ⟨n, below, -⟩ := ends
    omega
  | succ fuel ih =>
    unfold generateBlock
    cases fetched : codeAt g.memory g.currentPc with
    | none => exact ⟨_, run_generateExit uses .instructionFetchFault g.currentPc c⟩
    | some i =>
      have shape : InstructionDecoder.ImmediateOf i.type i.b := by
        obtain ⟨w, -, rfl⟩ := Option.map_eq_some_iff.mp fetched
        exact Instruction.immediateOf_ofWord _
      obtain ⟨goesOn, ⟨c₁, idle₁, code₁, exits₁, ran₁, -⟩, -⟩ := compilesTo_effect uses shape idle
      have uses' : ({ g with currentPc := g.currentPc + 4 } : CodeGenerator).Uses b := { uses with }
      -- the end of the block lies behind this instruction
      have behind : ∃ n < fuel, codeAt g.memory (g.currentPc + 4 + BitVec.ofNat 64 (4 * n)) = none := by
        obtain ⟨n, below, absent⟩ := ends
        cases n with
        | zero =>
          rw [Nat.mul_zero, BitVec.add_zero, fetched] at absent
          cases absent
        | succ n =>
          refine ⟨n, by omega, ?_⟩
          rw [add_four]
          exact absent
      let c₂ : GenState := { c₁ with cache := { c₁.cache with programCounter := c₁.cache.programCounter + 1 } }
      have idle₂ : c₂.cache.Idle := idle₁.tick
      simp only [Emitter.run_bind_of_ok ran₁, Emitter.run_bind_of_ok (run_finishInstruction idle₁)]
      cases goesOn with
      | false => exact ⟨_, rfl⟩
      | true =>
        cases stepping : g.singleStep with
        | true =>
          have exit := run_generateExit uses' .singleStep (g.currentPc + 4)
          simp only [stepping, if_true] at exit ⊢
          rw [exit]
          exact ⟨_, rfl⟩
        | false =>
          simp only [Bool.false_eq_true, if_false, if_true]
          have uses'' : ({ g with singleStep := false, currentPc := g.currentPc + 4 } :
              CodeGenerator).Uses b := { uses' with singleStep := uses.singleStep.trans stepping }
          obtain ⟨o, ran⟩ := ih _ uses'' idle₂ behind
          rw [ran]
          exact ⟨_, rfl⟩

/-! ### A whole block -/

/-- What the code of a whole block does: it leaves as the abstract outcome says, or faults. -/
def Performs (b : Block) (env : Env) (code : List (Item Instr)) (s : State) : Outcome → Prop
  | .next _ => False
  | .depart d guest => ∃ e s', Quits (step env) (Sandboxed env) code s e s' ∧
      Departs b env d guest e s'
  | .fault => Faults (step env) (Sandboxed env) code s

theorem run_basePc (basePc : Word) (c : GenState) :
    (ins (.movImm RA.basePc basePc)).run c = .ok ⟨(), [.instr (.movImm RA.basePc basePc)], [], c⟩ :=
  run_ins rfl c

theorem run_generateCode (g : CodeGenerator) (fuel : Nat)
    (ends : ∃ n < fuel, codeAt g.memory (g.currentPc + BitVec.ofNat 64 (4 * n)) = none) :
    ∃ code, g.generateCode fuel = .ok code := by
  obtain ⟨b, uses⟩ := g.exists_block
  have idle : (⟨0, {}⟩ : GenState).cache.Idle := RegisterCache.Idle.empty
  obtain ⟨o, ran⟩ := run_generateBlock fuel g uses idle ends
  refine ⟨.instr (.movImm RA.basePc g.basePc) :: o.code ++ o.exits.flatMap (exitCode b), ?_⟩
  unfold generateCode
  rw [run_basePc]
  simp only [bind, Except.bind, ran, run_generatePendingExits uses]
  rfl

/-- `generate_code` refines `blockEffect`. -/
theorem generateCode_performs (g : CodeGenerator) {fuel : Nat} {code : List (Item Instr)}
    (ran : g.generateCode fuel = .ok code) {env : Env} {s : State}
    (anchored : Anchored (g.setting env) g.memory.size env s) :
    Performs (g.block env) env code s
      (blockEffect a64BackEnd (g.setting env) g.memory fuel g.currentPc s.guest) := by
  have uses := g.uses_block env
  unfold generateCode at ran
  rw [run_basePc] at ran
  cases block : (g.generateBlock fuel).run ⟨0, {}⟩ with
  | error e =>
    simp only [block, bind, Except.bind] at ran
    cases ran
  | ok o =>
    simp only [block, bind, Except.bind, run_generatePendingExits uses, pure, Except.pure,
      Except.ok.injEq] at ran
    subst ran
    obtain ⟨code, exits, ran, -, realizes⟩ :=
      generateBlock_emits fuel g uses (c := ⟨0, {}⟩) RegisterCache.Idle.empty block
    rw [block] at ran
    rw [Except.ok.inj ran]
    -- behind the base pc the empty cache mirrors the guest
    have based : Continues (step env) (Sandboxed env) [.instr (.movImm RA.basePc g.basePc)] s
        (s.setReg RA.basePc g.basePc false) := .cons rfl rfl (.nil _)
    have mirrors := (anchored.based (b := g.block env)).mirrors
    rw [State.guest_setReg] at mirrors
    obtain ⟨ending, ends, meets⟩ :=
      (realizes (env, s.guest) _ mirrors).after (bindsOwn_exitCode (g.block env)) based
    cases outcome : blockEffect a64BackEnd (g.setting env) g.memory fuel g.currentPc s.guest with
    | next guest => exact blockEffect_ne_next _ _ _ _ _ _ _ outcome
    | depart d guest =>
      have meets : Meets (g.block env) o.state.cache env (.depart d guest) ending := outcome ▸ meets
      cases ending with
      | left e s' => exact ⟨e, s', ⟨ends.runs, ends.always⟩, meets⟩
      | ran s' => exact False.elim meets
      | faulted => exact False.elim meets
    | fault =>
      have meets : Meets (g.block env) o.state.cache env .fault ending := outcome ▸ meets
      cases ending with
      | left e s' => exact False.elim meets
      | ran s' => exact False.elim meets
      | faulted => exact Faults.append ends

end Riscv64Emulator.Jit.Aarch64
