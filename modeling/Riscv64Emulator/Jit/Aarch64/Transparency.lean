import Riscv64Emulator.Jit.Jumps

/-!
# The register cache is transparent

A block keeps guest registers in host registers from one instruction to the next. It leaves
the guest as its instructions do when each is compiled alone, with an empty cache that is
flushed behind it.
-/
namespace Riscv64Emulator.Jit

/-- The same setting in a build that steps through blocks. -/
def Setting.stepping (st : Setting) : Setting := { st with singleStep := true }

/-- Control goes to the same place: with the same reason, or, in the stepping build, out of the
code where the other goes on with a block, at the pc of that block. -/
def SamePlace (st : Setting) : Departure → Departure → Prop
  | .exit reason pc, .exit reason' pc' =>
    pc = pc' ∧ (reason = reason' ∨ reason = .blockNotGenerated ∧ reason' = .singleStep)
  | .enter offset, .exit reason pc =>
    reason = .singleStep ∧ pc &&& 3 = 0 ∧ offset = st.blockToOffset (pc.toNat / 4)
  | _, .enter _ => False

section Stepping

variable {be : BackEnd} {st : Setting} {pc target : Word} {i : Instruction} {g g' : Guest}
  {d : Departure}

theorem branchTo_stepping (branch : st.branchTo target g = .depart d g') (aligned : target &&& 3 = 0) :
    ∃ d', st.stepping.branchTo target g = .depart d' g' ∧ SamePlace st d d' := by
  obtain ⟨d₁, departs⟩ := st.branchTo_departs target g
  cases departs.symm.trans branch
  refine ⟨.exit .singleStep target, if_pos rfl, ?_⟩
  rcases branchTo_cases branch with ⟨-, rfl⟩ | ⟨-, -, rfl⟩ | ⟨-, -, rfl⟩
  · exact ⟨rfl, .inl rfl⟩
  · exact ⟨rfl, .inr ⟨rfl, rfl⟩⟩
  · exact ⟨rfl, aligned, rfl⟩

theorem SamePlace.refl_exit (st : Setting) (reason : ArchExitReason) (pc : Word) :
    SamePlace st (.exit reason pc) (.exit reason pc) := ⟨rfl, .inl rfl⟩

theorem staticBranch_stepping (branch : st.staticBranch pc target g = .depart d g') :
    ∃ d', st.stepping.staticBranch pc target g = .depart d' g' ∧ SamePlace st d d' := by
  unfold Setting.staticBranch at branch ⊢
  by_cases misaligned : target &&& 3 ≠ 0
  · rw [if_pos misaligned] at branch ⊢
    cases branch
    exact ⟨_, rfl, .refl_exit st _ _⟩
  · rw [if_neg misaligned] at branch ⊢
    by_cases outside : st.maxBlockCount.toNat ≤ target.toNat / 4
    · rw [if_pos outside] at branch
      cases branch
      exact ⟨_, if_pos outside, .refl_exit st _ _⟩
    · rw [if_neg outside] at branch
      obtain ⟨d', stepped, same⟩ := branchTo_stepping branch (Decidable.not_not.mp misaligned)
      exact ⟨d', (if_neg outside).trans stepped, same⟩

theorem dynamicBranch_stepping (branch : st.dynamicBranch target g = .depart d g')
    (even : target &&& 1 = 0) :
    ∃ d', st.stepping.dynamicBranch target g = .depart d' g' ∧ SamePlace st d d' := by
  unfold Setting.dynamicBranch at branch ⊢
  -- both modes test the target alike before they look at the mode
  by_cases misaligned : target &&& 2 ≠ 0
  · rw [if_pos misaligned] at branch ⊢
    cases branch
    exact ⟨_, rfl, .refl_exit st _ _⟩
  · rw [if_neg misaligned] at branch ⊢
    by_cases outside : st.maxBlockCount.toNat ≤ target.toNat / 4
    · rw [if_pos outside] at branch
      cases branch
      exact ⟨_, if_pos outside, .refl_exit st _ _⟩
    · rw [if_neg outside] at branch
      have aligned := aligned_of_bits even (Decidable.not_not.mp misaligned)
      obtain ⟨d', stepped, same⟩ := branchTo_stepping branch aligned
      exact ⟨d', (if_neg outside).trans stepped, same⟩

/-- The outcomes leave the same guest, at the same place. -/
def SameOutcome (st : Setting) : Outcome → Outcome → Prop
  | .next g, .next g' => g' = g
  | .depart d g, .depart d' g' => g' = g ∧ SamePlace st d d'
  | .fault, .fault => True
  | _, _ => False

theorem SameOutcome.of_departs {o o' : Outcome} (departs : ∃ d, o = .depart d g)
    (stepped : ∀ d, o = .depart d g → ∃ d', o' = .depart d' g ∧ SamePlace st d d') :
    SameOutcome st o o' := by
  obtain ⟨d, rfl⟩ := departs
  obtain ⟨d', rfl, same⟩ := stepped d rfl
  exact ⟨rfl, same⟩

theorem sameOutcome_static (pc target : Word) (g : Guest) :
    SameOutcome st (st.staticBranch pc target g) (st.stepping.staticBranch pc target g) :=
  .of_departs (st.staticBranch_departs pc target g) fun _ => staticBranch_stepping

variable (be st pc) in
/-- An instruction has the same effect on the guest in both builds. -/
theorem effect_stepping (even : i.type = .jalr → (g.registers.get i.rs1 + i.imm) &&& 1 = 0) :
    SameOutcome st (effect be st pc i g) (effect be st.stepping pc i g) := by
  -- an access is checked in the same way in both builds
  have checks : st.stepping.accessAllowed = st.accessAllowed := rfl
  rcases instruction_family i.type with kind | kind | kind | ⟨reason, kind⟩ | kind | kind | kind | kind
  · rw [effect_load be st pc g kind, effect_load be st.stepping pc g kind, checks]
    split
    · rfl
    · split
      · rfl
      · exact ⟨rfl, .refl_exit st _ _⟩
  · rw [effect_store be st pc g kind, effect_store be st.stepping pc g kind, checks]
    split
    · rfl
    · exact ⟨rfl, .refl_exit st _ _⟩
  · rw [effect_branch be st pc g kind, effect_branch be st.stepping pc g kind]
    split
    · exact sameOutcome_static pc _ g
    · rfl
  · rw [effect_exit be st pc g kind, effect_exit be st.stepping pc g kind]
    exact ⟨rfl, .refl_exit st _ _⟩
  · simp only [effect, kind]
    exact sameOutcome_static pc _ _
  · simp only [effect, kind]
    exact .of_departs (st.dynamicBranch_departs _ _) fun _ branch =>
      dynamicBranch_stepping branch (even kind)
  · simp only [effect, kind]
    rfl
  · rw [effect_computation be st pc g kind, effect_computation be st.stepping pc g kind]
    split
    · exact ⟨rfl, .refl_exit st _ _⟩
    · split
      · rfl
      · cases be.value i pc g.registers with
        | some v => exact rfl
        | none => trivial

/-! ### Where a block ends -/

/-- The block at `start`, entered with the guest `g₀`, leaves at its `n`-th instruction, to which
it comes with the guest `g`. -/
def EndsAt (be : BackEnd) (st : Setting) (m : Memory) (n : Nat) (start : Word) (g₀ g : Guest) : Prop :=
  Precedes be st m n start g₀ g ∧ ∀ i g', codeAt m (start + BitVec.ofNat 64 (4 * n)) = some i →
    effect be st (start + BitVec.ofNat 64 (4 * n)) i g ≠ .next g'

/-- What the last instruction does, or the fetch that fails. -/
def lastEffect (be : BackEnd) (st : Setting) (m : Memory) (pc : Word) (g : Guest) : Outcome :=
  match codeAt m pc with
  | none => .depart (.exit .instructionFetchFault pc) g
  | some i => effect be st pc i g

variable {m : Memory}

variable (be g) in
/-- A block leaves at one of its instructions, or behind them when the fetch fails. -/
theorem blockEffect_ends (running : st.singleStep = false) {fuel k : Nat} (enough : k < fuel)
    (absent : codeAt m (pc + BitVec.ofNat 64 (4 * k)) = none) :
    ∃ n g₁, EndsAt be st m n pc g g₁ ∧
      blockEffect be st m fuel pc g = lastEffect be st m (pc + BitVec.ofNat 64 (4 * n)) g₁ := by
  induction fuel generalizing pc g k with
  | zero => exact absurd enough (Nat.not_lt_zero k)
  | succ fuel ih =>
    have here : pc + BitVec.ofNat 64 (4 * 0) = pc := by rw [Nat.mul_zero, BitVec.add_zero]
    cases fetched : codeAt m pc with
    | none =>
      refine ⟨0, g, ⟨rfl, fun i g' found => ?_⟩, ?_⟩
      · rw [here, fetched] at found
        cases found
      · rw [here]
        simp only [blockEffect, lastEffect, fetched]
    | some i =>
      cases outcome : effect be st pc i g with
      -- the instruction goes on, so the block ends one instruction earlier from behind it
      | next g' =>
        obtain ⟨k, rfl⟩ : ∃ k', k = k' + 1 := Nat.exists_eq_succ_of_ne_zero (by
          rintro rfl
          rw [here, fetched] at absent
          cases absent)
        rw [← add_four] at absent
        obtain ⟨n, g₁, ⟨precedes, leaves⟩, same⟩ := ih g' (by omega) absent
        rw [add_four] at leaves same
        refine ⟨n + 1, g₁, ⟨⟨i, g', fetched, outcome, precedes⟩, leaves⟩, ?_⟩
        rw [← same]
        simp only [blockEffect, fetched, outcome, running, Bool.false_eq_true, if_false]
      -- it does not: this is where the block ends
      | depart | fault =>
        refine ⟨0, g, ⟨rfl, fun i' g' found next => ?_⟩, ?_⟩
        · rw [here] at found next
          cases fetched.symm.trans found
          cases outcome.symm.trans next
        · rw [here]
          simp only [blockEffect, lastEffect, fetched, outcome]

/-- The block of a single instruction. -/
theorem blockEffect_single (stepping : st.singleStep = true) (fuel : Nat) :
    blockEffect be st m (fuel + 1) pc g = match lastEffect be st m pc g with
      | .next g' => .depart (.exit .singleStep (pc + 4)) g'
      | other => other := by
  unfold blockEffect lastEffect
  cases codeAt m pc with
  | none => rfl
  | some i =>
    dsimp only
    cases effect be st pc i g <;> simp only [stepping, if_true]

/-- A guest is served behind an instruction as in front of it. -/
theorem serves_next {env : Env} {size : Word} (serves : env.Serves st size g)
    (next : effect be st pc i g = .next g') : env.Serves st size g' := by
  -- only loads, stores and computations change the guest and go on
  rcases instruction_family i.type with kind | kind | kind | ⟨reason, kind⟩ | kind | kind | kind | kind
  · rw [effect_load be st pc g kind] at next
    split at next
    · cases next
      exact serves
    · split at next <;> cases next
      exact serves.setRegister _ _
  · rw [effect_store be st pc g kind] at next
    split at next <;> cases next
    exact serves.storeBytes _ _ _
  · rw [effect_branch be st pc g kind] at next
    split at next
    · obtain ⟨d, departs⟩ := st.staticBranch_departs pc (pc + i.imm) g
      cases departs.symm.trans next
    · cases next
      exact serves
  · rw [effect_exit be st pc g kind] at next
    cases next
  · simp only [effect, kind] at next
    obtain ⟨d, departs⟩ := st.staticBranch_departs pc (pc + i.imm) (g.setRegister i.rd (pc + 4))
    cases departs.symm.trans next
  · simp only [effect, kind] at next
    obtain ⟨d, departs⟩ := st.dynamicBranch_departs (g.registers.get i.rs1 + i.imm)
      (g.setRegister i.rd (pc + 4))
    cases departs.symm.trans next
  · simp only [effect, kind] at next
    cases next
    exact serves
  · rw [effect_computation be st pc g kind] at next
    split at next
    · cases next
    · split at next
      · cases next
        exact serves
      · cases value : be.value i pc g.registers <;> rw [value] at next <;> cases next
        exact serves.setRegister _ _

end Stepping

/-! ### One instruction at a time -/

section Host

variable (host : Host) (st : Setting) (memory : Memory) (env : Env)

/-- Entered with the guest `g`, the block of the single instruction at `pc` leaves as said. -/
structure StepLeaves (pc : Word) (g : Guest) (d : Departure) (g' : Guest) : Prop where
  entered : ∃ code s, Entered host st.stepping memory pc code env s ∧ host.arch.guest s = g
  leaves : ∀ code s, Entered host st.stepping memory pc code env s → host.arch.guest s = g →
    host.arch.LeavesWith env code s g' d

/-- The blocks of the single instructions at `pc` and behind it, entered one after the other, `n`
of them, each leave for the next, and make `g'` of the guest `g`. -/
def StepsThrough : Nat → Word → Guest → Guest → Prop
  | 0, _, g, g' => g' = g
  | n + 1, pc, g, g' => ∃ g₁, StepLeaves host st memory env pc g (.exit .singleStep (pc + 4)) g₁ ∧
      StepsThrough n (pc + 4) g₁ g'

end Host

section Transparency

variable {platform : Aarch64.Platform} {codeSize : List (LinearCode.Item Aarch64.Instr) → Nat}
  {codeSize_pos : ∀ code, 0 < codeSize code} {st : Setting} {memory : Memory} {env : Env}
  {pc : Word} {g g' : Guest}

theorem stepLeaves {d : Departure} (serves : env.Serves st memory.size g)
    (outcome : blockEffect Aarch64.a64BackEnd st.stepping memory (blockFuel memory) pc g = .depart d g') :
    StepLeaves (.aarch64 platform codeSize codeSize_pos) st memory env pc g d g' where
  entered := by
    obtain ⟨code, generated⟩ := Aarch64.run_generateCode
      ⟨platform, memory, st.flags, st.maxBlockCount, true, pc, pc⟩ (blockFuel memory)
      (exists_unfetchable memory pc)
    have served : env.Serves st.stepping memory.size g := { serves with }
    obtain ⟨anchored, same⟩ := (Host.aarch64 platform codeSize codeSize_pos).refines.enter
      (fun _ => (0 : Word)) served
    exact ⟨code, _, ⟨generated, serves.blocks, anchored⟩, same⟩
  leaves code s entered same := by
    subst same
    exact entered.leaves outcome

/-- The indirect jumps the block at `pc` comes to, entered with the guest `g`, have even
targets. -/
def EvenJumps (be : BackEnd) (st : Setting) (m : Memory) (pc : Word) (g : Guest) : Prop :=
  ∀ n i g', Arrives be st m pc g (pc + BitVec.ofNat 64 (4 * n)) i g' n → i.type = .jalr →
    (g'.registers.get i.rs1 + i.imm) &&& 1 = 0

theorem EvenJumps.next {be : BackEnd} {i : Instruction} (even : EvenJumps be st memory pc g)
    (running : st.singleStep = false) (fetched : codeAt memory pc = some i)
    (next : effect be st pc i g = .next g') : EvenJumps be st memory (pc + 4) g' := by
  intro n i' g₁ arrives jalr
  obtain ⟨precedes, -, -, fetched'⟩ := arrives
  refine even (n + 1) i' g₁ ⟨⟨i, g', fetched, next, precedes⟩, fun stepping => ?_, rfl, ?_⟩ jalr
  · cases running.symm.trans stepping
  · rwa [← add_four]

theorem EvenJumps.first {be : BackEnd} {i : Instruction} (even : EvenJumps be st memory pc g)
    (fetched : codeAt memory pc = some i) :
    i.type = .jalr → (g.registers.get i.rs1 + i.imm) &&& 1 = 0 := by
  have here : pc + BitVec.ofNat 64 (4 * 0) = pc := by rw [Nat.mul_zero, BitVec.add_zero]
  exact even 0 i g ⟨rfl, fun _ => rfl, rfl, by rwa [here]⟩

variable (platform codeSize codeSize_pos) in
/-- The instructions in front of the one the block leaves at are stepped through. -/
theorem stepsThrough {n : Nat} (running : st.singleStep = false)
    (serves : env.Serves st memory.size g) (even : EvenJumps Aarch64.a64BackEnd st memory pc g)
    (precedes : Precedes Aarch64.a64BackEnd st memory n pc g g') :
    StepsThrough (.aarch64 platform codeSize codeSize_pos) st memory env n pc g g' ∧
      env.Serves st memory.size g' ∧
      EvenJumps Aarch64.a64BackEnd st memory (pc + BitVec.ofNat 64 (4 * n)) g' := by
  induction n generalizing pc g with
  | zero =>
    cases precedes
    refine ⟨rfl, serves, ?_⟩
    rwa [Nat.mul_zero, BitVec.add_zero]
  | succ n ih =>
    obtain ⟨i, g₁, fetched, next, rest⟩ := precedes
    -- an instruction that goes on does the same in both modes
    have stepped : lastEffect Aarch64.a64BackEnd st.stepping memory pc g = .next g₁ := by
      have same := effect_stepping Aarch64.a64BackEnd st pc (even.first fetched)
      unfold lastEffect
      rw [next] at same
      cases outcome : effect Aarch64.a64BackEnd st.stepping pc i g with
      | next g₂ =>
        rw [outcome] at same
        cases same
        simp only [fetched, outcome]
      | depart | fault =>
        rw [outcome] at same
        exact same.elim
    have leaves : StepLeaves (.aarch64 platform codeSize codeSize_pos) st memory env pc g
        (.exit .singleStep (pc + 4)) g₁ := by
      refine stepLeaves serves ?_
      rw [show blockFuel memory = memory.size.toNat / 4 + 1 + 1 from rfl, blockEffect_single rfl, stepped]
    obtain ⟨steps, served, even'⟩ := ih (serves_next serves next) (even.next running fetched next) rest
    rw [add_four] at even'
    exact ⟨⟨g₁, leaves, steps⟩, served, even'⟩

/-- AArch64 code faults nowhere. -/
theorem effect_ne_fault (st : Setting) (pc : Word) (i : Instruction) (g : Guest) :
    effect Aarch64.a64BackEnd st pc i g ≠ .fault := fun faults => by
  -- the host's division does not fault, and nothing else could
  rcases instruction_family i.type with kind | kind | kind | ⟨reason, kind⟩ | kind | kind | kind | kind
  · rw [effect_load _ st pc g kind] at faults
    split at faults
    · cases faults
    · split at faults <;> cases faults
  · rw [effect_store _ st pc g kind] at faults
    split at faults <;> cases faults
  · rw [effect_branch _ st pc g kind] at faults
    split at faults
    · obtain ⟨d, departs⟩ := st.staticBranch_departs pc (pc + i.imm) g
      cases departs.symm.trans faults
    · cases faults
  · rw [effect_exit _ st pc g kind] at faults
    cases faults
  · simp only [effect, kind] at faults
    obtain ⟨d, departs⟩ := st.staticBranch_departs pc (pc + i.imm) (g.setRegister i.rd (pc + 4))
    cases departs.symm.trans faults
  · simp only [effect, kind] at faults
    obtain ⟨d, departs⟩ := st.dynamicBranch_departs (g.registers.get i.rs1 + i.imm)
      (g.setRegister i.rd (pc + 4))
    cases departs.symm.trans faults
  · simp only [effect, kind] at faults
    cases faults
  · rw [effect_computation _ st pc g kind] at faults
    split at faults
    · cases faults
    · split at faults <;> cases faults

/-- The instruction a block leaves at does so in both builds. -/
theorem lastEffect_departs {n : Nat} {g₀ : Guest} {start : Word}
    (ends : EndsAt Aarch64.a64BackEnd st memory n start g₀ g)
    (even : EvenJumps Aarch64.a64BackEnd st memory (start + BitVec.ofNat 64 (4 * n)) g) : ∃ d d' g',
      lastEffect Aarch64.a64BackEnd st memory (start + BitVec.ofNat 64 (4 * n)) g = .depart d g' ∧
      lastEffect Aarch64.a64BackEnd st.stepping memory (start + BitVec.ofNat 64 (4 * n)) g
        = .depart d' g' ∧ SamePlace st d d' := by
  unfold lastEffect
  cases fetched : codeAt memory (start + BitVec.ofNat 64 (4 * n)) with
  | none => exact ⟨_, _, g, rfl, rfl, .refl_exit st _ _⟩
  | some i =>
    have same := effect_stepping Aarch64.a64BackEnd st (start + BitVec.ofNat 64 (4 * n))
      (even.first fetched)
    dsimp only
    -- the block ends here, so the effect is to depart, and it is one in both builds
    cases outcome : effect Aarch64.a64BackEnd st (start + BitVec.ofNat 64 (4 * n)) i g with
    | next g' => exact absurd outcome (ends.2 i g' fetched)
    | fault => exact absurd outcome (effect_ne_fault st _ i g)
    | depart d g' =>
      rw [outcome] at same
      cases stepped : effect Aarch64.a64BackEnd st.stepping (start + BitVec.ofNat 64 (4 * n)) i g with
      | next | fault =>
        rw [stepped] at same
        exact same.elim
      | depart d' g'' =>
        rw [stepped] at same
        obtain ⟨rfl, place⟩ := same
        exact ⟨d, d', _, rfl, rfl, place⟩

/-- The code of a block leaves the guest as the blocks of its instructions do, one after the
other, whatever registers they use: with the same registers and memory, and for the same pc. -/
theorem registerCache_transparent {start : Word} {s : Aarch64.State}
    {code : List (LinearCode.Item Aarch64.Instr)} (running : st.singleStep = false)
    (entered : Entered (.aarch64 platform codeSize codeSize_pos) st memory start code env s)
    (even : EvenJumps Aarch64.a64BackEnd st memory start s.guest) :
    ∃ n g d d' g', EndsAt Aarch64.a64BackEnd st memory n start s.guest g ∧
      (Host.aarch64 platform codeSize codeSize_pos).arch.LeavesWith env code s g' d ∧
      StepsThrough (.aarch64 platform codeSize codeSize_pos) st memory env n start s.guest g ∧
      StepLeaves (.aarch64 platform codeSize codeSize_pos) st memory env
        (start + BitVec.ofNat 64 (4 * n)) g d' g' ∧
      SamePlace st d d' := by
  obtain ⟨k, enough, absent⟩ := exists_unfetchable memory start
  -- the effect of the block ends after `n` instructions and the last one
  obtain ⟨n, g, ends, outcome⟩ := blockEffect_ends Aarch64.a64BackEnd s.guest running enough absent
  obtain ⟨steps, served, even'⟩ := stepsThrough platform codeSize codeSize_pos running
    entered.anchored.serves even ends.1
  -- that one leaves in both, and only the way it leaves may differ
  obtain ⟨d, d', g', last, stepped, place⟩ := lastEffect_departs ends even'
  refine ⟨n, g, d, d', g', ends, entered.leaves (outcome.trans last), steps,
    stepLeaves served ?_, place⟩
  rw [show blockFuel memory = memory.size.toNat / 4 + 1 + 1 from rfl, blockEffect_single rfl, stepped]

end Transparency

/-! ### Two instructions that share a register -/

namespace SharedRegister

/-- `addi x5, x0, 7` in front of `add x6, x5, x5`, with nothing behind them. -/
def memory : Memory := Memory.ofImage 16 Overwrite.size_lt [0x93, 0x02, 0x70, 0x00, 0x33, 0x83, 0x52, 0x00]
  MemoryFlags.execute

def guest : Guest := ⟨⟨fun _ => 0⟩, memory⟩

def loaded : Guest := guest.setRegister 5 7

/-- The second instruction finds `x5` in the cache. -/
def doubled : Guest := loaded.setRegister 6 14

variable {st : Setting} {n : Nat} {g : Guest}

theorem effect_addi : effect Aarch64.a64BackEnd st 0 (.ofWord 0x00700293) guest = .next loaded := rfl

theorem effect_add : effect Aarch64.a64BackEnd st (0 + 4) (.ofWord 0x00528333) loaded = .next doubled := rfl

/-- The block ends behind both of them. -/
theorem ends_doubled (ends : EndsAt Aarch64.a64BackEnd st memory n 0 guest g) : n = 2 ∧ g = doubled := by
  have first : codeAt memory 0 = some (.ofWord 0x00700293) := by decide
  have second : codeAt memory (0 + 4) = some (.ofWord 0x00528333) := by decide
  have absent : codeAt memory (0 + 4 + 4) = none := by decide
  obtain ⟨precedes, last⟩ := ends
  -- not at the first instruction, nor at the second one, and no further than behind them
  cases n with
  | zero =>
    cases precedes
    exact absurd effect_addi (last _ _ first)
  | succ n =>
    obtain ⟨i, g₁, fetched, next, precedes⟩ := precedes
    cases first.symm.trans fetched
    cases effect_addi.symm.trans next
    cases n with
    | zero =>
      cases precedes
      exact absurd effect_add (last _ _ second)
    | succ n =>
      obtain ⟨i', g₂, fetched', next', precedes⟩ := precedes
      cases second.symm.trans fetched'
      cases effect_add.symm.trans next'
      cases n with
      | zero => exact ⟨rfl, precedes⟩
      | succ n =>
        obtain ⟨_, _, fetched'', -⟩ := precedes
        cases absent.symm.trans fetched''

end SharedRegister

/-- `x5` is loaded by neither of them, and stored behind both. -/
theorem registerCache_transparent_add : ∃ (platform : Aarch64.Platform)
    (codeSize : List (LinearCode.Item Aarch64.Instr) → Nat) (codeSize_pos : ∀ code, 0 < codeSize code)
    (st : Setting) (env : Env) (code : List (LinearCode.Item Aarch64.Instr)) (s : Aarch64.State) (d d' : Departure)
    (g' : Guest), s.guest = SharedRegister.guest ∧
      (Host.aarch64 platform codeSize codeSize_pos).arch.LeavesWith env code s g' d ∧
      StepsThrough (.aarch64 platform codeSize codeSize_pos) st SharedRegister.memory env 2 0
        SharedRegister.guest SharedRegister.doubled ∧
      StepLeaves (.aarch64 platform codeSize codeSize_pos) st SharedRegister.memory env
        (0 + BitVec.ofNat 64 (4 * 2)) SharedRegister.doubled d' g' ∧
      SamePlace st d d' := by
  let host : Host := .aarch64 Aarch64.Platform.plain (fun _ => 1) fun _ => by decide
  let st : Setting := ⟨{}, 4, false, fun _ => 0⟩
  obtain ⟨code, generated⟩ : ∃ code, host.arch.generateBlockCode {} 4 SharedRegister.memory false 0 = .ok code :=
    Aarch64.arch_generates _ _ _ {} 4 SharedRegister.memory false 0
  obtain ⟨s, entered, same⟩ := entered_placed host st generated (fun _ => (0 : Word)) SharedRegister.guest rfl
    rfl (by decide) (by decide)
  -- no jump has an odd target, since there is none
  have straight : ∀ pc < 16, ∀ i ∈ codeAt SharedRegister.memory (BitVec.ofNat 64 pc), i.type ≠ .jalr := by decide
  obtain ⟨n, g, d, d', g', ends, leaves, steps, last, place⟩ := registerCache_transparent rfl entered (by
    intro n i g arrives jalr
    by_cases behind : 16 ≤ (0 + BitVec.ofNat 64 (4 * n)).toNat
    · have absent : codeAt SharedRegister.memory (0 + BitVec.ofNat 64 (4 * n)) = none := codeAt_behind behind
      cases absent.symm.trans arrives.fetched
    · refine absurd jalr (straight _ (Nat.lt_of_not_le behind) i ?_)
      rw [BitVec.ofNat_toNat, BitVec.setWidth_eq]
      exact arrives.fetched)
  have same : s.guest = SharedRegister.guest := same
  rw [same] at ends steps
  obtain ⟨rfl, rfl⟩ := SharedRegister.ends_doubled ends
  exact ⟨_, _, _, st, _, code, s, d, d', g', same, leaves, steps, last, place⟩

end Riscv64Emulator.Jit
