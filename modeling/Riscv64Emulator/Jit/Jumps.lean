import Riscv64Emulator.Jit.BlockTable
import Riscv64Emulator.Jit.Aarch64.Results

/-!
# Jumps and branches of generated code

How the code of a block leaves it, seen at the instruction that does, and when that is
what the interpreter makes of the instruction. Indirect jumps hand bit 0 of an odd target
on, and direct jumps report a bad target at their own pc.
-/
namespace Riscv64Emulator.Jit

/-- Where a jump is meant to go: an address that is none of the table is reported, and in the
table control goes to the code of the block or back to the executor. -/
def Setting.jumpTo (st : Setting) (target : Word) : Departure :=
  if target &&& 3 ≠ 0 then .exit .unalignedPc target
  else if st.maxBlockCount.toNat ≤ target.toNat / 4 then .exit .outOfBoundsPc target
  else if st.singleStep then .exit .singleStep target
  else if st.blockToOffset (target.toNat / 4) = 0 then .exit .blockNotGenerated target
  else .enter (st.blockToOffset (target.toNat / 4))

/-- The host leaves the code with this departure and guest. -/
def Arch.LeavesWith (arch : Arch) (env : Env) (code : arch.Code) (s : arch.State) (guest : Guest) :
    Departure → Prop
  | .exit reason pc => ∃ s', arch.run env code s = some (none, s') ∧
      arch.exitReason s' = reason.code ∧ arch.exitPc s' = pc ∧ arch.guest s' = guest
  | .enter offset => ∃ s', arch.run env code s
        = some (some (env.layout.codeBase + offset.setWidth 64), s') ∧ arch.guest s' = guest

/-- The code leaves for the target, and a pc it stores is the target itself: one the executor
can compile at, when it goes on. -/
structure Arch.JumpsTo (arch : Arch) (st : Setting) (env : Env) (code : arch.Code) (s : arch.State)
    (guest : Guest) (target : Word) : Prop where
  leaves : arch.LeavesWith env code s guest (st.jumpTo target)
  stored : ∀ reason pc, st.jumpTo target = .exit reason pc → pc = target ∧
    (reason.again = true → pc &&& 3 = 0 ∧ pc.toNat / 4 < st.maxBlockCount.toNat)

theorem jumpTo_stored {st : Setting} {target pc : Word} {reason : ArchExitReason}
    (exits : st.jumpTo target = .exit reason pc) : pc = target ∧
      (reason.again = true → pc &&& 3 = 0 ∧ pc.toNat / 4 < st.maxBlockCount.toNat) := by
  unfold Setting.jumpTo at exits
  split at exits
  · -- a misaligned target is not tried again
    cases exits
    exact ⟨rfl, fun again => by cases again⟩
  · next aligned =>
    split at exits
    · -- nor one behind the table
      cases exits
      exact ⟨rfl, fun again => by cases again⟩
    · next inside =>
      have table := And.intro (Decidable.not_not.mp aligned) (Nat.lt_of_not_le inside)
      split at exits
      · cases exits
        exact ⟨rfl, fun _ => table⟩
      · split at exits <;> cases exits
        exact ⟨rfl, fun _ => table⟩

theorem jumpsTo_iff {arch : Arch} {st : Setting} {env : Env} {code : arch.Code} {s : arch.State}
    {guest : Guest} {target : Word} : arch.JumpsTo st env code s guest target ↔
      arch.LeavesWith env code s guest (st.jumpTo target) :=
  ⟨fun jumps => jumps.leaves, fun leaves => ⟨leaves, fun _ _ => jumpTo_stored⟩⟩

/-- Code leaves in one way only. -/
theorem Arch.LeavesWith.unique {arch : Arch} {env : Env} {code : arch.Code} {s : arch.State}
    {guest guest' : Guest} {d d' : Departure} (leaves : arch.LeavesWith env code s guest d)
    (leaves' : arch.LeavesWith env code s guest' d') : d = d' ∧ guest = guest' := by
  cases d with
  | exit reason pc =>
    obtain ⟨s₁, ran, code, rfl, rfl⟩ := leaves
    cases d' with
    | exit reason' pc' =>
      obtain ⟨s₂, ran', code', rfl, rfl⟩ := leaves'
      cases ran.symm.trans ran'
      cases ArchExitReason.code_injective (code.symm.trans code')
      exact ⟨rfl, rfl⟩
    | enter offset =>
      obtain ⟨s₂, ran', -⟩ := leaves'
      cases ran.symm.trans ran'
  | enter offset =>
    obtain ⟨s₁, ran, rfl⟩ := leaves
    cases d' with
    | exit reason' pc' =>
      obtain ⟨s₂, ran', -⟩ := leaves'
      cases ran.symm.trans ran'
    | enter offset' =>
      obtain ⟨s₂, ran', rfl⟩ := leaves'
      -- two jumps to one address have one offset
      have both := ran.symm.trans ran'
      simp only [Option.some.injEq, Prod.mk.injEq] at both
      obtain ⟨address, rfl⟩ := both
      exact ⟨by rw [offset_injective address], rfl⟩

/-! ### Arriving at an instruction -/

/-- The code of the block at `start` is entered in the host state `s`. -/
structure Entered (host : Host) (st : Setting) (memory : Memory) (start : Word)
    (code : host.arch.Code) (env : Env) (s : host.arch.State) : Prop where
  generated : host.arch.generateBlockCode st.flags st.maxBlockCount memory st.singleStep start = .ok code
  blocks : env.blockToOffset = st.blockToOffset
  anchored : host.refines.anchored st memory.size env s

/-- The block at `start`, entered with the guest `g₀`, comes to its instruction `i` at `pc` with
the guest `g`. In a build that steps through blocks it has one instruction. -/
structure Arrives (be : BackEnd) (st : Setting) (m : Memory) (start : Word) (g₀ : Guest) (pc : Word)
    (i : Instruction) (g : Guest) (n : Nat) : Prop where
  precedes : Precedes be st m n start g₀ g
  stepping : st.singleStep = true → n = 0
  place : pc = start + BitVec.ofNat 64 (4 * n)
  fetched : codeAt m pc = some i

section Arrival

variable {be : BackEnd} {st : Setting} {m : Memory} {start pc : Word} {g₀ g : Guest} {i : Instruction}
  {n : Nat}

/-- What a block does from one of its instructions on. -/
def restEffect (be : BackEnd) (st : Setting) (m : Memory) (fuel : Nat) (pc : Word) (i : Instruction)
    (g : Guest) : Outcome :=
  match effect be st pc i g with
  | .next g' =>
    if st.singleStep then .depart (.exit .singleStep (pc + 4)) g'
    else blockEffect be st m fuel (pc + 4) g'
  | other => other

theorem blockEffect_of_precedes {fuel : Nat} (precedes : Precedes be st m n start g₀ g)
    (stepping : st.singleStep = true → n = 0)
    (fetched : codeAt m (start + BitVec.ofNat 64 (4 * n)) = some i) :
    blockEffect be st m (n + (fuel + 1)) start g₀
      = restEffect be st m fuel (start + BitVec.ofNat 64 (4 * n)) i g := by
  induction n generalizing start g₀ with
  | zero =>
    cases precedes
    rw [Nat.mul_zero, BitVec.add_zero] at fetched ⊢
    rw [Nat.zero_add]
    simp only [blockEffect, fetched]
    rfl
  | succ n ih =>
    obtain ⟨i', g₁, here, next, rest⟩ := precedes
    have running : st.singleStep = false := by
      cases single : st.singleStep with
      | false => rfl
      | true => cases stepping single
    rw [← add_four] at fetched ⊢
    have step (k : Nat) : blockEffect be st m (k + 1) start g₀ = blockEffect be st m k (start + 4) g₁ := by
      simp only [blockEffect, here, next, running, Bool.false_eq_true, if_false]
    -- a single-step block has nothing in front of `i`, so here the block runs on
    rw [show n + 1 + (fuel + 1) = n + (fuel + 1) + 1 by omega, step]
    exact ih rest (fun single => by cases running.symm.trans single) fetched

/-- Every instruction in front of the one arrived at can be fetched. -/
theorem fetchable_of_precedes (precedes : Precedes be st m n start g₀ g)
    (fetched : codeAt m (start + BitVec.ofNat 64 (4 * n)) = some i) (k : Nat) (before : k ≤ n) :
    codeAt m (start + BitVec.ofNat 64 (4 * k)) ≠ none := by
  induction n generalizing start g₀ k with
  | zero =>
    rw [Nat.le_zero.mp before, fetched]
    exact Option.some_ne_none i
  | succ n ih =>
    obtain ⟨i', g₁, here, next, rest⟩ := precedes
    cases k with
    | zero =>
      rw [Nat.mul_zero, BitVec.add_zero, here]
      exact Option.some_ne_none i'
    | succ k =>
      rw [← add_four] at fetched ⊢
      exact ih rest fetched k (by omega)

/-- Fuel beyond the end of the block makes no difference. -/
theorem blockEffect_enough {k fuel fuel' : Nat}
    (absent : codeAt m (pc + BitVec.ofNat 64 (4 * k)) = none) (enough : k < fuel) (enough' : k < fuel') :
    blockEffect be st m fuel pc g = blockEffect be st m fuel' pc g := by
  -- on the distance to the word that ends the block
  induction k generalizing pc g fuel fuel' with
  | zero =>
    rw [Nat.mul_zero, BitVec.add_zero] at absent
    obtain ⟨fuel, rfl⟩ := Nat.exists_eq_add_of_lt enough
    obtain ⟨fuel', rfl⟩ := Nat.exists_eq_add_of_lt enough'
    simp only [blockEffect, absent]
  | succ k ih =>
    rw [← add_four] at absent
    obtain ⟨fuel, rfl⟩ := Nat.exists_eq_add_of_lt enough
    obtain ⟨fuel', rfl⟩ := Nat.exists_eq_add_of_lt enough'
    have rest (g' : Guest) : blockEffect be st m (k + 1 + fuel) (pc + 4) g'
        = blockEffect be st m (k + 1 + fuel') (pc + 4) g' := ih absent (by omega) (by omega)
    simp only [blockEffect, rest]

/-- The effect of the block is the one from the instruction on. -/
theorem Arrives.blockEffect_eq (arrives : Arrives be st m start g₀ pc i g n) :
    blockEffect be st m (blockFuel m) start g₀ = restEffect be st m (blockFuel m) pc i g := by
  obtain ⟨precedes, stepping, rfl, fetched⟩ := arrives
  obtain ⟨k, below, absent⟩ := exists_unfetchable m start
  -- all that precedes `i` was fetched, so the end of the block lies behind it
  have later : n < k := by
    by_contra early
    exact fetchable_of_precedes precedes fetched k (by omega) absent
  have same : blockEffect be st m (n + (blockFuel m - n - 1 + 1)) start g₀ = _ :=
    blockEffect_of_precedes precedes stepping fetched
  rw [show n + (blockFuel m - n - 1 + 1) = blockFuel m by omega] at same
  rw [same]
  -- the end of the block lies behind the instruction
  have behind : codeAt m (start + BitVec.ofNat 64 (4 * n) + 4 + BitVec.ofNat 64 (4 * (k - n - 1))) = none := by
    rw [add_four, BitVec.add_assoc, ← BitVec.ofNat_add, show 4 * n + 4 * (k - n - 1 + 1) = 4 * k by omega]
    exact absent
  unfold restEffect
  cases effect be st (start + BitVec.ofNat 64 (4 * n)) i g with
  | next g' =>
    have enough : blockEffect be st m (blockFuel m - n - 1) _ g' = blockEffect be st m (blockFuel m) _ g' :=
      blockEffect_enough behind (by omega) (by omega)
    dsimp only
    rw [enough]
  | depart | fault => rfl

end Arrival

section Leaving

variable {host : Host} {st : Setting} {memory : Memory} {start pc : Word} {code : host.arch.Code}
  {env : Env} {s : host.arch.State} {g : Guest} {i : Instruction} {n : Nat}

theorem Entered.leaves (entered : Entered host st memory start code env s) {d : Departure} {g' : Guest}
    (outcome : blockEffect host.backEnd st memory (blockFuel memory) start (host.arch.guest s)
      = .depart d g') : host.arch.LeavesWith env code s g' d := by
  have performs := host.refines.performs entered.generated entered.blocks entered.anchored
  rw [outcome] at performs
  cases d with
  | exit reason pc =>
    obtain ⟨s', ran, reason', at_pc, guest, -⟩ := performs
    exact ⟨s', ran, reason', at_pc, guest⟩
  | enter offset =>
    obtain ⟨s', ran, guest, -⟩ := performs
    exact ⟨s', ran, guest⟩

/-- An instruction that departs decides how the code leaves. -/
theorem leavesWith_iff (entered : Entered host st memory start code env s)
    (arrives : Arrives host.backEnd st memory start (host.arch.guest s) pc i g n) {d d' : Departure}
    {g' g'' : Guest} (departs : effect host.backEnd st pc i g = .depart d g') :
    host.arch.LeavesWith env code s g'' d' ↔ d' = d ∧ g'' = g' := by
  have outcome : blockEffect host.backEnd st memory (blockFuel memory) start (host.arch.guest s)
      = .depart d g' := by
    rw [arrives.blockEffect_eq, restEffect, departs]
  have leaves := entered.leaves outcome
  refine ⟨fun leaves' => leaves'.unique leaves, ?_⟩
  rintro ⟨rfl, rfl⟩
  exact leaves

end Leaving

/-! ### Indirect jumps -/

/-- The guest a jump hands over: with the link in `rd`. -/
def Guest.linked (g : Guest) (i : Instruction) (pc : Word) : Guest := g.setRegister i.rd (pc + 4)

theorem masked_div_four (t : Word) : (t &&& ~~~1).toNat / 4 = t.toNat / 4 := by
  -- the table is indexed by words: bit 0 is gone before the mask could matter
  have shifted : (t &&& ~~~1) >>> 2 = t >>> 2 := by
    apply BitVec.eq_of_getLsbD_eq
    intro i low
    simp only [BitVec.getLsbD_ushiftRight, BitVec.getLsbD_and, BitVec.getLsbD_not]
    by_cases inside : 2 + i < 64
    · simp [inside]
    · simp [BitVec.getLsbD_of_ge _ _ (Nat.le_of_not_lt inside)]
  have numbers := congrArg BitVec.toNat shifted
  simpa [BitVec.toNat_ushiftRight, Nat.shiftRight_eq_div_pow] using numbers

theorem masked_eq_self_iff (t : Word) : t &&& ~~~1 = t ↔ t &&& 1 = 0 := by
  have split : (t &&& ~~~1) ||| (t &&& 1) = t := by
    rw [← BitVec.and_or_distrib_left, show (~~~1 ||| 1 : Word) = BitVec.allOnes 64 by decide,
      BitVec.and_allOnes]
  refine ⟨fun same => ?_, fun even => ?_⟩
  · rw [← same, BitVec.and_assoc, show (~~~1 &&& 1 : Word) = 0#64 by decide]
    exact BitVec.and_zero
  · rw [even] at split
    exact BitVec.or_zero.symm.trans split

private theorem exit_masked_iff (reason : ArchExitReason) (t : Word) (g : Guest) :
    Outcome.depart (.exit reason t) g = .depart (.exit reason (t &&& ~~~1)) g ↔ t &&& 1 = 0 := by
  rw [← masked_eq_self_iff]
  simp only [Outcome.depart.injEq, Departure.exit.injEq, true_and, and_true]
  exact eq_comm

/-- The departures of an indirect jump agree with the meant ones when the target is even, or
when bit 0 does not reach an exit. -/
theorem dynamicBranch_eq_jumpTo_iff (st : Setting) (t : Word) (g : Guest) :
    st.dynamicBranch t g = .depart (st.jumpTo (t &&& ~~~1)) g ↔
      t &&& 1 = 0 ∨ (st.singleStep = false ∧ t &&& 2 = 0 ∧ t.toNat / 4 < st.maxBlockCount.toNat ∧
        st.blockToOffset (t.toNat / 4) ≠ 0) := by
  unfold Setting.dynamicBranch Setting.branchTo Setting.jumpTo
  rw [Aarch64.masked_and_three, masked_div_four]
  -- one case per test of the emitted code, in its order; an exit hands `t` itself on
  by_cases unaligned : t &&& 2 ≠ 0
  · rw [if_pos unaligned, if_pos unaligned, exit_masked_iff]
    exact ⟨.inl, fun h => h.elim id fun ⟨_, aligned, _⟩ => absurd aligned unaligned⟩
  rw [if_neg unaligned, if_neg unaligned]
  by_cases outside : st.maxBlockCount.toNat ≤ t.toNat / 4
  · rw [if_pos outside, if_pos outside, exit_masked_iff]
    exact ⟨.inl, fun h => h.elim id fun ⟨_, _, inside, _⟩ => absurd outside (Nat.not_le.mpr inside)⟩
  rw [if_neg outside, if_neg outside]
  by_cases single : st.singleStep = true
  · rw [if_pos single, if_pos single, exit_masked_iff]
    exact ⟨.inl, fun h => h.elim id fun ⟨running, _⟩ => by cases running.symm.trans single⟩
  rw [if_neg single, if_neg single]
  by_cases absent : st.blockToOffset (t.toNat / 4) = 0
  · rw [if_pos absent, if_pos absent, exit_masked_iff]
    exact ⟨.inl, fun h => h.elim id fun ⟨_, _, _, published⟩ => absurd absent published⟩
  · rw [if_neg absent, if_neg absent]
    exact ⟨fun _ => .inr ⟨by simpa using single, Decidable.not_not.mp unaligned,
      Nat.lt_of_not_le outside, absent⟩, fun _ => rfl⟩

section Indirect

variable {host : Host} {st : Setting} {memory : Memory} {start pc : Word} {code : host.arch.Code}
  {env : Env} {s : host.arch.State} {g : Guest} {i : Instruction} {n : Nat}

/-- The interpreter's view of a guest at a pc. -/
theorem successor_jalr (kind : i.type = .jalr) (exit : Exit) :
    Interpreter.successor (g.toVm pc exit) i = (g.registers.get i.rs1 + i.imm) &&& ~~~1 := by
  unfold Interpreter.successor Interpreter.accessAddress
  rw [kind]
  show (RegisterState.get (g.registers.set Register.pc pc) i.rs1 + i.imm) &&& ~~~1 = _
  rw [RegisterState.get_set_other _ _ i.rs1_ne_pc]

end Indirect

/-- The code of an indirect jump sets `rd` and goes where the interpreter goes, exactly when
its target is even or the block of the target has been published. -/
theorem indirectJump_leaves_iff (host : Host) {st : Setting} {memory : Memory} {start pc : Word}
    {code : host.arch.Code} {env : Env} {s : host.arch.State} {g : Guest} {i : Instruction} {n : Nat}
    (entered : Entered host st memory start code env s)
    (arrives : Arrives host.backEnd st memory start (host.arch.guest s) pc i g n)
    (kind : i.type = .jalr) (exit : Exit) :
    host.arch.JumpsTo st env code s (g.linked i pc) (Interpreter.successor (g.toVm pc exit) i) ↔
      let target := g.registers.get i.rs1 + i.imm
      target &&& 1 = 0 ∨ (st.singleStep = false ∧ target &&& 2 = 0 ∧
        target.toNat / 4 < st.maxBlockCount.toNat ∧ st.blockToOffset (target.toNat / 4) ≠ 0) := by
  obtain ⟨d, branch⟩ := st.dynamicBranch_departs (g.registers.get i.rs1 + i.imm) (g.linked i pc)
  have departs : effect host.backEnd st pc i g = .depart d (g.linked i pc) := by
    simp only [effect, kind]
    exact branch
  rw [jumpsTo_iff, leavesWith_iff entered arrives departs, successor_jalr kind, ← dynamicBranch_eq_jumpTo_iff st _
    (g.linked i pc), branch]
  simp only [Outcome.depart.injEq, and_true]
  exact eq_comm

/-- The trampoline enters code that was generated for the placed objects. -/
theorem entered_placed (host : Host) (st : Setting) {memory : Memory} {start : Word}
    {code : host.arch.Code} (generated : host.arch.generateBlockCode st.flags st.maxBlockCount memory
      st.singleStep start = .ok code) (leftover : host.arch.Leftover) (guest : Guest)
    (zero : guest.registers.get Register.zero = 0) (size : guest.memory.size = memory.size)
    (blocks : st.maxBlockCount.toNat ≤ 2 ^ 32) (bytes : memory.size.toNat ≤ 2 ^ 40) :
    ∃ s, Entered host st memory start code (Env.placed st) s ∧ host.arch.guest s = guest := by
  have serves : (Env.placed st).Serves st memory.size guest := by
    rw [← size]
    exact Env.placed_serves st guest zero blocks (by rwa [size])
  obtain ⟨anchored, same⟩ := host.refines.enter leftover serves
  exact ⟨_, ⟨generated, rfl, anchored⟩, same⟩

/-- `jalr x1, 8(x0)` in AArch64 code. -/
theorem indirectJump_leaves_jalr : ∃ (host : Host) (st : Setting) (env : Env) (code : host.arch.Code)
    (s : host.arch.State) (guest : Guest), host.arch.JumpsTo st env code s guest 8 := by
  let memory := Memory.ofImage 16 (by decide) [0xe7, 0x00, 0x80, 0x00] MemoryFlags.execute
  let host : Host := .aarch64 Aarch64.Platform.plain (fun _ => 1) fun _ => by decide
  let st : Setting := ⟨{}, 4, false, fun _ => 0⟩
  let guest : Guest := ⟨⟨fun _ => 0⟩, memory⟩
  obtain ⟨code, generated⟩ := Aarch64.run_generateCode ⟨Aarch64.Platform.plain, memory, {}, 4, false, 0, 0⟩
    (blockFuel memory) (exists_unfetchable memory 0)
  obtain ⟨s, entered, same⟩ := entered_placed host st generated (fun _ => (0 : Word)) guest rfl
    rfl (by decide) (by decide)
  have fetched : codeAt memory 0 = some (.ofWord 0x008000e7) := by decide
  have arrives : Arrives host.backEnd st memory 0 (host.arch.guest s) 0 (.ofWord 0x008000e7) guest 0 :=
    ⟨same.symm, fun _ => rfl, rfl, fetched⟩
  have target : Interpreter.successor (guest.toVm 0 {}) (.ofWord 0x008000e7) = 8 := by decide
  have jumps := (indirectJump_leaves_iff host entered arrives (by decide) {}).mpr (.inl (by decide))
  rw [target] at jumps
  exact ⟨host, st, _, code, s, _, jumps⟩

/-- `jalr x0, 5(x0)` hands the odd address on. -/
theorem indirectJump_leaves_odd : ¬∀ (host : Host) (st : Setting) (memory : Memory) (start pc : Word)
    (code : host.arch.Code) (env : Env) (s : host.arch.State) (g : Guest) (i : Instruction) (n : Nat),
    Entered host st memory start code env s →
    Arrives host.backEnd st memory start (host.arch.guest s) pc i g n → i.type = .jalr →
    host.arch.JumpsTo st env code s (g.linked i pc) (Interpreter.successor (g.toVm pc {}) i) := fun claim => by
  let st : Setting := ⟨{}, 2, false, fun _ => 0⟩
  obtain ⟨code, generated⟩ : ∃ code,
      OddJump.host.arch.generateBlockCode {} 2 OddJump.memory false 0 = .ok code := ⟨_, rfl⟩
  obtain ⟨s, entered, same⟩ := entered_placed OddJump.host st generated (fun _ => (0 : Word))
    (guestOf OddJump.vm) rfl rfl (by decide) (by decide)
  have fetched : codeAt OddJump.memory 0 = some (.ofWord 0x00500067) := by decide
  have arrives : Arrives OddJump.host.backEnd st OddJump.memory 0 (OddJump.host.arch.guest s) 0
      (.ofWord 0x00500067) (guestOf OddJump.vm) 0 := ⟨same.symm, fun _ => rfl, rfl, fetched⟩
  have jumps := claim _ _ _ _ _ _ _ _ _ _ _ entered arrives (by decide)
  -- the exit carries 5, the interpreter would go on at 4
  have departs : effect OddJump.host.backEnd st 0 (.ofWord 0x00500067) (guestOf OddJump.vm)
      = .depart (.exit .blockNotGenerated 5) (guestOf OddJump.vm) := rfl
  have target : st.jumpTo (Interpreter.successor ((guestOf OddJump.vm).toVm 0 {}) (.ofWord 0x00500067))
      = .exit .blockNotGenerated 4 := by decide
  have leaves := jumps.leaves
  rw [target, leavesWith_iff entered arrives departs] at leaves
  exact absurd leaves.1 (by decide)

/-! ### Direct jumps and branches -/

/-- The host leaves the code with the outcome, or faults in it. -/
def Arch.LeavesAs (arch : Arch) (env : Env) (code : arch.Code) (s : arch.State) : Outcome → Prop
  | .depart d guest => arch.LeavesWith env code s guest d
  | .fault => arch.run env code s = none
  | .next _ => False

theorem Entered.leavesAs {host : Host} {st : Setting} {memory : Memory} {start : Word}
    {code : host.arch.Code} {env : Env} {s : host.arch.State}
    (entered : Entered host st memory start code env s) : host.arch.LeavesAs env code s
      (blockEffect host.backEnd st memory (blockFuel memory) start (host.arch.guest s)) := by
  cases outcome : blockEffect host.backEnd st memory (blockFuel memory) start (host.arch.guest s) with
  | depart d g' => exact entered.leaves outcome
  | fault =>
    have performs := host.refines.performs entered.generated entered.blocks entered.anchored
    rwa [outcome] at performs
  | next g' => exact (blockEffect_ne_next _ _ _ _ _ _ _ outcome).elim

/-- The jumps to a target relative to the pc. -/
def isDirect (type : InstructionType) : Bool := type == .jal || isBranch type

/-- Whether the interpreter takes the branch. -/
def Taken (g : Guest) (i : Instruction) : Prop :=
  i.type = .jal ∨
    Interpreter.branchTaken i.type (g.registers.get i.rs1) (g.registers.get i.rs2) = .ok true

/-- The guest a taken branch hands over. -/
def Guest.handed (g : Guest) (i : Instruction) (pc : Word) : Guest :=
  if i.type = .jal then g.linked i pc else g

/-- A branch does what it does in the interpreter: the code leaves for the target with the link
set, or goes on behind the branch with nothing changed. -/
def BranchesAsInterpreted (host : Host) (st : Setting) (memory : Memory) (code : host.arch.Code)
    (env : Env) (s : host.arch.State) (pc : Word) (i : Instruction) (g : Guest) : Prop :=
  (Taken g i → host.arch.JumpsTo st env code s (g.handed i pc)
    (Interpreter.successor (g.toVm pc {}) i)) ∧
  (¬Taken g i → host.arch.LeavesAs env code s
    (if st.singleStep then .depart (.exit .singleStep (pc + 4)) g
      else blockEffect host.backEnd st memory (blockFuel memory) (pc + 4) g))

section Direct

variable {be : BackEnd} {st : Setting} {pc : Word} {g : Guest} {i : Instruction}

theorem branchTaken_eq (kind : isBranch i.type = true) (a b : Word) :
    Interpreter.branchTaken i.type a b = .ok (branchCondition i.type a b) := by
  cases type : i.type <;> first | rfl | exact absurd (type ▸ kind) (by decide)

theorem taken_iff (kind : isBranch i.type = true) :
    Taken g i ↔ branchCondition i.type (g.registers.get i.rs1) (g.registers.get i.rs2) = true := by
  unfold Taken
  rw [branchTaken_eq kind, Except.ok.injEq]
  refine ⟨fun h => h.elim (fun jal => ?_) id, .inr⟩
  rw [jal] at kind
  exact absurd kind (by decide)

theorem successor_taken (kind : isDirect i.type = true) (taken : Taken g i) (exit : Exit) :
    Interpreter.successor (g.toVm pc exit) i = pc + i.imm := by
  unfold Interpreter.successor
  rw [Guest.pc_toVm]
  by_cases jal : i.type = .jal
  · rw [jal]
  · have branch : isBranch i.type = true := by simpa [isDirect, jal] using kind
    have taken := taken.resolve_left jal
    have first : (g.toVm pc exit).cpu.get i.rs1 = g.registers.get i.rs1 :=
      RegisterState.get_set_other _ _ i.rs1_ne_pc
    have second : (g.toVm pc exit).cpu.get i.rs2 = g.registers.get i.rs2 :=
      RegisterState.get_set_other _ _ i.rs2_ne_pc
    rw [first, second]
    cases type : i.type <;> first
      | exact absurd (type ▸ branch) (by decide)
      | (rw [type] at taken; simp only [taken])

/-- The effect of a direct jump or branch. -/
theorem effect_direct (kind : isDirect i.type = true) [Decidable (Taken g i)] :
    effect be st pc i g
      = if Taken g i then st.staticBranch pc (pc + i.imm) (g.handed i pc) else .next g := by
  unfold isDirect at kind
  by_cases jal : i.type = .jal
  · have taken : Taken g i := .inl jal
    rw [if_pos taken, Guest.handed, if_pos jal]
    simp only [effect, jal]
    rfl
  · have branch : isBranch i.type = true := by simpa [jal] using kind
    rw [effect_branch be st pc g branch, Guest.handed, if_neg jal]
    simp only [taken_iff branch]

/-- The departures of a direct jump agree with the meant ones when the target is an address of
the table: for others the jump reports its own pc. -/
theorem staticBranch_eq_jumpTo_iff (st : Setting) (pc target : Word) (g : Guest) :
    st.staticBranch pc target g = .depart (st.jumpTo target) g ↔
      (target &&& 3 = 0 ∧ target.toNat / 4 < st.maxBlockCount.toNat) ∨ target = pc := by
  unfold Setting.staticBranch Setting.branchTo Setting.jumpTo
  -- an exit of the generator carries the pc of the jump, where the target is meant
  by_cases misaligned : target &&& 3 ≠ 0
  · rw [if_pos misaligned, if_pos misaligned]
    simp only [Outcome.depart.injEq, Departure.exit.injEq, true_and, and_true]
    exact ⟨fun same => .inr same.symm, fun h => h.elim (fun ⟨aligned, _⟩ => absurd aligned misaligned) Eq.symm⟩
  rw [if_neg misaligned, if_neg misaligned]
  by_cases outside : st.maxBlockCount.toNat ≤ target.toNat / 4
  · rw [if_pos outside, if_pos outside]
    simp only [Outcome.depart.injEq, Departure.exit.injEq, true_and, and_true]
    exact ⟨fun same => .inr same.symm,
      fun h => h.elim (fun ⟨_, inside⟩ => absurd outside (Nat.not_le.mpr inside)) Eq.symm⟩
  rw [if_neg outside, if_neg outside]
  have table := And.intro (Decidable.not_not.mp misaligned) (Nat.lt_of_not_le outside)
  refine ⟨fun _ => .inl table, fun _ => ?_⟩
  by_cases single : st.singleStep = true
  · rw [if_pos single, if_pos single]
  rw [if_neg single, if_neg single]
  by_cases absent : st.blockToOffset (target.toNat / 4) = 0
  · rw [if_pos absent, if_pos absent]
  · rw [if_neg absent, if_neg absent]

end Direct

/-- The code of a direct jump or branch does what the interpreter does exactly when the branch
is not taken, when its target is an address of the table, or when it is its own target. -/
theorem directJump_leaves_iff (host : Host) {st : Setting} {memory : Memory} {start pc : Word}
    {code : host.arch.Code} {env : Env} {s : host.arch.State} {g : Guest} {i : Instruction} {n : Nat}
    (entered : Entered host st memory start code env s)
    (arrives : Arrives host.backEnd st memory start (host.arch.guest s) pc i g n)
    (kind : isDirect i.type = true) :
    BranchesAsInterpreted host st memory code env s pc i g ↔
      ¬Taken g i ∨
        ((pc + i.imm) &&& 3 = 0 ∧ (pc + i.imm).toNat / 4 < st.maxBlockCount.toNat) ∨
        pc + i.imm = pc := by
  classical
  have effects : effect host.backEnd st pc i g = _ := effect_direct kind
  unfold BranchesAsInterpreted
  by_cases taken : Taken g i
  · -- a taken branch leaves as `generate_static_branch` does
    rw [if_pos taken] at effects
    obtain ⟨d, branch⟩ := st.staticBranch_departs pc (pc + i.imm) (g.handed i pc)
    rw [branch] at effects
    rw [successor_taken kind taken, jumpsTo_iff, leavesWith_iff entered arrives effects,
      ← staticBranch_eq_jumpTo_iff st pc (pc + i.imm) (g.handed i pc), branch]
    simp only [taken, not_true_eq_false, false_implies, and_true, true_implies, false_or,
      Outcome.depart.injEq]
    exact eq_comm
  · -- one that is not taken runs on, and nothing is claimed of where to
    rw [if_neg taken] at effects
    refine ⟨fun _ => .inl taken, fun _ => ⟨fun h => absurd h taken, fun _ => ?_⟩⟩
    have outcome := arrives.blockEffect_eq
    rw [restEffect, effects] at outcome
    dsimp only at outcome
    rw [← outcome]
    exact entered.leavesAs

/-- `jal x0, 8` in AArch64 code. -/
theorem directJump_leaves_jal : ∃ (host : Host) (st : Setting) (memory : Memory)
    (code : host.arch.Code) (env : Env) (s : host.arch.State) (g : Guest),
    BranchesAsInterpreted host st memory code env s 0 (.ofWord 0x0080006f) g := by
  let memory := Memory.ofImage 16 (by decide) [0x6f, 0x00, 0x80, 0x00] MemoryFlags.execute
  let host : Host := .aarch64 Aarch64.Platform.plain (fun _ => 1) fun _ => by decide
  let st : Setting := ⟨{}, 4, false, fun _ => 0⟩
  let guest : Guest := ⟨⟨fun _ => 0⟩, memory⟩
  obtain ⟨code, generated⟩ := Aarch64.run_generateCode ⟨Aarch64.Platform.plain, memory, {}, 4, false, 0, 0⟩
    (blockFuel memory) (exists_unfetchable memory 0)
  obtain ⟨s, entered, same⟩ := entered_placed host st generated (fun _ => (0 : Word)) guest rfl
    rfl (by decide) (by decide)
  have fetched : codeAt memory 0 = some (.ofWord 0x0080006f) := by decide
  have arrives : Arrives host.backEnd st memory 0 (host.arch.guest s) 0 (.ofWord 0x0080006f) guest 0 :=
    ⟨same.symm, fun _ => rfl, rfl, fetched⟩
  exact ⟨host, st, memory, code, _, s, guest,
    (directJump_leaves_iff host entered arrives (by decide)).mpr (.inr (.inl (by decide)))⟩

namespace MisalignedJump

/-- `jal x0, 2`. -/
def memory : Memory := Memory.ofImage 16 Overwrite.size_lt [0x6f, 0x00, 0x20, 0x00] MemoryFlags.execute

def guest : Guest := ⟨⟨fun _ => 0⟩, memory⟩

def st : Setting := ⟨{}, 2, false, fun _ => 0⟩

end MisalignedJump

/-- `jal x0, 2` at address 0 reports the misaligned pc at 0. -/
theorem directJump_leaves_misaligned : ¬∀ (host : Host) (st : Setting) (memory : Memory)
    (start pc : Word) (code : host.arch.Code) (env : Env) (s : host.arch.State) (g : Guest)
    (i : Instruction) (n : Nat), Entered host st memory start code env s →
    Arrives host.backEnd st memory start (host.arch.guest s) pc i g n → isDirect i.type = true →
    BranchesAsInterpreted host st memory code env s pc i g := fun claim => by
  obtain ⟨code, generated⟩ : ∃ code,
      OddJump.host.arch.generateBlockCode {} 2 MisalignedJump.memory false 0 = .ok code := ⟨_, rfl⟩
  obtain ⟨s, entered, same⟩ := entered_placed OddJump.host MisalignedJump.st generated
    (fun _ => (0 : Word)) MisalignedJump.guest rfl rfl (by decide) (by decide)
  have fetched : codeAt MisalignedJump.memory 0 = some (.ofWord 0x0020006f) := by decide
  have arrives : Arrives OddJump.host.backEnd MisalignedJump.st MisalignedJump.memory 0
      (OddJump.host.arch.guest s) 0 (.ofWord 0x0020006f) MisalignedJump.guest 0 :=
    ⟨same.symm, fun _ => rfl, rfl, fetched⟩
  have taken : Taken MisalignedJump.guest (.ofWord 0x0020006f) := .inl (by decide)
  have leaves := ((claim _ _ _ _ _ _ _ _ _ _ _ entered arrives (by decide)).1 taken).leaves
  -- the exit carries the pc of the jump, the interpreter would report 2
  have departs : effect OddJump.host.backEnd MisalignedJump.st 0 (.ofWord 0x0020006f) MisalignedJump.guest
      = .depart (.exit .unalignedPc 0) MisalignedJump.guest := rfl
  have target : MisalignedJump.st.jumpTo (Interpreter.successor (MisalignedJump.guest.toVm 0 {})
      (.ofWord 0x0020006f)) = .exit .unalignedPc 2 := by decide
  rw [target, leavesWith_iff entered arrives departs] at leaves
  exact absurd leaves.1 (by decide)

end Riscv64Emulator.Jit
