import Riscv64Emulator.Jit.Aarch64.Control

/-!
# Entering a block on AArch64

The state the trampoline calls generated code with, and the state behind the first
instruction of a block, which loads the base pc. With an empty cache the register table
alone is the guest.
-/
namespace Riscv64Emulator.Jit.Aarch64

open LinearCode WriteBack RegisterCache

/-- What the trampoline calls generated code with. The other registers hold leftovers of
the caller, which are no guest data. -/
def enter (env : Env) (guest : Guest) (leftover : A64R → Word) : State where
  regs
    | 0 => env.layout.registerState
    | 1 => env.layout.memoryBase
    | 2 => env.layout.memoryBase + BitVec.ofNat 64 guest.memory.permissionsOffset
    | 3 => guest.memory.size
    | 4 => env.layout.blockBase
    | 5 => BitVec.ofNat 64 env.maxBlocks * 4
    | 6 => env.layout.codeBase
    | q => leftover q
  foreign _ := true
  flags := none
  guest := guest

theorem anchored_enter {st : Setting} {size : Word} {env : Env} {guest : Guest}
    (serves : env.Serves st size guest) (leftover : A64R → Word) :
    Anchored st size env (enter env guest leftover) where
  serves := serves
  registerState := rfl
  memoryBase := rfl
  permissionsBase := by rw [← serves.size]; rfl
  memorySize := serves.size
  blockBase := rfl
  maxExecutablePc := by
    have limit : BitVec.ofNat 64 env.maxBlocks = st.maxBlockCount := by
      rw [serves.maxBlocks, BitVec.ofNat_toNat, BitVec.setWidth_eq]
    rw [← limit]
    rfl
  codeBase := rfl

/-- The setting of the code a generator emits, with the block table it will run against. -/
def CodeGenerator.setting (g : CodeGenerator) (env : Env) : Setting :=
  ⟨g.flags, g.maxBlockCount, g.singleStep, env.blockToOffset⟩

/-- The block a generator emits code of. -/
def CodeGenerator.block (g : CodeGenerator) (env : Env) : Block :=
  ⟨g.platform, g.setting env, g.memory.size, g.basePc⟩

theorem CodeGenerator.uses_block (g : CodeGenerator) (env : Env) : g.Uses (g.block env) :=
  ⟨rfl, rfl, rfl, rfl, rfl, rfl⟩

/-- What is emitted does not depend on the block table, so any will do. -/
theorem CodeGenerator.exists_block (g : CodeGenerator) : ∃ b, g.Uses b :=
  ⟨⟨g.platform, ⟨g.flags, g.maxBlockCount, g.singleStep, fun _ => 0⟩, g.memory.size, g.basePc⟩,
    rfl, rfl, rfl, rfl, rfl, rfl⟩

/-- The first instruction of a block. -/
theorem Anchored.based {b : Block} {env : Env} {s : State} (anchored : Anchored b.setting b.size env s) :
    b.Ready env (s.setReg RA.basePc b.basePc false) where
  anchored := by
    have disturbs : Disturbs [RA.basePc] s (s.setReg RA.basePc b.basePc false) :=
      .setReg List.mem_cons_self s _ _
    have base : ∀ q, q ≠ RA.basePc → (s.setReg RA.basePc b.basePc false).regs q = s.regs q :=
      fun q other => (disturbs.2 q (by simpa using other)).1
    exact {
      serves := by
        rw [disturbs.1]
        exact anchored.serves
      registerState := (base _ (by decide)).trans anchored.registerState
      memoryBase := (base _ (by decide)).trans anchored.memoryBase
      permissionsBase := (base _ (by decide)).trans anchored.permissionsBase
      memorySize := (base _ (by decide)).trans anchored.memorySize
      blockBase := (base _ (by decide)).trans anchored.blockBase
      maxExecutablePc := (base _ (by decide)).trans anchored.maxExecutablePc
      codeBase := (base _ (by decide)).trans anchored.codeBase }
  based := by
    have real : RA.basePc ≠ A64R.xzr := by decide
    exact ⟨by rw [State.regs_setReg s real, if_pos rfl], by rw [State.foreign_setReg s real, if_pos rfl]⟩

/-- With an empty cache the guest is the one in the register table. -/
theorem Block.Ready.mirrors {b : Block} {env : Env} {s : State} (ready : b.Ready env s) :
    Mirrors b {} settled (env, s.guest) s where
  ready := ready
  memory := rfl
  registers := {
    held := fun id r here => by
      have none : ({} : RegisterCache).directory.key id = none := rfl
      rw [none] at here
      cases here
    kept := fun _ _ => rfl }

/-- Every guest of moderate size can be placed and its code entered. -/
theorem exists_mirrors (g : CodeGenerator) (guest : Guest) (blockToOffset : Nat → BitVec 32)
    (zero : guest.registers.get Register.zero = 0) (size : guest.memory.size = g.memory.size)
    (blocks : g.maxBlockCount.toNat ≤ 2 ^ 32) (bytes : g.memory.size.toNat ≤ 2 ^ 40) :
    ∃ env s, Mirrors (g.block env) {} settled (env, guest) s ∧ s.guest = guest ∧
      env.blockToOffset = blockToOffset := by
  let st : Setting := ⟨g.flags, g.maxBlockCount, g.singleStep, blockToOffset⟩
  have serves := Env.placed_serves st guest zero blocks (by rw [size]; exact bytes)
  rw [size] at serves
  have anchored := anchored_enter serves fun _ => 0
  let b : Block := ⟨g.platform, st, g.memory.size, g.basePc⟩
  have ready : b.Ready (Env.placed st) _ := Anchored.based (b := b) anchored
  have mirrors := ready.mirrors
  rw [State.guest_setReg] at mirrors
  exact ⟨Env.placed st, _, mirrors, State.guest_setReg _ _ _ _, rfl⟩

end Riscv64Emulator.Jit.Aarch64
