import Riscv64Emulator.Jit.BackEnds
import Riscv64Emulator.Jit.X64.Flow
import Riscv64Emulator.Jit.Aarch64.Flow

/-!
# The code of a block

For either back end: the loop over the guest instructions ends, it compiles the stretch of
instructions at its pc and nothing else, and the code it leaves behind is closed. So the runs of
the executors, which pass over the code once, are those of a processor that holds the whole code.
-/
namespace Riscv64Emulator.Jit

open LinearCode

/-- Closed code of a host: the jumps go to labels that are bound once, and a machine that runs
the code is inside it until it leaves. -/
structure Sealed {ι σ ε : Type} (control : ι → Control) (step : Env → ι → σ → Effect σ ε)
    (code : List (Item ι)) : Prop where
  closed : Closed control code
  inside : ∀ env s j s', Reaches (step env) code (.at 0 s) (.at j s') → j < code.length

/-- `generate_block` comes to its end behind the stretch of guest instructions at its pc, in
whatever state it starts, and what `generate_code` makes of it is closed. -/
theorem generateCode_closed :
    (∀ g : X64.CodeGenerator,
      (∃ is e, Stretch g.memory (Terminates X64.CompilesToUnsupported) g.singleStep g.currentPc is e ∧
        ∀ fuel ≥ blockFuel g.memory, ∀ n, (g.generateBlock fuel).run n = (g.generateStretch is e).run n) ∧
      ∀ fuel code, g.generateCode fuel = .ok code → Sealed X64.control X64.step code) ∧
    ∀ g : Aarch64.CodeGenerator,
      (∃ is e, Stretch g.memory (Terminates Aarch64.CompilesToUnsupported) g.singleStep g.currentPc is e ∧
        ∀ fuel ≥ blockFuel g.memory, ∀ c, (g.generateBlock fuel).run c = (g.generateStretch is e).run c) ∧
      ∀ fuel code, g.generateCode fuel = .ok code → Sealed Aarch64.control Aarch64.step code := by
  constructor
  · intro g
    obtain ⟨is, e, stretch, short⟩ := exists_stretch g.memory (Terminates X64.CompilesToUnsupported)
      g.singleStep g.currentPc
    -- the stretch exists for the guest's sake alone; the generator is compared with it afterwards
    refine ⟨⟨is, e, stretch, fun fuel enough n => ?_⟩, fun fuel code compiled => ?_⟩
    · exact X64.CodeGenerator.run_generateBlock_stretch g stretch (Nat.lt_of_lt_of_le short enough) n
    · have closed := X64.CodeGenerator.closed_generateCode g compiled
      exact ⟨closed, fun env _ _ _ reaches => closed.inside (X64.classifies_step env) reaches⟩
  · intro g
    obtain ⟨is, e, stretch, short⟩ := exists_stretch g.memory (Terminates Aarch64.CompilesToUnsupported)
      g.singleStep g.currentPc
    refine ⟨⟨is, e, stretch, fun fuel enough c => ?_⟩, fun fuel code compiled => ?_⟩
    · exact Aarch64.CodeGenerator.run_generateBlock_stretch g stretch (Nat.lt_of_lt_of_le short enough) c
    · have closed := Aarch64.closed_generateCode g compiled
      exact ⟨closed, fun env _ _ _ reaches => closed.inside (Aarch64.classifies_step env) reaches⟩

/-- What an executor reads off the run of a block is where a processor comes to. -/
theorem runCode_lands :
    (∀ (g : X64.CodeGenerator) fuel code, g.generateCode fuel = .ok code → ∀ env s target s',
      X64.runCode env code s = some (target, s') → Lands (X64.step env) X64.Exit.target code s target s') ∧
    ∀ (g : Aarch64.CodeGenerator) fuel code, g.generateCode fuel = .ok code → ∀ env s target s',
      Aarch64.runCode env code s = some (target, s') →
        Lands (Aarch64.step env) Aarch64.Exit.target code s target s' :=
  ⟨fun g _ _ compiled env _ _ _ =>
      (X64.CodeGenerator.closed_generateCode g compiled).lands (X64.classifies_step env),
    fun g _ _ compiled env _ _ _ =>
      (Aarch64.closed_generateCode g compiled).lands (Aarch64.classifies_step env)⟩

end Riscv64Emulator.Jit
