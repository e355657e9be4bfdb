import Riscv64Emulator.Jit.Executor
import Riscv64Emulator.Jit.X64.Refinement
import Riscv64Emulator.Jit.Aarch64.Refinement

/-!
# The two back ends

What `create_arch_specific_executor` chooses from. Both refine the abstract model with
their own arithmetic, so a result about runs of the executor that refers to the abstract
model only holds of both.
-/
namespace Riscv64Emulator.Jit

open LinearCode

/-! ### x64 -/

namespace X64

/-- Where control goes behind the code: back to the trampoline, or to an address. -/
def Exit.target : Exit → Option Word
  | .ret => none
  | .jump target => some target

/-- Run the code of a block. -/
def runCode (env : Env) (code : List (Item Instr)) (s : State) : Option (Option Word × State) :=
  LinearCode.runCode (step env) Exit.target code s

/-- The x64 executor; the assembler says how many bytes code takes. -/
def arch (codeSize : List (Item Instr) → Nat) (codeSize_pos : ∀ code, 0 < codeSize code) : Arch where
  State := State
  Code := List (Item Instr)
  Leftover := X64R → Word
  generateBlockCode flags maxBlockCount memory singleStep pc :=
    CodeGenerator.generateCode
      { memory := memory, flags := flags, maxBlockCount := maxBlockCount, singleStep := singleStep,
        currentPc := pc } (blockFuel memory)
  codeSize := codeSize
  codeSize_pos := codeSize_pos
  enter := enter
  run := runCode
  guest := State.guest
  exitReason s := s.regs RA.exitReason
  exitPc s := s.regs RA.exitPc

theorem arch_performs (codeSize : List (Item Instr) → Nat) (codeSize_pos : ∀ code, 0 < codeSize code)
    {st : Setting} {memory : Memory} {pc : Word} {code : List (Item Instr)} {env : Env} {s : State}
    (generated : (arch codeSize codeSize_pos).generateBlockCode st.flags st.maxBlockCount memory
      st.singleStep pc = .ok code)
    (blocks : env.blockToOffset = st.blockToOffset) (anchored : Anchored st memory.size env s) :
    (arch codeSize codeSize_pos).Performs (Anchored st memory.size env) (env.Serves st memory.size)
      env code s (blockEffect x64BackEnd st memory (blockFuel memory) pc s.guest) := by
  let g : CodeGenerator :=
    { memory := memory, flags := st.flags, maxBlockCount := st.maxBlockCount,
      singleStep := st.singleStep, currentPc := pc }
  have same : g.setting env = st := by
    unfold CodeGenerator.setting
    rw [blocks]
  have performs : Performs st memory.size env code s
      (blockEffect x64BackEnd st memory (blockFuel memory) pc s.guest) := by
    have performs := generateCode_performs g generated (same ▸ anchored)
    rwa [same] at performs
  -- a block departs or faults; the exit code then becomes the reason the executor reads
  cases outcome : blockEffect x64BackEnd st memory (blockFuel memory) pc s.guest with
  | next guest => exact blockEffect_ne_next _ _ _ _ _ _ _ outcome
  | fault =>
    rw [outcome] at performs
    exact performs.runCode Exit.target
  | depart d guest =>
    rw [outcome] at performs
    obtain ⟨e, s', quits, delivers, anchored', rfl⟩ := performs
    cases d with
    | exit reason pc' =>
      obtain ⟨rfl, reason', pc'⟩ := delivers
      exact ⟨s', quits.runCode Exit.target, reason', pc', rfl, anchored'.serves⟩
    | enter offset =>
      cases delivers
      exact ⟨s', quits.runCode Exit.target, rfl, anchored'⟩

def refines (codeSize : List (Item Instr) → Nat) (codeSize_pos : ∀ code, 0 < codeSize code) :
    (arch codeSize codeSize_pos).Refines x64BackEnd where
  anchored := Anchored
  serves anchored := anchored.serves
  enter leftover serves := ⟨anchored_enter serves leftover, rfl⟩
  performs generated blocks anchored :=
    arch_performs codeSize codeSize_pos generated blocks anchored

end X64

/-! ### AArch64 -/

namespace Aarch64

/-- Where control goes behind the code: back to the trampoline, or to an address. -/
def Exit.target : Exit → Option Word
  | .ret => none
  | .jump target => some target

/-- Run the code of a block. -/
def runCode (env : Env) (code : List (Item Instr)) (s : State) : Option (Option Word × State) :=
  LinearCode.runCode (step env) Exit.target code s

/-- The AArch64 executor; the assembler says how many bytes code takes. -/
def arch (platform : Platform) (codeSize : List (Item Instr) → Nat)
    (codeSize_pos : ∀ code, 0 < codeSize code) : Arch where
  State := State
  Code := List (Item Instr)
  Leftover := A64R → Word
  generateBlockCode flags maxBlockCount memory singleStep pc :=
    CodeGenerator.generateCode
      { platform := platform, memory := memory, flags := flags, maxBlockCount := maxBlockCount,
        singleStep := singleStep, basePc := pc, currentPc := pc } (blockFuel memory)
  codeSize := codeSize
  codeSize_pos := codeSize_pos
  enter := enter
  run := runCode
  guest := State.guest
  exitReason s := s.regs RA.exitReason
  exitPc s := s.regs RA.exitPc

section

variable (platform : Platform) (codeSize : List (Item Instr) → Nat)
  (codeSize_pos : ∀ code, 0 < codeSize code)

theorem arch_performs {st : Setting} {memory : Memory} {pc : Word} {code : List (Item Instr)}
    {env : Env} {s : State}
    (generated : (arch platform codeSize codeSize_pos).generateBlockCode st.flags st.maxBlockCount
      memory st.singleStep pc = .ok code)
    (blocks : env.blockToOffset = st.blockToOffset) (anchored : Anchored st memory.size env s) :
    (arch platform codeSize codeSize_pos).Performs (Anchored st memory.size env)
      (env.Serves st memory.size) env code s
      (blockEffect a64BackEnd st memory (blockFuel memory) pc s.guest) := by
  let g : CodeGenerator :=
    { platform := platform, memory := memory, flags := st.flags, maxBlockCount := st.maxBlockCount,
      singleStep := st.singleStep, basePc := pc, currentPc := pc }
  have same : g.setting env = st := by
    unfold CodeGenerator.setting
    rw [blocks]
  have performs : Performs ⟨platform, st, memory.size, pc⟩ env code s
      (blockEffect a64BackEnd st memory (blockFuel memory) pc s.guest) := by
    have performs := generateCode_performs g generated (same ▸ anchored)
    unfold CodeGenerator.block at performs
    rwa [same] at performs
  -- as on x64, except that only a jump to another block keeps the anchors
  cases outcome : blockEffect a64BackEnd st memory (blockFuel memory) pc s.guest with
  | next guest => exact blockEffect_ne_next _ _ _ _ _ _ _ outcome
  | fault =>
    rw [outcome] at performs
    exact performs.runCode Exit.target
  | depart d guest =>
    rw [outcome] at performs
    obtain ⟨e, s', quits, delivers, serves, rfl⟩ := performs
    cases d with
    | exit reason pc' =>
      obtain ⟨rfl, reason', pc'⟩ := delivers
      exact ⟨s', quits.runCode Exit.target, reason', pc', rfl, serves⟩
    | enter offset =>
      obtain ⟨rfl, anchored'⟩ := delivers
      exact ⟨s', quits.runCode Exit.target, rfl, anchored'⟩

/-- The AArch64 generator has code for every block. -/
theorem arch_generates (flags : CodeBufferFlags) (limit : Word) (memory : Memory) (singleStep : Bool) (pc : Word) :
    ∃ code, (arch platform codeSize codeSize_pos).generateBlockCode flags limit memory singleStep pc = .ok code :=
  run_generateCode ⟨platform, memory, flags, limit, singleStep, pc, pc⟩ (blockFuel memory)
    (exists_unfetchable memory pc)

def refines : (arch platform codeSize codeSize_pos).Refines a64BackEnd where
  anchored := Anchored
  serves anchored := anchored.serves
  enter leftover serves := ⟨anchored_enter serves leftover, rfl⟩
  performs generated blocks anchored :=
    arch_performs platform codeSize codeSize_pos generated blocks anchored

end

end Aarch64

/-! ### Either -/

/-- The executors, each with the lengths its assembler gives code. -/
inductive Host where
  | x64 (codeSize : List (Item X64.Instr) → Nat) (codeSize_pos : ∀ code, 0 < codeSize code)
  | aarch64 (platform : Aarch64.Platform) (codeSize : List (Item Aarch64.Instr) → Nat)
      (codeSize_pos : ∀ code, 0 < codeSize code)

def Host.arch : Host → Arch
  | .x64 codeSize codeSize_pos => X64.arch codeSize codeSize_pos
  | .aarch64 platform codeSize codeSize_pos => Aarch64.arch platform codeSize codeSize_pos

def Host.backEnd : Host → BackEnd
  | .x64 .. => X64.x64BackEnd
  | .aarch64 .. => Aarch64.a64BackEnd

def Host.refines : (host : Host) → host.arch.Refines host.backEnd
  | .x64 codeSize codeSize_pos => X64.refines codeSize codeSize_pos
  | .aarch64 platform codeSize codeSize_pos => Aarch64.refines platform codeSize codeSize_pos

end Riscv64Emulator.Jit
