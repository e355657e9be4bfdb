import Riscv64Emulator.Jit.BackEnds
import Riscv64Emulator.Jit.X64.Flow

/-!
# The registers x64 code writes

Generated code works on four registers of the host. The others, the stack pointer among
them, are the same behind the code of a block.
-/
namespace Riscv64Emulator.Jit.X64

open LinearCode

/-- The registers an operand names as a destination. -/
def Operand.written : Operand → List X64R
  | .reg r => [r]
  | _ => []

/-- The registers an instruction writes. -/
def Instr.writes : Instr → List X64R
  | .mov _ dst _ | .alu _ _ dst _ | .shift _ dst _ => dst.written
  | .extend _ dst _ | .imul _ dst _ | .setcc _ dst => [dst]
  | .cqo _ => [.rdx]
  | .div _ _ | .idiv _ _ => [.rax, .rdx]
  | _ => []

/-- The registers of generated code. -/
def scratch : List X64R := [.rax, .rbx, .rcx, .rdx]

/-- An instruction writes scratch registers only. -/
def Instr.Tidy (i : Instr) : Prop := ∀ r ∈ i.writes, r ∈ scratch

section Steps

variable {env : Env} {s s' : State} {q : X64R}

theorem regs_write {size : OperandSize} {dst : Operand} {v : Word} {f : Bool}
    (wrote : s.write env size dst v f = some s') (other : q ∉ dst.written) : s'.regs q = s.regs q := by
  cases dst with
  | reg r =>
    cases wrote
    exact if_neg fun same => other (List.mem_singleton.mpr same)
  | mem m =>
    obtain ⟨g, -, rfl⟩ := Option.map_eq_some_iff.mp wrote
    rfl
  | imm v => cases wrote

theorem divided_keeps {w : Nat} {r : X64R} (result : Option (BitVec w × BitVec w))
    (rax : q ≠ .rax) (rdx : q ≠ .rdx) (Q : Word → Prop) (holds : Q (s.regs q)) :
    (s.divided r result).mode.Holds fun s' => Q (s'.regs q) := by
  cases result with
  | none => trivial
  | some p => simpa [State.divided, Mode.Holds, rax, rdx] using holds

/-- What an instruction does not write stays. -/
theorem step_keeps {i : Instr} (other : q ∉ i.writes) {v : Word} (holds : s.regs q = v) :
    (step env i s).mode.Holds fun s' => s'.regs q = v := by
  -- an instruction with one destination
  have single : ∀ {r : X64R} {w : Word} {f : Bool}, q ∉ [r] → (s.setReg r w f).regs q = v :=
    fun apart => (if_neg fun same => apart (List.mem_singleton.mpr same)).trans holds
  cases i with
  | mov size dst src | alu op size dst src | shift op dst src =>
    simp only [step]
    repeat' split
    all_goals first
      | trivial
      | next wrote => exact (regs_write wrote other).trans holds
  | cmp dst src | test dst src =>
    simp only [step]
    split
    · exact holds
    · trivial
  | extend ext dst src =>
    simp only [step]
    split
    · trivial
    · exact single other
  | imul size dst src => exact single (f := s.foreign dst || s.foreign src) other
  | cqo size =>
    cases size <;> first | trivial | exact single other
  | div size r | idiv size r =>
    have apart : q ≠ .rax ∧ q ≠ .rdx := by simpa [Instr.writes] using other
    cases size <;> first | trivial | exact divided_keeps _ apart.1 apart.2 (· = v) holds
  | setcc c dst =>
    simp only [step]
    split
    · trivial
    · exact single other
  | jcc c l =>
    simp only [step]
    split
    · trivial
    · split <;> exact holds
  | jmp l | jmpReg r | ret => exact holds

end Steps

/-! ### The generator -/

abbrev Tidies {α : Type} (x : Gen α) : Prop := Emitter.EmitsOnly Instr.Tidy x

theorem tidies_ins {i : Instr} (tidy : i.Tidy) : Tidies (ins i) :=
  .ite (fun _ => .instr tidy) fun _ => .fail

/-- An instruction that writes no register. -/
theorem tidies_ins_none {i : Instr} (none : i.writes = []) : Tidies (ins i) :=
  tidies_ins fun r member => by
    rw [none] at member
    cases member

/-- An instruction that writes one. -/
theorem tidies_ins_one {i : Instr} {t : X64R} (one : i.writes = [t]) (own : t ∈ scratch) : Tidies (ins i) :=
  tidies_ins fun r member => by
    rw [one] at member
    cases List.mem_singleton.mp member
    exact own

theorem tidies_allocateLabel : Tidies allocateLabel := .modifyGet _

theorem tidies_verify (condition : Bool) (message : String) : Tidies (verify condition message) :=
  .ite (fun _ => .pure _) fun _ => .fail

theorem tidies_liftExcept {α : Type} (x : Except Abort α) : Tidies (liftExcept x) := by
  cases x with
  | ok a => exact .pure a
  | error e => exact .fail

namespace CodeGenerator

/-! ### Operands -/

theorem tidies_registerOperand (r : Register) : Tidies (registerOperand r) :=
  .bind (tidies_verify _ _) fun _ => .bind (tidies_verify _ _) fun _ => .pure _

/-- The operand of a guest register is no host register. -/
theorem yields_registerOperand (r : Register) : (registerOperand r).Yields fun o => o.written = [] :=
  .bind (.trivial _) fun _ _ => .bind (.trivial _) fun _ _ => .pure rfl

theorem tidies_registerOperandOrZero (r : Register) : Tidies (registerOperandOrZero r) :=
  .ite (fun _ => .pure _) fun _ => tidies_registerOperand r

theorem tidies_loadRegister {t : X64R} (own : t ∈ scratch) (r : Register) (offset : Word) :
    Tidies (loadRegister t r offset) :=
  .ite (fun _ => tidies_ins_one rfl own) fun _ => .bind (tidies_registerOperand r) fun _ =>
    .bind (tidies_ins_one rfl own) fun _ => .ite (fun _ => tidies_ins_one rfl own) fun _ => .pure _

/-- A store to the slot of a guest register. -/
theorem tidies_storeSlot (r : Register) (src : Operand) :
    Tidies (do ins (.mov .bits64 (← registerOperand r) src)) :=
  .bind_yields (tidies_registerOperand r) (yields_registerOperand r) fun _ slot => tidies_ins_none slot

theorem tidies_storeRegister (r : Register) {t : X64R} (own : t ∈ scratch) (signExtend : Bool) :
    Tidies (storeRegister r t signExtend) :=
  .ite (fun _ => .bind (tidies_ins_one rfl own) fun _ => tidies_storeSlot r _) fun _ => tidies_storeSlot r _

theorem tidies_storeImmToRegister (r : Register) {scratchReg : X64R} (own : scratchReg ∈ scratch)
    (imm : Word) : Tidies (storeImmToRegister r scratchReg imm) :=
  .ite (fun _ => .pure _) fun _ => .ite (fun _ => tidies_storeSlot r _) fun _ =>
    .bind (tidies_ins_one rfl own) fun _ => tidies_storeSlot r _

/-! ### Exits and branches -/

theorem tidies_generateExit (reason : ArchExitReason) (pc : ExitPc) : Tidies (generateExit reason pc) := by
  cases pc <;> exact .bind (tidies_ins_one rfl (by decide)) fun _ =>
    .bind (tidies_ins_one rfl (by decide)) fun _ => tidies_ins_none rfl

theorem tidies_generatePendingExits (exits : List PendingExit) : Tidies (generatePendingExits exits) := by
  induction exits with
  | nil => exact .pure _
  | cons e rest ih => exact .bind (.label _) fun _ => .bind (tidies_generateExit _ _) fun _ => ih

theorem tidies_generateValidatedBranch {t : X64R} (own : t ∈ scratch) :
    Tidies (generateValidatedBranch t) :=
  .bind tidies_allocateLabel fun _ => .bind (tidies_ins_one rfl own) fun _ =>
    .bind (tidies_ins_none rfl) fun _ => .bind (tidies_ins_none rfl) fun _ =>
      .bind (tidies_ins_one rfl own) fun _ => .bind (tidies_ins_none rfl) fun _ => .pure _

variable (g : CodeGenerator)

theorem tidies_generateStaticBranch (target : Word) {t : X64R} (own : t ∈ scratch) :
    Tidies (g.generateStaticBranch target t) :=
  .ite (fun _ => tidies_generateExit _ _) fun _ => .ite (fun _ => tidies_generateExit _ _) fun _ =>
    .ite (fun _ => tidies_generateExit _ _) fun _ => .bind (tidies_ins_one rfl own) fun _ =>
      .bind (tidies_generateValidatedBranch own) fun _ => .defer _

theorem tidies_generateDynamicBranch (target : X64R) {t : X64R} (own : t ∈ scratch) :
    Tidies (g.generateDynamicBranch target t) := by
  have exits : ∀ u o : Nat, Tidies (do
      addPendingExit u .unalignedPc (.register target)
      addPendingExit o .outOfBoundsPc (.register target)) := fun _ _ => .bind (.defer _) fun _ => .defer _
  refine .bind tidies_allocateLabel fun u => .bind tidies_allocateLabel fun o =>
    .bind (tidies_ins_none rfl) fun _ => .bind (tidies_ins_none rfl) fun _ =>
      .bind (tidies_ins_one rfl own) fun _ => .bind (tidies_ins_one rfl own) fun _ =>
        .bind (tidies_ins_none rfl) fun _ => .bind (tidies_ins_none rfl) fun _ =>
          .ite (fun _ => ?_) fun _ => ?_
  · exact .bind (tidies_generateExit _ _) fun _ => exits u o
  · exact .bind (tidies_generateValidatedBranch own) fun _ => .bind (.defer _) fun _ => exits u o

theorem tidies_generateValidateMemoryAccess (address : X64R) {scratch1 scratch2 : X64R}
    (own1 : scratch1 ∈ scratch) (own2 : scratch2 ∈ scratch) (accessSizeLog2 : Nat) (write : Bool) :
    Tidies (g.generateValidateMemoryAccess address scratch1 scratch2 accessSizeLog2 write) := by
  refine .bind tidies_allocateLabel fun l => ?_
  -- behind the alignment test, which a byte access does without
  have bound : Tidies (do
      ins (.cmp (.reg address) (.imm g.memory.size))
      ins (.jcc .ae l)
      if !g.flags.skipPermissionChecks then
        let operandSize := operandSizeOf accessSizeLog2
        ins (.mov operandSize (.reg scratch1) (.mem (.baseIndex RA.permissionsBase address 1)))
        let flag := if write then MemoryFlags.write else MemoryFlags.read
        ins (.mov .bits64 (.reg scratch2) (.imm (permissionMask flag (2 ^ accessSizeLog2))))
        ins (.alu .and .bits64 (.reg scratch1) (.reg scratch2))
        ins (.cmp (.reg scratch1) (.reg scratch2))
        ins (.jcc .ne l)
      addPendingExit l (if write then .memoryWriteFault else .memoryReadFault)
        (.value g.currentPc)) :=
    .bind (tidies_ins_none rfl) fun _ => .bind (tidies_ins_none rfl) fun _ =>
      .ite (fun _ => .bind (tidies_ins_one rfl own1) fun _ => .bind (tidies_ins_one rfl own2) fun _ =>
        .bind (tidies_ins_one rfl own1) fun _ => .bind (tidies_ins_none rfl) fun _ =>
          .bind (tidies_ins_none rfl) fun _ => .defer _) fun _ => .defer _
  exact .ite (fun _ => .bind (tidies_ins_none rfl) fun _ => .bind (tidies_ins_none rfl) fun _ => bound)
    fun _ => bound

/-! ### Instructions -/

variable {i : Instruction}

theorem tidies_generateLoad : Tidies (g.generateLoad i) := by
  refine .bind (tidies_loadRegister (by decide) _ _) fun _ => .bind (tidies_liftExcept _) fun _ =>
    .bind (g.tidies_generateValidateMemoryAccess _ (by decide) (by decide) _ _) fun _ =>
      .bind_yields (Q := fun j => j.writes = [RA.b]) (tidies_liftExcept _) (fun _ _ ran => ?_)
        fun _ one => .bind (tidies_ins_one one (by decide)) fun _ => tidies_storeRegister _ (by decide) _
  unfold loadInstr at ran
  split at ran <;> cases ran <;> rfl

theorem tidies_generateStore : Tidies (g.generateStore i) :=
  .bind (tidies_liftExcept _) fun _ => .bind (tidies_loadRegister (by decide) _ _) fun _ =>
    .bind (g.tidies_generateValidateMemoryAccess _ (by decide) (by decide) _ _) fun _ =>
      .bind (tidies_loadRegister (by decide) _ _) fun _ => tidies_ins_none rfl

theorem tidies_generateBinaryOperation (type : InstructionType) {op1 : Operand} (op2 : Operand)
    (own : ∀ r ∈ op1.written, r ∈ scratch) : Tidies (generateBinaryOperation type op1 op2) := by
  unfold generateBinaryOperation
  split
  all_goals first
    | exact tidies_ins own
    | exact .fail

/-- The operation on a slot. -/
theorem tidies_inPlace (type : InstructionType) (r : Register) (op2 : Operand) :
    Tidies (do generateBinaryOperation type (← registerOperand r) op2) :=
  .bind_yields (tidies_registerOperand r) (yields_registerOperand r) fun _ slot =>
    tidies_generateBinaryOperation _ _ fun q member => by
      rw [slot] at member
      cases member

theorem tidies_generateImmediate : Tidies (generateImmediate i) := by
  refine .ite (fun _ => tidies_storeImmToRegister _ (by decide) _) fun _ => .ite (fun _ => ?_) fun _ =>
    .ite (fun _ => ?_) fun _ => .ite (fun _ => tidies_inPlace _ _ _) fun _ => ?_
  · exact .bind (tidies_loadRegister (by decide) _ _) fun _ => tidies_storeRegister _ (by decide) _
  · exact .bind (tidies_registerOperandOrZero _) fun _ =>
      .bind (tidies_ins_one rfl (by decide)) fun _ => tidies_storeRegister _ (by decide) _
  · exact .bind (tidies_loadRegister (by decide) _ _) fun _ =>
      .bind (tidies_generateBinaryOperation _ _ (by decide)) fun _ => tidies_storeRegister _ (by decide) _

theorem tidies_generateRegister : Tidies (generateRegister i) := by
  have operate : ∀ op2, Tidies (do
      generateBinaryOperation i.type (.reg RA.a) op2
      storeRegister i.rd RA.a (instructionAnyOf i.type [.addw, .subw, .sllw, .srlw, .sraw])) := fun _ =>
    .bind (tidies_generateBinaryOperation _ _ (by decide)) fun _ => tidies_storeRegister _ (by decide) _
  refine .ite (fun _ => tidies_inPlace _ _ _) fun _ => ?_
  exact .bind (tidies_loadRegister (by decide) _ _) fun _ => .ite
    (fun _ => .bind (tidies_loadRegister (by decide) _ _) fun _ =>
      .ite (fun _ => .bind (.pure _) operate) fun _ => .bind (tidies_registerOperandOrZero _) operate)
    fun _ => .ite (fun _ => .bind (.pure _) operate)
      fun _ => .bind (tidies_registerOperandOrZero _) operate

theorem tidies_generateCompare : Tidies (generateCompare i) := by
  have store : Tidies (do
      ins (.setcc (if instructionAnyOf i.type [.sltu, .sltiu] then .b else .l) RA.a)
      storeRegister i.rd RA.a false) :=
    .bind (tidies_ins_one rfl (by decide)) fun _ => tidies_storeRegister _ (by decide) _
  refine .bind (tidies_ins_one rfl (by decide)) fun _ => .ite (fun _ => ?_) fun _ => ?_
  · exact .bind (tidies_registerOperand _) fun _ => .bind (tidies_ins_none rfl) fun _ => store
  · exact .bind (tidies_loadRegister (by decide) _ _) fun _ =>
      .bind (tidies_registerOperandOrZero _) fun _ => .bind (tidies_ins_none rfl) fun _ => store

theorem tidies_generateMultiply : Tidies (generateMultiply i) :=
  .bind (tidies_loadRegister (by decide) _ _) fun _ => .bind (tidies_loadRegister (by decide) _ _) fun _ =>
    .bind (tidies_ins_one rfl (by decide)) fun _ => tidies_storeRegister _ (by decide) _

theorem tidies_generateDivide : Tidies (generateDivide i) := by
  unfold generateDivide
  generalize instructionAnyOf i.type [.divw, .divuw, .remw, .remuw] = word
  generalize instructionAnyOf i.type [.divu, .divuw, .remu, .remuw] = unsigned
  generalize instructionAnyOf i.type [.rem, .remu, .remw, .remuw] = remainder
  dsimp only
  refine .bind (tidies_loadRegister (by decide) _ _) fun _ =>
    .bind (tidies_loadRegister (by decide) _ _) fun _ =>
      .bind tidies_allocateLabel fun go => .bind tidies_allocateLabel fun skip => ?_
  -- quotient and remainder are the two registers a division writes
  have result : (if remainder then X64R.rdx else X64R.rax) ∈ scratch := by
    cases remainder <;> decide
  have divide : Tidies (do
      insertLabel go
      if unsigned then
        ins (.alu .xor (if word then .bits32 else .bits64) (.reg .rdx) (.reg .rdx))
        ins (.div (if word then .bits32 else .bits64) .rbx)
      else
        ins (.cqo (if word then .bits32 else .bits64))
        ins (.idiv (if word then .bits32 else .bits64) .rbx)
      storeRegister i.rd (if remainder then .rdx else .rax) word
      insertLabel skip) := by
    have finish : Tidies (do
        storeRegister i.rd (if remainder then .rdx else .rax) word
        insertLabel skip) := .bind (tidies_storeRegister _ result _) fun _ => .label _
    have pair : ∀ r ∈ [X64R.rax, X64R.rdx], r ∈ scratch := by decide
    exact .bind (.label _) fun _ => .ite
      (fun _ => .bind (tidies_ins_one rfl (by decide)) fun _ => .bind (tidies_ins pair) fun _ => finish)
      fun _ => .bind (tidies_ins_one rfl (by decide)) fun _ => .bind (tidies_ins pair) fun _ => finish
  refine .ite (fun _ => ?_) fun _ => divide
  refine .bind (tidies_ins_none rfl) fun _ => .bind (tidies_ins_none rfl) fun _ => .ite
    (fun _ => .bind (tidies_ins_none rfl) fun _ => ?_)
    fun _ => .bind (tidies_ins_one rfl (by decide)) fun _ => .bind (tidies_ins_none rfl) fun _ => ?_
  all_goals
    exact .bind (tidies_ins_none rfl) fun _ => .bind (tidies_storeImmToRegister _ (by decide) _) fun _ =>
      .bind (tidies_ins_none rfl) fun _ => divide

theorem tidies_computation : Tidies (g.computation i) := by
  unfold computation
  split
  all_goals first
    | exact tidies_generateImmediate
    | exact tidies_generateRegister
    | exact tidies_generateCompare
    | exact tidies_generateMultiply
    | exact tidies_storeImmToRegister _ (by decide) _

theorem tidies_generateInstruction (i : Instruction) : Tidies (g.generateInstruction i) := by
  have answer : ∀ {x : Gen Unit} (goesOn : Bool), Tidies x → Tidies (do x; pure goesOn) :=
    fun _ tidies => .bind tidies fun _ => .pure _
  have unlessZero : ∀ {x : Gen Unit}, Tidies x → Tidies (do
      if i.rd ≠ Register.zero then x
      pure true) := fun tidies => .ite (fun _ => answer true tidies) fun _ => .pure _
  rcases instruction_family i.type with kind | kind | kind | ⟨reason, kind⟩ | kind | kind | kind | kind
  · rw [generateInstruction_load g kind]
    exact unlessZero g.tidies_generateLoad
  · rw [generateInstruction_store g kind]
    exact answer _ g.tidies_generateStore
  · -- a conditional branch: the comparison, the jump around the exit, and the label behind it
    rw [generateInstruction_branch g kind]
    exact .bind (tidies_loadRegister (by decide) _ _) fun _ =>
      .bind (tidies_registerOperandOrZero _) fun _ => .bind (tidies_ins_none rfl) fun _ =>
        .bind tidies_allocateLabel fun _ => .bind (tidies_liftExcept _) fun _ =>
          .bind (tidies_ins_none rfl) fun _ => .bind (g.tidies_generateStaticBranch _ (by decide)) fun _ =>
            .bind (.label _) fun _ => .pure _
  · rw [generateInstruction_exit g kind]
    exact answer _ (tidies_generateExit _ _)
  · -- `jal`, with a link or without
    rw [generateInstruction_jal g kind]
    have branch := answer false (g.tidies_generateStaticBranch (g.currentPc + i.imm) (t := RA.a) (by decide))
    exact .ite (fun _ => .bind (tidies_storeImmToRegister _ (by decide) _) fun _ => branch) fun _ => branch
  · -- `jalr`, likewise
    rw [generateInstruction_jalr g kind]
    have branch := answer false (g.tidies_generateDynamicBranch RA.a (t := RA.b) (by decide))
    exact .bind (tidies_loadRegister (by decide) _ _) fun _ => .ite
      (fun _ => .bind (tidies_storeImmToRegister _ (by decide) _) fun _ => branch) fun _ => branch
  · rw [generateInstruction_fence g kind]
    exact .pure _
  · cases division : isDivision i.type with
    | true =>
      rw [generateInstruction_division g division]
      exact unlessZero tidies_generateDivide
    | false =>
      have direct : computesDirectly i.type = true := by
        simpa [isComputation, division] using kind
      rw [generateInstruction_computation g direct]
      exact unlessZero g.tidies_computation

theorem tidies_generateBlock (g : CodeGenerator) (fuel : Nat) : Tidies (g.generateBlock fuel) := by
  induction fuel generalizing g with
  | zero => exact .fail
  | succ fuel ih =>
    unfold generateBlock
    cases codeAt g.memory g.currentPc with
    | none => exact tidies_generateExit _ _
    | some i =>
      refine .bind (g.tidies_generateInstruction i) fun goesOn => ?_
      cases goesOn with
      | true =>
        simp only [if_true]
        exact .ite (fun _ => tidies_generateExit _ _) fun _ => ih _
      | false => exact .pure _

/-- The code of a block writes scratch registers only. -/
theorem tidy_generateCode {fuel : Nat} {code : List (Item Instr)} (compiled : g.generateCode fuel = .ok code) :
    ∀ i, .instr i ∈ code → i.Tidy := by
  unfold generateCode at compiled
  cases block : (g.generateBlock fuel).run 0 with
  | error e =>
    rw [block] at compiled
    cases compiled
  | ok o =>
    simp only [block, run_generatePendingExits] at compiled
    cases compiled
    intro i member
    rcases List.mem_append.mp member with here | exit
    · exact tidies_generateBlock g fuel 0 o block i here
    · exact tidies_generatePendingExits o.exits o.state _ (run_generatePendingExits o.exits o.state) i exit

end CodeGenerator

/-- Where the code of a block ends, the registers it does not write are as they were. -/
theorem runCode_keeps {g : CodeGenerator} {fuel : Nat} {code : List (Item Instr)}
    (compiled : g.generateCode fuel = .ok code) {env : Env} {s s' : State} {target : Option Word}
    (ran : runCode env code s = some (target, s')) {r : X64R} (other : r ∉ scratch) :
    s'.regs r = s.regs r := by
  have keeps : (exec (step env) code (.running s)).Holds fun t => t.regs r = s.regs r :=
    exec_keeps (fun i member t holds => step_keeps (fun written =>
      other (g.tidy_generateCode compiled i member r written)) holds) rfl
  obtain ⟨e, here, -⟩ := runCode_eq_some.mp ran
  rw [here] at keeps
  exact keeps

end Riscv64Emulator.Jit.X64
