import Riscv64Emulator.Lib.LabelledRuns
import Riscv64Emulator.Vm.InstructionDisplay
import Riscv64Emulator.Vm.Steps

/-!
# The execution log

`ExecutionLog.cpp`, and what `run_interpreter` prints with `PRINT_EXECUTION_LOG`: a line for every
instruction, with the pc it was at and the registers it has changed. The lines of a run are enough
to replay it.
-/
namespace Riscv64Emulator

open InstructionDisplay

namespace ExecutionLog

/-- The registers the loop goes through. -/
def generalRegisters : List Register := (List.finRange 32).map Fin.castSucc

/-- The registers with a new value. -/
def changes (oldState newState : RegisterState) : List (Register × Word) :=
  (generalRegisters.filter fun reg => oldState.get reg != newState.get reg).map fun reg =>
    (reg, newState.get reg)

/-- `{}:{:x}`. -/
def entry (change : Register × Word) : String :=
  registerName change.1 ++ ":" ++ Text.hex change.2.toNat

/-- The line that is logged. -/
def printExecutionStep (oldState newState : RegisterState) : String :=
  let s := String.join ((changes oldState newState).map fun change => entry change ++ " ")
  Text.hex oldState.pc.toNat ++ " | " ++ s

/-! ### A line -/

theorem mem_generalRegisters (reg : Register) : reg ∈ generalRegisters ↔ reg ≠ Register.pc := by
  revert reg
  decide +kernel

theorem mem_changes {oldState newState : RegisterState} {reg : Register} {value : Word} :
    (reg, value) ∈ changes oldState newState ↔
      reg ≠ Register.pc ∧ oldState.get reg ≠ newState.get reg ∧ newState.get reg = value := by
  simp only [changes, List.mem_map, List.mem_filter, mem_generalRegisters, bne_iff_ne, Prod.mk.injEq]
  constructor
  · rintro ⟨reg', ⟨general, changed⟩, rfl, rfl⟩
    exact ⟨general, changed, rfl⟩
  · rintro ⟨general, changed, value⟩
    exact ⟨reg, ⟨general, changed⟩, rfl, value⟩

theorem entry_inj {change change' : Register × Word} (same : entry change = entry change') :
    change = change' := by
  have texts := congrArg String.toList same
  simp only [entry, String.toList_append, String.reduceToList, List.append_assoc, List.cons_append,
    List.nil_append] at texts
  obtain ⟨name, value⟩ := Text.field_inj (notMem_registerName _ (by decide))
    (notMem_registerName _ (by decide)) texts
  have values := Text.hex_inj (String.toList_inj.mp value)
  exact Prod.ext (registerName_inj (String.toList_inj.mp name)) (BitVec.eq_of_toNat_eq values)

theorem notMem_entry (change : Register × Word) : ' ' ∉ (entry change).toList := by
  simp only [entry, String.toList_append, List.mem_append, not_or]
  refine ⟨⟨notMem_registerName _ (by decide), by decide⟩, Text.notMem_hex (by decide)⟩

/-- The entries, each with the space after it. -/
theorem toList_entries (changed : List (Register × Word)) :
    (String.join (changed.map fun change => entry change ++ " ")).toList =
      Text.terminated ' ' (changed.map fun change => (entry change).toList) := by
  induction changed with
  | nil => rfl
  | cons change rest ih => simp [String.toList_append, ih]

/-- A line can be read. -/
theorem printExecutionStep_inj {oldState oldState' newState newState' : RegisterState}
    (same : printExecutionStep oldState newState = printExecutionStep oldState' newState') :
    oldState.pc = oldState'.pc ∧ changes oldState newState = changes oldState' newState' := by
  have texts := congrArg String.toList same
  simp only [printExecutionStep, String.toList_append, String.reduceToList, toList_entries,
    List.append_assoc, List.cons_append, List.nil_append] at texts
  obtain ⟨pc, rest⟩ := Text.field_inj (Text.notMem_hex (by decide)) (Text.notMem_hex (by decide)) texts
  simp only [List.cons.injEq, true_and] at rest
  have free : ∀ changed : List (Register × Word),
      ∀ x ∈ changed.map fun change => (entry change).toList, ' ' ∉ x := by
    intro changed x inside
    obtain ⟨change, -, rfl⟩ := List.mem_map.mp inside
    exact notMem_entry change
  have entries := Text.terminated_inj (free _) (free _) rest
  have injective : Function.Injective fun change => (entry change).toList :=
    fun change change' same => entry_inj (String.toList_inj.mp same)
  constructor
  · exact BitVec.eq_of_toNat_eq (Text.hex_inj (String.toList_inj.mp pc))
  · exact List.map_injective_iff.mpr injective entries

/-- The same changes of the same registers give the same registers. -/
theorem get_of_changes {oldState oldState' newState newState' : RegisterState} {reg : Register}
    (same : changes oldState newState = changes oldState' newState')
    (before : oldState.get reg = oldState'.get reg) (general : reg ≠ Register.pc) :
    newState.get reg = newState'.get reg := by
  by_cases changed : oldState.get reg = newState.get reg
  · by_contra different
    have inside : (reg, newState'.get reg) ∈ changes oldState' newState' :=
      mem_changes.mpr ⟨general, by rw [← before, changed]; exact different, rfl⟩
    rw [← same, mem_changes] at inside
    exact inside.2.1 changed
  · have inside : (reg, newState.get reg) ∈ changes oldState newState :=
      mem_changes.mpr ⟨general, changed, rfl⟩
    rw [same, mem_changes] at inside
    exact inside.2.2.symm

end ExecutionLog

namespace Interpreter

open ExecutionLog LabelledRuns

/-- What `run_interpreter` does while `step` returns true, with the lines it prints. -/
abbrev Logged : VmState → List String → VmState → Prop :=
  LabelledRuns.Run fun s line t => Steps s t ∧ line = printExecutionStep s.cpu t.cpu

/-- The general registers hold the same values. -/
def SameRegisters (r r' : RegisterState) : Prop := ∀ reg, reg ≠ Register.pc → r.get reg = r'.get reg

/-- The registers are the same where all of them and the pc are. -/
theorem SameRegisters.eq {r r' : RegisterState} (same : SameRegisters r r') (pc : r.pc = r'.pc) :
    r = r' := by
  apply RegisterState.ext
  funext reg
  by_cases general : reg = Register.pc
  · rw [general]
    exact pc
  · exact same reg general

/-- One line. -/
theorem sameRegisters_of_line {r r' q q' : RegisterState} (same : SameRegisters r q)
    (line : printExecutionStep r r' = printExecutionStep q q') : r = q ∧ SameRegisters r' q' := by
  obtain ⟨pc, changed⟩ := printExecutionStep_inj line
  exact ⟨same.eq pc, fun reg general => get_of_changes changed (same reg general) general⟩

/-- Two runs, of any two memories, that have begun with the same general registers and have printed the
same lines: wherever both are cut after the same lines, the general registers are the same, and while there are
lines to come the pc is the same too. -/
theorem log_replays {s u s' t v t' : VmState} {before after : List String} (run : Logged s before u)
    (rest : Logged u after s') (run' : Logged t before v) (rest' : Logged v after t')
    (same : SameRegisters s.cpu t.cpu) :
    SameRegisters u.cpu v.cpu ∧ (after ≠ [] → u.cpu = v.cpu) := by
  have middle : SameRegisters u.cpu v.cpu := by
    refine run.related (R := fun s t => SameRegisters s.cpu t.cpu) same ?_ run'
    intro s line s' t t' same stepped stepped'
    exact (sameRegisters_of_line same (stepped.2.symm.trans stepped'.2)).2
  refine ⟨middle, fun more => ?_⟩
  cases after with
  | nil => exact absurd rfl more
  | cons line lines =>
    obtain ⟨u', first, -⟩ := (show Logged u ([line] ++ lines) s' from rest).cut
    obtain ⟨v', first', -⟩ := (show Logged v ([line] ++ lines) t' from rest').cut
    exact (sameRegisters_of_line middle (first.single.2.symm.trans first'.single.2)).1

namespace Printed

theorem size_lt : (16 : Word).toNat + 7 < 2 ^ 64 := by decide

/-- `addi x1, x0, 5` in front of some word. -/
def vm (word : List Byte) : VmState :=
  ⟨Memory.ofImage 16 size_lt ([0x93, 0x00, 0x50, 0x00] ++ word) MemoryFlags.execute, ⟨fun _ => 0⟩, {}⟩

/-- The state behind the addition. -/
def added (word : List Byte) : VmState := retire (vm word) ((vm word).cpu.set 1 5)

theorem logged : Logged (vm []) ["0 | ra:5 "] (added []) ∧
    Logged (vm [0x73, 0, 0, 0]) ["0 | ra:5 "] (added [0x73, 0, 0, 0]) :=
  ⟨.next .start ⟨rfl, by decide +kernel⟩, .next .start ⟨rfl, by decide +kernel⟩⟩

end Printed

theorem log_replays_addi : ∃ s t, Logged s ["0 | ra:5 "] t ∧ SameRegisters t.cpu (Printed.added []).cpu :=
  ⟨_, _, Printed.logged.2, (log_replays Printed.logged.2 .start Printed.logged.1 .start fun _ _ => rfl).1⟩

end Interpreter
end Riscv64Emulator
