import Riscv64Emulator.Vm.Accesses
import Riscv64Emulator.Jit.Agreement
import Riscv64Emulator.Jit.Aarch64.Results

/-!
# Loads and stores of generated code

Where the check in front of it passes, the code of a load or store does to the guest what a
step of the interpreter does; where the check fails, it leaves through the exit for the fault
with the guest it was entered with. The guest is compared as each engine has it: on AArch64
part of the registers live in host registers.
-/
namespace Riscv64Emulator.Jit

open LinearCode Interpreter

/-- The guest as an engine has it. -/
structure View where
  registers : Register → Word
  memory : Memory

namespace View

def ofVm (v : VmState) : View := ⟨v.cpu.get, v.memory⟩

def ofGuest (g : Guest) : View := ⟨g.registers.get, g.memory⟩

/-- The same guest up to the pc, of which generated code keeps no copy. -/
structure Alike (a b : View) : Prop where
  memory : a.memory = b.memory
  registers : ∀ r, r ≠ Register.pc → a.registers r = b.registers r

/-- The address of a load or store. -/
def address (view : View) (i : Instruction) : Word := view.registers i.rs1 + i.imm

end View

/-- The load or store `i` has been made, as a step of the interpreter makes it. -/
structure Accessed (st : Setting) (i : Instruction) (before after : View) : Prop where
  /-- A load gives `rd` the extended number and leaves the memory alone. -/
  load : ∀ n, loadWidth i.type = some n → after.memory = before.memory ∧
    after.registers i.rd = Isa.extended (Isa.signedLoad i.type)
      (bytesAt before.memory.contents (before.address i).toNat n)
  /-- A store replaces its bytes and no others. -/
  store : ∀ n, storeWidth i.type = some n →
    StoredIn before.memory after.memory (before.address i) n (before.registers i.rs2)
  kept : ∀ r, (isLoad i.type = true → r ≠ i.rd) → after.registers r = before.registers r
  agrees : ∀ v v', before.Alike (.ofVm v) → execute v v.cpu.pc i = .ok (true, v') →
    after.Alike (.ofVm v')
  /-- The interpreter refuses the access only in a build without permission checks. -/
  retires : st.flags.skipPermissionChecks = false → ∀ v, before.Alike (.ofVm v) →
    ∃ v', execute v v.cpu.pc i = .ok (true, v')

/-- What the code of the load or store `i` at `pc` does: behind its end it runs on with the views
`runs` allows, and through its exits it leaves with those of `leaves`. -/
structure MakesAccess (st : Setting) (pc : Word) (i : Instruction) (before : View)
    (runs : View → Prop) (leaves : ArchExitReason → Word → View → Prop) : Prop where
  passes : st.accessAllowed before.memory (accessLog2 i.type) (accessFlag (isStore i.type))
    (before.address i) = true → ∃ after, runs after ∧ Accessed st i before after
  refused : st.accessAllowed before.memory (accessLog2 i.type) (accessFlag (isStore i.type))
    (before.address i) = false →
    leaves (accessFault (isStore i.type)) pc before ∧ ∀ after, ¬runs after

/-- A store, or a load that has code. -/
def HasAccess (i : Instruction) : Prop :=
  isLoad i.type = true ∧ i.rd ≠ Register.zero ∨ isStore i.type = true

section Access

variable {st : Setting} {i : Instruction} {g : Guest}

theorem isStore_of_isLoad {type : InstructionType} (kind : isLoad type = true) : isStore type = false := by
  revert kind
  cases type <;> decide

/-- The registers of a guest and of an interpreter's state that look alike. -/
theorem View.Alike.accessAddress {v : VmState} (alike : (View.ofGuest g).Alike (.ofVm v)) :
    (View.ofGuest g).address i = accessAddress v i :=
  congrArg (· + i.imm) (alike.registers i.rs1 i.rs1_ne_pc)

/-- The emitted check accepts nothing the interpreter refuses. -/
theorem verified_of_allowed (reached : g.memory.Reachable) (checks : st.flags.skipPermissionChecks = false)
    {write : Bool} {address : Word}
    (allowed : st.accessAllowed g.memory (accessLog2 i.type) (accessFlag write) address = true) :
    g.memory.verifyPermissions address (BitVec.ofNat 64 (2 ^ accessLog2 i.type)) (accessFlag write) = true :=
  ((Setting.accessAllowed_eq reached.paddingClear (accessLog2_le i.type) (by cases write <;> decide)
    checks).mp allowed).2

theorem accessed_load (reached : g.memory.Reachable) (kind : isLoad i.type = true)
    (nonzero : i.rd ≠ Register.zero)
    (allowed : st.accessAllowed g.memory (accessLog2 i.type) (accessFlag false)
      ((View.ofGuest g).address i) = true) :
    Accessed st i (.ofGuest g)
      (.ofGuest (g.setRegister i.rd (g.loaded i.type ((View.ofGuest g).address i)))) where
  load n width := by
    obtain ⟨rfl, extension⟩ := extendRead_eq width
      (leValue (bytesAt g.memory.contents ((View.ofGuest g).address i).toNat n))
    refine ⟨rfl, (RegisterState.get_set_same _ _ _ nonzero).trans ?_⟩
    exact extension.symm.trans (extendRead_extended width _ (length_bytesAt _ _ _))
  store n width := by
    revert kind width
    cases i.type <;> simp [isLoad, storeWidth]
  kept r other := RegisterState.get_set_other _ _ (other kind)
  agrees v v' alike executed := by
    obtain ⟨-, rfl⟩ := (execute_load_iff kind v v').mp executed
    refine ⟨alike.memory, fun r notPc => ?_⟩
    have value : (guestOf v).loaded i.type (accessAddress v i)
        = g.loaded i.type ((View.ofGuest g).address i) := by
      rw [alike.accessAddress, Guest.loaded, Guest.loaded]
      exact congrArg (fun m : Memory => extendLoaded i.type (leValue (bytesAt m.allocation _ _)))
        alike.memory.symm
    -- the destination apart, both sides keep what they had
    show (g.registers.set i.rd _).get r = RegisterState.get (RegisterState.set _ Register.pc _) r
    rw [RegisterState.get_set_other _ _ notPc, value]
    by_cases own : r = i.rd
    · rw [own, RegisterState.get_set_same _ _ _ nonzero, RegisterState.get_set_same _ _ _ nonzero]
    · rw [RegisterState.get_set_other _ _ own, RegisterState.get_set_other _ _ own]
      exact alike.registers r notPc
  retires checks v alike := by
    refine ⟨_, (execute_load_iff kind v _).mpr ⟨?_, rfl⟩⟩
    rw [← alike.accessAddress]
    have memory : g.memory = v.memory := alike.memory
    rw [← memory]
    exact verified_of_allowed reached checks allowed

theorem accessed_store (reached : g.memory.Reachable) (kind : isStore i.type = true)
    (allowed : st.accessAllowed g.memory (accessLog2 i.type) (accessFlag true)
      ((View.ofGuest g).address i) = true) :
    Accessed st i (.ofGuest g) (.ofGuest (g.storeBytes ((View.ofGuest g).address i)
      (accessLog2 i.type) (g.registers.get i.rs2))) where
  load n width := by
    revert kind width
    cases i.type <;> simp [isStore, loadWidth]
  store n width := by
    rw [storeWidth_of_isStore kind, Option.some.injEq] at width
    subst width
    exact storedIn_overwrite (Setting.accessAllowed_inside (accessLog2_le i.type) allowed) _
  kept _ _ := rfl
  agrees v v' alike executed := by
    obtain ⟨-, rfl⟩ := (execute_store_iff kind v v').mp executed
    refine ⟨?_, fun r notPc => ?_⟩
    -- the same bytes at the same address
    · have memory : g.memory = v.memory := alike.memory
      have stored : g.registers.get i.rs2 = v.cpu.get i.rs2 := alike.registers i.rs2 i.rs2_ne_pc
      rw [alike.accessAddress, stored]
      show (g.storeBytes _ _ _).memory = ((guestOf v).storeBytes _ _ _).memory
      unfold Guest.storeBytes guestOf
      rw [memory]
    · exact (alike.registers r notPc).trans (RegisterState.get_set_other _ _ notPc).symm
  retires checks v alike := by
    refine ⟨_, (execute_store_iff kind v _).mpr ⟨?_, rfl⟩⟩
    rw [← alike.accessAddress]
    have memory : g.memory = v.memory := alike.memory
    rw [← memory]
    exact verified_of_allowed reached checks allowed

/-- What has the effect of a load or store makes the access. -/
theorem MakesAccess.of_effect (be : BackEnd) {pc : Word} {runs : View → Prop}
    {leaves : ArchExitReason → Word → View → Prop} (access : HasAccess i) (reached : g.memory.Reachable)
    (next : ∀ g', effect be st pc i g = .next g' → runs (.ofGuest g'))
    (departs : ∀ reason, effect be st pc i g = .depart (.exit reason pc) g →
      leaves reason pc (.ofGuest g) ∧ ∀ after, ¬runs after) :
    MakesAccess st pc i (.ofGuest g) runs leaves where
  passes allowed := by
    -- the admitted access is the effect's, for a load and for a store
    rcases access with ⟨kind, nonzero⟩ | kind
    · rw [isStore_of_isLoad kind] at allowed
      refine ⟨_, next _ ?_, accessed_load reached kind nonzero allowed⟩
      rw [effect_load be st pc g kind, if_neg nonzero]
      exact if_pos allowed
    · rw [kind] at allowed
      refine ⟨_, next _ ?_, accessed_store reached kind allowed⟩
      rw [effect_store be st pc g kind]
      exact if_pos allowed
  refused stops := by
    rcases access with ⟨kind, nonzero⟩ | kind
    · rw [isStore_of_isLoad kind] at stops ⊢
      refine departs _ ?_
      rw [effect_load be st pc g kind, if_neg nonzero]
      exact if_neg (ne_true_of_eq_false stops)
    · rw [kind] at stops ⊢
      refine departs _ ?_
      rw [effect_store be st pc g kind]
      exact if_neg (ne_true_of_eq_false stops)

end Access

/-! ### The two back ends -/

section BackEnds

variable {i : Instruction} {env : Env}

/-- The x64 code runs on behind its end. -/
def X64.RunsOn (env : Env) (s : X64.State) (o : Emitted X64.Instr X64.PendingExit Nat Bool)
    (after : View) : Prop :=
  ∃ s', exec (X64.step env) o.code (.running s) = .running s' ∧ .ofGuest s'.guest = after

/-- The x64 code, with that of its exits behind it, returns to the trampoline. -/
def X64.ReturnsWith (env : Env) (s : X64.State) (o : Emitted X64.Instr X64.PendingExit Nat Bool)
    (reason : ArchExitReason) (pc : Word) (after : View) : Prop :=
  ∃ s', exec (X64.step env) (o.code ++ o.exits.flatMap X64.exitCode) (.running s) = .left .ret s' ∧
    s'.regs X64.RA.exitReason = reason.code ∧ s'.regs X64.RA.exitPc = pc ∧ .ofGuest s'.guest = after

theorem X64.makesAccess {g : X64.CodeGenerator} {n : Nat} {o : Emitted X64.Instr X64.PendingExit Nat Bool}
    (ran : (g.generateInstruction i).run n = .ok o)
    (shape : InstructionDecoder.ImmediateOf i.type i.b) (access : HasAccess i) {s : X64.State}
    (anchored : X64.Anchored (g.setting env) g.memory.size env s) (reached : s.guest.memory.Reachable) :
    MakesAccess (g.setting env) g.currentPc i (.ofGuest s.guest) (X64.RunsOn env s o)
      (X64.ReturnsWith env s o) := by
  obtain ⟨_, ⟨n', code, exits, ran', -, realizes⟩, -⟩ := X64.compilesTo_effect (n := n)
    (g.uses_setting env) rfl shape (X64.compilable_of_run ran)
  cases ran.symm.trans ran'
  obtain ⟨ending, ends, meets⟩ := realizes env s anchored
  dsimp only at meets
  refine .of_effect X64.x64BackEnd access reached (fun g' outcome => ?_) fun reason outcome => ?_
  -- the code runs on where the effect does, and leaves where it departs
  · rw [outcome] at meets
    cases ending with
    | ran s' => exact ⟨s', ends.runs, congrArg View.ofGuest meets.2⟩
    | left | faulted => exact False.elim meets
  · rw [outcome] at meets
    cases ending with
    | ran | faulted => exact False.elim meets
    | left e s' =>
      obtain ⟨⟨rfl, code, at_pc⟩, -, guest⟩ := meets
      refine ⟨⟨s', ends.runs, code, at_pc, congrArg View.ofGuest guest⟩, ?_⟩
      rintro _ ⟨s'', run, -⟩
      exact ends.stops s'' run

/-- The guest while AArch64 code runs: its registers are in the cache and the register table. -/
def Aarch64.view (c : Aarch64.RegisterCache) (s : Aarch64.State) : View :=
  ⟨Aarch64.guestValue c s, s.guest.memory⟩

theorem Aarch64.Mirrors.view_eq {b : Aarch64.Block} {c : Aarch64.RegisterCache} {guest : Guest}
    {s : Aarch64.State} (wf : c.WF) (mirrors : Aarch64.Mirrors b c Aarch64.settled (env, guest) s) :
    Aarch64.view c s = .ofGuest guest := by
  unfold Aarch64.view View.ofGuest
  rw [mirrors.memory, show Aarch64.guestValue c s = _ from funext (mirrors.guestValue_eq wf)]

/-- The AArch64 code runs on behind its end. -/
def Aarch64.RunsOn (env : Env) (s : Aarch64.State)
    (o : Emitted Aarch64.Instr Aarch64.PendingExit Aarch64.GenState Bool) (after : View) : Prop :=
  ∃ s', exec (Aarch64.step env) o.code (.running s) = .running s' ∧ Aarch64.view o.state.cache s' = after

/-- The AArch64 code, with that of its exits behind it, returns to the trampoline; the registers
are back in the table. -/
def Aarch64.ReturnsWith (b : Aarch64.Block) (env : Env) (s : Aarch64.State)
    (o : Emitted Aarch64.Instr Aarch64.PendingExit Aarch64.GenState Bool) (reason : ArchExitReason)
    (pc : Word) (after : View) : Prop :=
  ∃ s', exec (Aarch64.step env) (o.code ++ o.exits.flatMap (Aarch64.exitCode b)) (.running s)
      = .left .ret s' ∧
    s'.regs Aarch64.RA.exitReason = reason.code ∧ s'.regs Aarch64.RA.exitPc = pc ∧
    .ofGuest s'.guest = after

theorem Aarch64.makesAccess {g : Aarch64.CodeGenerator} {c : Aarch64.GenState}
    {o : Emitted Aarch64.Instr Aarch64.PendingExit Aarch64.GenState Bool}
    (ran : (g.generateInstruction i).run c = .ok o)
    (shape : InstructionDecoder.ImmediateOf i.type i.b) (access : HasAccess i) (idle : c.cache.Idle)
    {guest : Guest} {s : Aarch64.State}
    (mirrors : Aarch64.Mirrors (g.block env) c.cache Aarch64.settled (env, guest) s)
    (reached : s.guest.memory.Reachable) :
    MakesAccess (g.setting env) g.currentPc i (Aarch64.view c.cache s) (Aarch64.RunsOn env s o)
      (Aarch64.ReturnsWith (g.block env) env s o) := by
  obtain ⟨_, ⟨c', idle', code, exits, ran', -, realizes⟩, -⟩ :=
    Aarch64.compilesTo_effect (g.uses_block env) shape idle
  cases ran.symm.trans ran'
  obtain ⟨ending, ends, meets⟩ := realizes (env, guest) s mirrors
  dsimp only at meets
  have same : (g.block env).setting = g.setting env := rfl
  rw [same] at meets
  rw [mirrors.memory] at reached
  -- the guest's registers are seen through the cache
  rw [mirrors.view_eq idle.wf]
  refine .of_effect Aarch64.a64BackEnd access reached
    (fun g' outcome => ?_) fun reason outcome => ?_
  · rw [outcome] at meets
    cases ending with
    | ran s' => exact ⟨s', ends.runs, Aarch64.Mirrors.view_eq idle'.wf meets⟩
    | left | faulted => exact False.elim meets
  · rw [outcome] at meets
    cases ending with
    | ran | faulted => exact False.elim meets
    | left e s' =>
      obtain ⟨⟨rfl, code, at_pc⟩, -, guest⟩ := meets
      refine ⟨⟨s', ends.runs, code, at_pc, congrArg View.ofGuest guest⟩, ?_⟩
      rintro _ ⟨s'', run, -⟩
      exact ends.stops s'' run

/-- Both back ends' loads and stores are those of the interpreter where the emitted check passes,
and leave the guest alone where it fails. -/
theorem access_matches_step (encoded : BitVec 32) (access : HasAccess (.ofWord encoded)) (env : Env) :
    (∀ (g : X64.CodeGenerator) (n : Nat) (o : Emitted X64.Instr X64.PendingExit Nat Bool)
      (s : X64.State),
      (g.generateInstruction (.ofWord encoded)).run n = .ok o →
      X64.Anchored (g.setting env) g.memory.size env s → s.guest.memory.Reachable →
      MakesAccess (g.setting env) g.currentPc (.ofWord encoded) (.ofGuest s.guest)
        (X64.RunsOn env s o) (X64.ReturnsWith env s o)) ∧
    (∀ (g : Aarch64.CodeGenerator) (c : Aarch64.GenState)
      (o : Emitted Aarch64.Instr Aarch64.PendingExit Aarch64.GenState Bool) (guest : Guest)
      (s : Aarch64.State),
      (g.generateInstruction (.ofWord encoded)).run c = .ok o → c.cache.Idle →
      Aarch64.Mirrors (g.block env) c.cache Aarch64.settled (env, guest) s →
      s.guest.memory.Reachable →
      MakesAccess (g.setting env) g.currentPc (.ofWord encoded) (Aarch64.view c.cache s)
        (Aarch64.RunsOn env s o) (Aarch64.ReturnsWith (g.block env) env s o)) :=
  ⟨fun _ _ _ _ ran anchored reached =>
      X64.makesAccess ran (Instruction.immediateOf_ofWord encoded) access anchored reached,
    fun _ _ _ _ _ ran idle mirrors reached =>
      Aarch64.makesAccess ran (Instruction.immediateOf_ofWord encoded) access idle mirrors reached⟩

/-- `lb x1, 8(x0)` of a byte with its sign set. -/
theorem access_matches_step_lb :
    (∃ env s o after, X64.RunsOn env s o after ∧ after.registers 1 = 0xffffffffffffff80) ∧
      ∃ env s o after, Aarch64.RunsOn env s o after ∧ after.registers 1 = 0xffffffffffffff80 := by
  -- `lb x1, 8(x0)` in front of the byte `0x80`
  let image : List Byte := [0x83, 0x00, 0x80, 0x00, 0, 0, 0, 0, 0x80]
  let memory := Memory.ofImage 16 (by decide) image (MemoryFlags.read ||| MemoryFlags.execute)
  let guest : Guest := ⟨⟨fun _ => 0⟩, memory⟩
  let g : X64.CodeGenerator := ⟨memory, {}, 4, false, 0⟩
  let g' : Aarch64.CodeGenerator := ⟨.plain, memory, {}, 4, false, 0, 0⟩
  let st : Setting := ⟨{}, 4, false, fun _ => 0⟩
  have serves : (Env.placed st).Serves st 16 guest := Env.placed_serves st guest rfl (by decide) (by decide)
  have reached : memory.Reachable := .ofImage (by decide)
  have access : HasAccess (.ofWord 0x00800083) := by
    unfold HasAccess
    decide
  obtain ⟨o, ran⟩ : ∃ o, (g.generateInstruction (.ofWord 0x00800083)).run 0 = .ok o := ⟨_, rfl⟩
  obtain ⟨_, ⟨_, _, _, _, ran', -⟩, -⟩ := Aarch64.compilesTo_effect (g'.uses_block (Env.placed st))
    (Instruction.immediateOf_ofWord 0x00800083) (c := ⟨0, {}⟩) .empty
  obtain ⟨env, s, mirrors, same, -⟩ :=
    Aarch64.exists_mirrors g' guest (fun _ => 0) rfl rfl (by decide) (by decide)
  have x64 := (access_matches_step 0x00800083 access (Env.placed st)).1 g 0 o
    (X64.enter (Env.placed st) guest fun _ => 0) ran (X64.anchored_enter serves fun _ => 0) reached
  have aarch64 := (access_matches_step 0x00800083 access env).2 g' ⟨0, {}⟩ _ guest s ran' .empty mirrors
    (by rw [same]; exact reached)
  rw [mirrors.view_eq Aarch64.RegisterCache.Idle.empty.wf] at aarch64
  have allowed : st.accessAllowed memory 0 MemoryFlags.read 8 = true := by
    unfold Setting.accessAllowed
    decide
  obtain ⟨after, runs, accessed⟩ := x64.passes allowed
  obtain ⟨after', runs', accessed'⟩ := aarch64.passes allowed
  have value : Isa.extended true (bytesAt memory.contents 8 1) = 0xffffffffffffff80 := by decide
  exact ⟨⟨_, _, _, after, runs, (accessed.load 1 rfl).2.trans value⟩,
    _, _, _, after', runs', (accessed'.load 1 rfl).2.trans value⟩

end BackEnds

end Riscv64Emulator.Jit
