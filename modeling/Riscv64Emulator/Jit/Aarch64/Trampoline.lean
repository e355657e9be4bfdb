import Riscv64Emulator.Jit.Aarch64.RegisterCache
import Mathlib.Data.Fintype.Card

/-!
# The registers the trampoline saves

`src/vm/jit/aarch64/Trampoline.cpp`. The trampoline stores the host registers the generated
code uses in pairs on the stack and loads them back in the opposite order. The return
address is one of them, and it also fills up a last pair that has one register only.
-/
namespace Riscv64Emulator.Jit.Aarch64

/-- The registers of the assembler, the stack pointer among them. -/
inductive HostRegister where
  | x (r : A64R)
  | sp
deriving DecidableEq, Repr

/-! ### `RegisterSaver` -/

/-- The last element of `pairs` is the first one here. -/
structure RegisterSaver where
  pairs : List (HostRegister × HostRegister) := []
  alreadyAdded : Finset HostRegister := ∅

/-- The instructions of `push` and `pop`: `stp` with a pre-index and `ldp` with a post-index. -/
inductive StackInstr where
  | stp (a b : HostRegister) (offset : Word)
  | ldp (a b : HostRegister) (offset : Word)
deriving DecidableEq, Repr

namespace RegisterSaver

def fillerReg : HostRegister := .x 30

def push (a b : HostRegister) : StackInstr := .stp a b (-16)

def pop (a b : HostRegister) : StackInstr := .ldp a b 16

def isReservedRegister (reg : HostRegister) : Bool :=
  reg == .x 18 || reg == .x 29 || reg == .x A64R.xzr

def isCalleeSaved : HostRegister → Bool
  | .x r => decide (19 ≤ r.val) && decide (r.val ≤ 28)
  | .sp => false

/-- The last pair is completed if its second register is the filler; otherwise a new one is opened. -/
def pairUp (pairs : List (HostRegister × HostRegister)) (reg : HostRegister) :
    List (HostRegister × HostRegister) :=
  match pairs with
  | (a, b) :: rest => if b = fillerReg then (a, reg) :: rest else (reg, fillerReg) :: (a, b) :: rest
  | [] => [(reg, fillerReg)]

def addAlwaysOne (saver : RegisterSaver) (reg : HostRegister) : Except Abort RegisterSaver :=
  if isReservedRegister reg then .error (.verify "cannot save reserved registers")
  else if reg ∈ saver.alreadyAdded then .ok saver
  else .ok { pairs := pairUp saver.pairs reg, alreadyAdded := insert reg saver.alreadyAdded }

def addOne (saver : RegisterSaver) (reg : HostRegister) : Except Abort RegisterSaver :=
  if isReservedRegister reg then .error (.verify "cannot save reserved registers")
  else if isCalleeSaved reg then saver.addAlwaysOne reg
  else .ok saver

def addAlways (saver : RegisterSaver) (regs : List HostRegister) : Except Abort RegisterSaver :=
  regs.foldlM addAlwaysOne saver

def add (saver : RegisterSaver) (regs : List HostRegister) : Except Abort RegisterSaver :=
  regs.foldlM addOne saver

/-- The constructor: the return address is always stored. -/
def new : Except Abort RegisterSaver := addAlways {} [.x 30]

def save (saver : RegisterSaver) : List StackInstr := saver.pairs.reverse.map fun p => push p.1 p.2

def restore (saver : RegisterSaver) : List StackInstr := saver.pairs.map fun p => pop p.1 p.2

/-- A call of the class. -/
inductive Call where
  | add (regs : List HostRegister)
  | addAlways (regs : List HostRegister)

def perform (saver : RegisterSaver) : Call → Except Abort RegisterSaver
  | .add regs => saver.add regs
  | .addAlways regs => saver.addAlways regs

/-- A new saver after some calls. -/
def build (calls : List Call) : Except Abort RegisterSaver := do
  let saver ← new
  calls.foldlM perform saver

/-- The calls of `generate_trampoline`. -/
def trampolineCalls : List Call :=
  [.add [.x RA.registerState, .x RA.memoryBase, .x RA.permissionsBase, .x RA.memorySize,
      .x RA.blockBase, .x RA.maxExecutablePc, .x RA.codeBase, .x RA.basePc],
    .add [.x RA.a, .x RA.b, .x RA.c],
    .add [.x RA.exitReason, .x RA.exitPc],
    .addAlways [.x RA.a]] ++
  (List.finRange RA.cacheSize).map fun id => .add [.x (RA.cache id)]

/-! ### The list of pairs -/

/-- The elements of the pairs, the one added last first. -/
def elements : List (HostRegister × HostRegister) → List HostRegister
  | [] => []
  | (a, b) :: rest => b :: a :: elements rest

theorem length_elements (pairs : List (HostRegister × HostRegister)) :
    (elements pairs).length = 2 * pairs.length := by
  induction pairs with
  | nil => rfl
  | cons p rest ih =>
    simp only [elements, List.length_cons, ih]
    omega

theorem mem_elements {pairs : List (HostRegister × HostRegister)} {r : HostRegister} :
    r ∈ elements pairs ↔ ∃ p ∈ pairs, r = p.1 ∨ r = p.2 := by
  induction pairs with
  | nil => simp [elements]
  | cons p rest ih =>
    simp only [elements, List.mem_cons, ih, exists_eq_or_imp, or_assoc]
    exact or_left_comm

/-- The registers `order`, each once, stand in the pairs, with the return address in front of them
once more where their number is odd. -/
structure Paired (pairs : List (HostRegister × HostRegister)) (order : List HostRegister) : Prop where
  nodup : order.Nodup
  first : order.getLast? = some fillerReg
  contents : elements pairs = order ∨ elements pairs = fillerReg :: order

section Pairs

variable {pairs : List (HostRegister × HostRegister)} {order : List HostRegister}

/-- The return address was added first, so it is added last only if it is alone. -/
theorem Paired.alone (paired : Paired pairs order) {rest : List HostRegister}
    (again : order = fillerReg :: rest) : rest = [] := by
  obtain ⟨nodup, first, -⟩ := paired
  subst again
  cases rest with
  | nil => rfl
  | cons r rest =>
    rw [List.getLast?_cons_cons] at first
    exact absurd (List.mem_of_getLast? first) (List.nodup_cons.mp nodup).1

theorem Paired.pairUp (paired : Paired pairs order) {reg : HostRegister} (fresh : reg ∉ order) :
    Paired (pairUp pairs reg) (reg :: order) := by
  have nodup : (reg :: order).Nodup := List.nodup_cons.mpr ⟨fresh, paired.nodup⟩
  have nonempty : order ≠ [] := fun empty => by
    have first := paired.first
    rw [empty] at first
    cases first
  have first : (reg :: order).getLast? = some fillerReg := by
    rw [List.getLast?_cons_of_ne_nil nonempty]
    exact paired.first
  cases pairs with
  | nil =>
    rcases paired.contents with whole | whole
    · exact absurd whole.symm nonempty
    · cases whole
  | cons p rest =>
    obtain ⟨a, b⟩ := p
    unfold RegisterSaver.pairUp
    dsimp only
    split
    next filled =>
      subst filled
      refine ⟨nodup, first, .inl ?_⟩
      rcases paired.contents with whole | whole
      · -- a pair of the return address and a later register does not end in the return address
        cases paired.alone whole.symm
      · rw [elements]
        rw [elements, List.cons.injEq] at whole
        rw [whole.2]
    next other =>
      refine ⟨nodup, first, .inr ?_⟩
      rcases paired.contents with whole | whole
      · rw [elements, whole]
      · exact absurd (List.cons.inj whole).1 other

theorem distinct_of_nodup (nodup : (elements pairs).Nodup) : ∀ p ∈ pairs, p.1 ≠ p.2 := by
  induction pairs with
  | nil => exact fun _ member => absurd member List.not_mem_nil
  | cons p rest ih =>
    obtain ⟨apart, others⟩ := List.nodup_cons.mp nodup
    intro q member
    rcases List.mem_cons.mp member with rfl | later
    · exact fun same => apart (same ▸ List.mem_cons_self)
    · exact ih (List.nodup_cons.mp others).2 q later

/-- No pair has one register twice, unless nothing but the return address is saved. -/
theorem Paired.distinct (paired : Paired pairs order) (more : ∃ r ∈ order, r ≠ fillerReg) :
    ∀ p ∈ pairs, p.1 ≠ p.2 := by
  rcases paired.contents with whole | whole
  · exact distinct_of_nodup (whole ▸ paired.nodup)
  · cases pairs with
    | nil => cases whole
    | cons p rest =>
      obtain ⟨a, b⟩ := p
      obtain ⟨rfl, others⟩ := List.cons.inj whole
      have nodup := paired.nodup
      rw [← others] at nodup
      intro q member
      rcases List.mem_cons.mp member with rfl | later
      · -- the first pair holds the filler only where the number of registers is odd
        intro same
        have filler : a = fillerReg := same
        subst filler
        obtain ⟨r, saved, other⟩ := more
        rw [← others, paired.alone others.symm, List.mem_singleton] at saved
        exact other saved
      · exact distinct_of_nodup (List.nodup_cons.mp nodup).2 q later

end Pairs

/-! ### The calls -/

/-- The registers a call is given. -/
def Call.regs : Call → List HostRegister
  | .add regs => regs
  | .addAlways regs => regs

/-- The registers a call saves. -/
def Call.Saves : Call → HostRegister → Prop
  | .add regs, r => r ∈ regs ∧ isCalleeSaved r = true
  | .addAlways regs, r => r ∈ regs

/-- The registers saved after some calls. -/
def Saved (calls : List Call) (r : HostRegister) : Prop :=
  r = fillerReg ∨ ∃ call ∈ calls, call.Saves r

/-- The pairs are those of the registers added. -/
def WF (saver : RegisterSaver) : Prop :=
  ∃ order, Paired saver.pairs order ∧ ∀ r, r ∈ order ↔ r ∈ saver.alreadyAdded

/-- A step that is given `reg` adds it if `kept`. -/
def Adds (kept : HostRegister → Prop) (reg : HostRegister) (saver saver' : RegisterSaver) : Prop :=
  (saver.WF → saver'.WF) ∧ ∀ r, r ∈ saver'.alreadyAdded ↔ r ∈ saver.alreadyAdded ∨ (r = reg ∧ kept r)

theorem adds_addAlwaysOne (saver : RegisterSaver) {reg : HostRegister}
    (usable : isReservedRegister reg = false) :
    ∃ saver', saver.addAlwaysOne reg = .ok saver' ∧ Adds (fun _ => True) reg saver saver' := by
  unfold addAlwaysOne
  rw [if_neg (ne_true_of_eq_false usable)]
  by_cases known : reg ∈ saver.alreadyAdded
  · rw [if_pos known]
    refine ⟨saver, rfl, id, fun r => ⟨.inl, ?_⟩⟩
    rintro (added | ⟨rfl, -⟩)
    · exact added
    · exact known
  · rw [if_neg known]
    refine ⟨_, rfl, fun ⟨order, paired, exact⟩ => ?_, fun r => ?_⟩
    · refine ⟨reg :: order, paired.pairUp fun old => known ((exact reg).mp old), fun r => ?_⟩
      rw [List.mem_cons, Finset.mem_insert, exact]
    · rw [Finset.mem_insert, or_comm, and_true]

theorem adds_addOne (saver : RegisterSaver) {reg : HostRegister}
    (usable : isReservedRegister reg = false) :
    ∃ saver', saver.addOne reg = .ok saver' ∧ Adds (fun r => isCalleeSaved r = true) reg saver saver' := by
  unfold addOne
  rw [if_neg (ne_true_of_eq_false usable)]
  by_cases callee : isCalleeSaved reg = true
  · rw [if_pos callee]
    obtain ⟨saver', ran, keeps, added⟩ := adds_addAlwaysOne saver usable
    refine ⟨saver', ran, keeps, fun r => (added r).trans (or_congr_right ⟨?_, fun both => ⟨both.1, trivial⟩⟩)⟩
    rintro ⟨rfl, -⟩
    exact ⟨rfl, callee⟩
  · rw [if_neg callee]
    refine ⟨saver, rfl, id, fun r => ⟨.inl, ?_⟩⟩
    rintro (added | ⟨rfl, saved⟩)
    · exact added
    · exact absurd saved callee

/-- The registers given to one call, one after the other. -/
theorem adds_foldlM {f : RegisterSaver → HostRegister → Except Abort RegisterSaver}
    {kept : HostRegister → Prop}
    (one : ∀ saver reg, isReservedRegister reg = false →
      ∃ saver', f saver reg = .ok saver' ∧ Adds kept reg saver saver')
    (saver : RegisterSaver) {regs : List HostRegister} (usable : ∀ r ∈ regs, isReservedRegister r = false) :
    ∃ saver', regs.foldlM f saver = .ok saver' ∧ (saver.WF → saver'.WF) ∧
      ∀ r, r ∈ saver'.alreadyAdded ↔ r ∈ saver.alreadyAdded ∨ (r ∈ regs ∧ kept r) := by
  induction regs generalizing saver with
  | nil => exact ⟨saver, rfl, id, fun r => by simp⟩
  | cons reg rest ih =>
    obtain ⟨middle, first, keeps, added⟩ := one saver reg (usable reg List.mem_cons_self)
    obtain ⟨saver', later, keeps', added'⟩ := ih middle fun r member => usable r (List.mem_cons_of_mem _ member)
    refine ⟨saver', ?_, keeps' ∘ keeps, fun r => ?_⟩
    · rw [List.foldlM_cons, first]
      exact later
    · rw [added', added, List.mem_cons, or_assoc, or_and_right]

theorem adds_perform (saver : RegisterSaver) (call : Call)
    (usable : ∀ r ∈ call.regs, isReservedRegister r = false) :
    ∃ saver', saver.perform call = .ok saver' ∧ (saver.WF → saver'.WF) ∧
      ∀ r, r ∈ saver'.alreadyAdded ↔ r ∈ saver.alreadyAdded ∨ call.Saves r := by
  cases call with
  | add regs => exact adds_foldlM (fun saver _ usable => adds_addOne saver usable) saver usable
  | addAlways regs =>
    obtain ⟨saver', ran, keeps, added⟩ :=
      adds_foldlM (fun saver _ usable => adds_addAlwaysOne saver usable) saver usable
    exact ⟨saver', ran, keeps, fun r => by rw [added, and_true]; rfl⟩

/-- A saver that was only given registers it may save. -/
theorem exists_build {calls : List Call}
    (usable : ∀ call ∈ calls, ∀ r ∈ call.regs, isReservedRegister r = false) :
    ∃ saver, build calls = .ok saver ∧ saver.WF ∧ ∀ r, r ∈ saver.alreadyAdded ↔ Saved calls r := by
  have start : ∃ saver, new = .ok saver ∧ saver.WF ∧ ∀ r, r ∈ saver.alreadyAdded ↔ r = fillerReg :=
    ⟨⟨[(fillerReg, fillerReg)], {fillerReg}⟩, rfl,
      ⟨[fillerReg], ⟨List.nodup_singleton _, rfl, .inr rfl⟩, fun r => by simp⟩, fun r => by simp⟩
  obtain ⟨first, made, wf, added⟩ := start
  -- the calls, from any saver: the first one has saved the return address already
  have rest : ∀ saver : RegisterSaver, saver.WF → ∃ saver', calls.foldlM perform saver = .ok saver' ∧
      saver'.WF ∧ ∀ r, r ∈ saver'.alreadyAdded ↔ r ∈ saver.alreadyAdded ∨ ∃ call ∈ calls, call.Saves r := by
    clear made wf added
    induction calls with
    | nil => exact fun saver wf => ⟨saver, rfl, wf, fun r => by simp⟩
    | cons call rest ih =>
      intro saver wf
      obtain ⟨middle, one, keeps, here⟩ := adds_perform saver call (usable call List.mem_cons_self)
      obtain ⟨saver', later, wf', there⟩ :=
        ih (fun c member => usable c (List.mem_cons_of_mem _ member)) middle (keeps wf)
      refine ⟨saver', ?_, wf', fun r => ?_⟩
      · rw [List.foldlM_cons, one]
        exact later
      · simp only [there, here, List.mem_cons, exists_eq_or_imp, or_assoc]
  obtain ⟨saver, ran, wf', whole⟩ := rest first wf
  refine ⟨saver, ?_, wf', fun r => ?_⟩
  · rw [build, made]
    exact ran
  · rw [whole, added]
    rfl

end RegisterSaver

/-! ### The host's stack -/

/-- What `stp` and `ldp` work on. -/
structure HostState where
  regs : A64R → Word
  sp : Word
  memory : Word → Byte

namespace HostState

/-- The value of a register. -/
def value (s : HostState) : HostRegister → Word
  | .x r => s.regs r
  | .sp => s.sp

/-- A register as an operand of a pair: there number 31 is `Xzr`, also when the assembler was
given `Sp`. -/
def operand (s : HostState) : HostRegister → Word
  | .x r => if r = A64R.xzr then 0 else s.regs r
  | .sp => 0

def setOperand (s : HostState) (reg : HostRegister) (v : Word) : HostState :=
  match reg with
  | .x r => if r = A64R.xzr then s else { s with regs := fun q => if q = r then v else s.regs q }
  | .sp => s

end HostState

/-- One instruction; a pair load of one register twice is unpredictable. -/
def StackInstr.step : StackInstr → HostState → Option HostState
  | .stp a b offset, s =>
    let sp := s.sp + offset
    let memory := storeWord (storeWord s.memory sp (s.operand a)) (sp + 8) (s.operand b)
    some { s with sp := sp, memory := memory }
  | .ldp a b offset, s =>
    if a = b then none
    else
      let loaded := (s.setOperand a (loadWord s.memory s.sp)).setOperand b (loadWord s.memory (s.sp + 8))
      some { loaded with sp := s.sp + offset }

/-- Straight-line code. -/
def StackInstr.run : List StackInstr → HostState → Option HostState
  | [], s => some s
  | i :: rest, s => (i.step s).bind (run rest)

namespace StackInstr

open HostState RegisterSaver

theorem run_cons (i : StackInstr) (code : List StackInstr) (s : HostState) :
    run (i :: code) s = (i.step s).bind (run code) := rfl

theorem run_append (code rest : List StackInstr) (s : HostState) :
    run (code ++ rest) s = (run code s).bind (run rest) := by
  induction code generalizing s with
  | nil => rfl
  | cons i code ih =>
    rw [List.cons_append, run_cons, run_cons, Option.bind_assoc]
    exact congrArg _ (funext ih)

/-- What was read from a register as an operand can be put back into it. -/
theorem operand_setOperand (s s₀ : HostState) (a q : HostRegister) :
    (s.setOperand a (s₀.operand a)).operand q = if q = a then s₀.operand a else s.operand q := by
  cases a with
  | sp =>
    cases q with
    | sp => rfl
    | x r => rfl
  | x r =>
    unfold setOperand
    by_cases zero : r = A64R.xzr
    · -- writes to `Xzr` are dropped, and it was read as zero
      simp only [zero, if_true]
      split
      next same => rw [same, operand, operand, if_pos rfl, if_pos rfl]
      next => rfl
    · simp only [zero, if_false]
      cases q with
      | sp => rfl
      | x q =>
        simp only [operand, HostRegister.x.injEq]
        by_cases same : q = r
        · rw [if_pos same, same, if_neg zero, if_neg zero, if_pos rfl]
        · rw [if_neg same, if_neg same]

theorem memory_setOperand (s : HostState) (a : HostRegister) (v : Word) :
    (s.setOperand a v).memory = s.memory := by
  unfold setOperand
  split
  · split <;> rfl
  · rfl

/-- The state after a push. -/
def pushed (p : HostRegister × HostRegister) (s : HostState) : HostState :=
  { s with
    sp := s.sp + -16
    memory := storeWord (storeWord s.memory (s.sp + -16) (s.operand p.1)) (s.sp + -16 + 8) (s.operand p.2) }

section Stack

variable (p : HostRegister × HostRegister) (s : HostState)

theorem step_push : (push p.1 p.2).step s = some (pushed p s) := rfl

theorem operand_pushed (r : HostRegister) : (pushed p s).operand r = s.operand r := by
  cases r <;> simp only [operand, pushed]

/-- A push only writes below the old stack pointer. -/
theorem memory_pushed {k : Nat} (small : k + 16 < 2 ^ 64) :
    (pushed p s).memory (s.sp + BitVec.ofNat 64 k) = s.memory (s.sp + BitVec.ofNat 64 k) := by
  have second : 8 ≤ (s.sp + BitVec.ofNat 64 k - (s.sp + -16 + 8)).toNat := by
    have distance : s.sp + BitVec.ofNat 64 k - (s.sp + -16 + 8) = BitVec.ofNat 64 (k + 8) := by bv_omega
    rw [distance, BitVec.toNat_ofNat]
    omega
  have first : 8 ≤ (s.sp + BitVec.ofNat 64 k - (s.sp + -16)).toNat := by
    have distance : s.sp + BitVec.ofNat 64 k - (s.sp + -16) = BitVec.ofNat 64 (k + 16) := by bv_omega
    rw [distance, BitVec.toNat_ofNat]
    omega
  exact (storeWord_outside _ _ _ second).trans (storeWord_outside _ _ _ first)

theorem loadWord_pushed :
    loadWord (pushed p s).memory (pushed p s).sp = s.operand p.1 ∧
      loadWord (pushed p s).memory ((pushed p s).sp + 8) = s.operand p.2 := by
  refine ⟨?_, loadWord_storeWord _ _ _⟩
  refine (loadWord_congr _ _ _ _ fun k low => ?_).trans
    (loadWord_storeWord s.memory (s.sp + -16) (s.operand p.1))
  refine storeWord_outside _ _ _ ?_
  show 8 ≤ (s.sp + -16 + BitVec.ofNat 64 k - (s.sp + -16 + 8)).toNat
  have distance : s.sp + -16 + BitVec.ofNat 64 k - (s.sp + -16 + 8) = BitVec.ofNat 64 k - 8 := by bv_omega
  rw [distance]
  bv_omega

/-- A pop of what a push stored. -/
theorem step_pop {s₂ : HostState} (distinct : p.1 ≠ p.2) (sp : s₂.sp = (pushed p s).sp)
    (kept : ∀ k < 16, s₂.memory ((pushed p s).sp + BitVec.ofNat 64 k)
      = (pushed p s).memory ((pushed p s).sp + BitVec.ofNat 64 k)) :
    ∃ s₃, (pop p.1 p.2).step s₂ = some s₃ ∧ s₃.sp = s.sp ∧ s₃.memory = s₂.memory ∧
      ∀ r, r = p.1 ∨ r = p.2 ∨ s₂.operand r = s.operand r → s₃.operand r = s.operand r := by
  -- the two words are where the push left them
  obtain ⟨first, second⟩ := loadWord_pushed p s
  have low : loadWord s₂.memory s₂.sp = s.operand p.1 := by
    rw [sp, ← first]
    exact loadWord_congr _ _ _ _ fun k small => kept k (by omega)
  have high : loadWord s₂.memory (s₂.sp + 8) = s.operand p.2 := by
    rw [sp, ← second]
    refine loadWord_congr _ _ _ _ fun k small => ?_
    have place := kept (8 + k) (by omega)
    rwa [BitVec.ofNat_add, ← BitVec.add_assoc] at place
  refine ⟨_, if_neg distinct, ?_, ?_, fun r held => ?_⟩
  · show s₂.sp + 16 = s.sp
    rw [sp]
    show s.sp + -16 + 16 = s.sp
    rw [BitVec.add_assoc, show (-16 + 16 : Word) = 0#64 by decide, BitVec.add_zero]
  · exact (memory_setOperand _ _ _).trans (memory_setOperand _ _ _)
  · show ((s₂.setOperand p.1 (loadWord s₂.memory s₂.sp)).setOperand p.2
      (loadWord s₂.memory (s₂.sp + 8))).operand r = s.operand r
    rw [low, high, operand_setOperand, operand_setOperand]
    split
    next same => rw [same]
    next other =>
      split
      next same => rw [same]
      next other' => exact (held.resolve_left other').resolve_left other

/-- `s₁` is `s` with the registers of `pairs` on the stack: whatever leaves the stack pointer and the
stack above it alone, the pops in the opposite order put the registers back. -/
structure Stacks (pairs : List (HostRegister × HostRegister)) (s₁ : HostState) : Prop where
  sp : s₁.sp + BitVec.ofNat 64 (16 * pairs.length) = s.sp
  above : ∀ k, k + 16 * pairs.length < 2 ^ 64 →
    s₁.memory (s.sp + BitVec.ofNat 64 k) = s.memory (s.sp + BitVec.ofNat 64 k)
  pops : ∀ s₂ : HostState, s₂.sp = s₁.sp →
    (∀ k < 16 * pairs.length, s₂.memory (s₁.sp + BitVec.ofNat 64 k) = s₁.memory (s₁.sp + BitVec.ofNat 64 k)) →
    ∃ s₃, run (pairs.reverse.map fun p => pop p.1 p.2) s₂ = some s₃ ∧ s₃.sp = s.sp ∧
      s₃.memory = s₂.memory ∧ ∀ p ∈ pairs, s₃.operand p.1 = s.operand p.1 ∧ s₃.operand p.2 = s.operand p.2

end Stack

theorem exists_stacks (pairs : List (HostRegister × HostRegister)) (distinct : ∀ p ∈ pairs, p.1 ≠ p.2)
    (small : 16 * pairs.length < 2 ^ 64) (s : HostState) :
    ∃ s₁, run (pairs.map fun p => push p.1 p.2) s = some s₁ ∧ Stacks s pairs s₁ := by
  -- the first pair pushed is popped last, so the induction takes it off at both ends
  induction pairs generalizing s with
  | nil =>
    have none : s.sp + BitVec.ofNat 64 (16 * ([] : List (HostRegister × HostRegister)).length) = s.sp := by
      rw [List.length_nil, Nat.mul_zero, BitVec.add_zero]
    refine ⟨s, rfl, none, fun _ _ => rfl, fun s₂ same _ => ⟨s₂, rfl, same, rfl, ?_⟩⟩
    exact fun _ member => absurd member List.not_mem_nil
  | cons p rest ih =>
    rw [List.length_cons] at small
    obtain ⟨s₁, ran, sp, above, pops⟩ := ih (fun q member => distinct q (List.mem_cons_of_mem _ member))
      (by omega) (pushed p s)
    have place (k : Nat) : (pushed p s).sp + BitVec.ofNat 64 (k + 16) = s.sp + BitVec.ofNat 64 k := by
      show s.sp + -16 + BitVec.ofNat 64 (k + 16) = _
      rw [Nat.add_comm k, BitVec.ofNat_add, ← BitVec.add_assoc, BitVec.add_assoc s.sp,
        show (-16 + BitVec.ofNat 64 16 : Word) = 0#64 by decide, BitVec.add_zero]
    refine ⟨s₁, by rw [List.map_cons, run_cons, step_push, Option.bind_some, ran], ?_, fun k fits => ?_,
      fun s₂ same kept => ?_⟩
    · have whole := place 0
      rw [Nat.zero_add, BitVec.add_zero] at whole
      rw [List.length_cons, Nat.mul_add, BitVec.ofNat_add, ← BitVec.add_assoc, sp]
      exact whole
    · rw [List.length_cons] at fits
      rw [← place, above (k + 16) (by omega), place]
      exact memory_pushed p s (by omega)
    · rw [List.length_cons] at kept
      obtain ⟨s₃, popped, sp₃, memory₃, values⟩ := pops s₂ same fun k low => kept k (by omega)
      -- the registers of `p` lie above those of the others, untouched since the push
      have own : ∀ k < 16, s₃.memory ((pushed p s).sp + BitVec.ofNat 64 k)
          = (pushed p s).memory ((pushed p s).sp + BitVec.ofNat 64 k) := by
        intro k low
        have there := kept (16 * rest.length + k) (by omega)
        rw [BitVec.ofNat_add, ← BitVec.add_assoc, sp] at there
        rw [memory₃, there]
        exact above k (by omega)
      obtain ⟨s₄, last, sp₄, memory₄, held⟩ := step_pop p s (distinct p List.mem_cons_self) sp₃ own
      refine ⟨s₄, ?_, sp₄, memory₄.trans memory₃, fun q member => ?_⟩
      · rw [List.reverse_cons, List.map_append, run_append, popped, Option.bind_some, List.map_cons,
          run_cons, last]
        rfl
      · rcases List.mem_cons.mp member with rfl | later
        · exact ⟨held _ (.inl rfl), held _ (.inr (.inl rfl))⟩
        · obtain ⟨first, second⟩ := values q later
          rw [operand_pushed] at first second
          exact ⟨held _ (.inr (.inr first)), held _ (.inr (.inr second))⟩

end StackInstr

/-! ### The round trip -/

open RegisterSaver StackInstr

/-- `restore` undoes `save`, whatever runs in between, as long as it leaves the stack pointer and the
saved part of the stack alone. -/
def RegisterSaver.RoundTrips (saver : RegisterSaver) (saved : HostRegister → Prop) : Prop :=
  ∀ s : HostState, ∃ s₁, run saver.save s = some s₁ ∧ ∀ s₂ : HostState, s₂.sp = s₁.sp →
    (∀ k < 16 * saver.pairs.length,
      s₂.memory (s₁.sp + BitVec.ofNat 64 k) = s₁.memory (s₁.sp + BitVec.ofNat 64 k)) →
    ∃ s₃, run saver.restore s₂ = some s₃ ∧ s₃.sp = s.sp ∧ ∀ r, saved r → s₃.value r = s.value r

/-- The registers, the stack pointer behind the others. -/
def HostRegister.number : HostRegister → Fin 33
  | .x r => r.castSucc
  | .sp => Fin.last 32

theorem HostRegister.number_injective : Function.Injective number := by
  intro r r' same
  cases r with
  | x q =>
    cases r' with
    | x q' => rw [Fin.castSucc_inj.mp same]
    | sp => exact absurd same (Fin.castSucc_lt_last q).ne
  | sp =>
    cases r' with
    | x q' => exact absurd same.symm (Fin.castSucc_lt_last q').ne
    | sp => rfl

/-- Each register is in the pairs once, the return address perhaps once more to fill the last. -/
def RegisterSaver.HoldsOnce (saver : RegisterSaver) (saved : HostRegister → Prop) : Prop :=
  ∃ order : List HostRegister, order.Nodup ∧ (∀ r, r ∈ order ↔ saved r) ∧
    (elements saver.pairs = order ∨ elements saver.pairs = fillerReg :: order)

theorem RegisterSaver.WF.roundTrips {saver : RegisterSaver} {saved : HostRegister → Prop} (wf : saver.WF)
    (exact : ∀ r, r ∈ saver.alreadyAdded ↔ saved r) (more : ∃ r, saved r ∧ r ≠ fillerReg)
    (usable : ∀ r, saved r → isReservedRegister r = false) : saver.RoundTrips saved := by
  obtain ⟨order, paired, member⟩ := wf
  have distinct := paired.distinct (more.imp fun r both => ⟨(member r).mpr ((exact r).mpr both.1), both.2⟩)
  -- there are only so many registers, so the stack does not run into itself
  have few : (order.map HostRegister.number).length ≤ Fintype.card (Fin 33) :=
    (paired.nodup.map HostRegister.number_injective).length_le_card
  rw [List.length_map, Fintype.card_fin] at few
  have bound : 2 * saver.pairs.length ≤ order.length + 1 := by
    rw [← length_elements]
    rcases paired.contents with whole | whole
    · rw [whole]
      omega
    · rw [whole, List.length_cons]
  intro s
  obtain ⟨s₁, ran, -, -, pops⟩ := exists_stacks saver.pairs.reverse
    (fun p member => distinct p (List.mem_reverse.mp member)) (by rw [List.length_reverse]; omega) s
  rw [List.length_reverse, List.reverse_reverse] at pops
  refine ⟨s₁, ran, fun s₂ same kept => ?_⟩
  obtain ⟨s₃, restored, sp, -, values⟩ := pops s₂ same kept
  refine ⟨s₃, restored, sp, fun r held => ?_⟩
  have inside : r ∈ elements saver.pairs := by
    have added : r ∈ order := (member r).mpr ((exact r).mpr held)
    rcases paired.contents with whole | whole
    · rw [whole]
      exact added
    · rw [whole]
      exact List.mem_cons_of_mem _ added
  obtain ⟨p, pair, place⟩ := mem_elements.mp inside
  obtain ⟨first, second⟩ := values p (List.mem_reverse.mpr pair)
  have operand : s₃.operand r = s.operand r := by
    rcases place with rfl | rfl
    · exact first
    · exact second
  cases r with
  | sp => exact sp
  | x q =>
    have real : q ≠ A64R.xzr := by
      rintro rfl
      exact absurd (usable _ held) (by decide)
    rw [HostState.operand, HostState.operand, if_neg real, if_neg real] at operand
    exact operand

/-- The saver's round trip, for any calls with registers it may save. -/
theorem registerSaver_roundTrips (calls : List Call)
    (usable : ∀ call ∈ calls, ∀ r ∈ call.regs, isReservedRegister r = false)
    (more : ∃ r, Saved calls r ∧ r ≠ fillerReg) :
    ∃ saver, build calls = .ok saver ∧ saver.HoldsOnce (Saved calls) ∧ saver.RoundTrips (Saved calls) := by
  obtain ⟨saver, built, wf, exact⟩ := exists_build usable
  refine ⟨saver, built, ?_, wf.roundTrips exact more fun r saved => ?_⟩
  · obtain ⟨order, paired, member⟩ := wf
    exact ⟨order, paired.nodup, fun r => (member r).trans (exact r), paired.contents⟩
  · rcases saved with rfl | ⟨call, member, saves⟩
    · rfl
    · refine usable call member r ?_
      cases call with
      | add regs => exact saves.1
      | addAlways regs => exact saves

/-- The saver of the trampoline: the return address, the block pointer and the registers the
calling convention wants kept. -/
theorem registerSaver_roundTrips_trampoline : ∃ saver, build trampolineCalls = .ok saver ∧
    saver.HoldsOnce (Saved trampolineCalls) ∧ saver.RoundTrips (Saved trampolineCalls) := by
  refine registerSaver_roundTrips trampolineCalls (by decide) ⟨.x RA.a, .inr ?_, by decide⟩
  exact ⟨.addAlways [.x RA.a], by simp [trampolineCalls], List.mem_singleton_self _⟩

end Riscv64Emulator.Jit.Aarch64
