import Riscv64Emulator.Jit.X64.Control

/-!
# Loads, stores and branches on x64

The code of the instructions that touch memory or the pc has the outcome of the abstract
model. `Emits` describes a generator by what its code does from the states it may be
entered in; its rules put straight-line code and checks in front.
-/
namespace Riscv64Emulator.Jit.X64

open LinearCode CodeGenerator

/-- A generator emits code that has the given outcome from every state with `pre`. -/
def Emits {α : Type} (st : Setting) (size : Word) (x : Gen α) (n : Nat) (a : α)
    (pre : Env → State → Prop) (outcome : State → Outcome) : Prop :=
  ∃ n', Emitter.Emits step Sandboxed exitCode PendingExit.label id x n a n' pre
    fun env s => Meets st size env (outcome s)

section Rules

variable {st : Setting} {size : Word} {α β : Type} {n : Nat} {a : α} {b : β} {x : Gen α}
  {f : α → Gen β} {pre pre₁ pre₂ : Env → State → Prop} {outcome outcome₂ : State → Outcome}

/-- Straight-line code realizes the update it makes. -/
theorem Emits.of_does (update : State → Guest)
    (does : Does x n a n pre fun env s s' => Retires st size (update s) env s') :
    Emits st size x n a pre fun s => .next (update s) := by
  refine ⟨n, (Emitter.Emits.of_straight (Nat.le_refl n) does).conseq (fun _ _ holds => holds) ?_⟩
  rintro env s _ - ⟨s', rfl, retires⟩
  exact retires

theorem Emits.silent (ran : x.run n = .ok ⟨a, [], [], n⟩)
    (rest : Emits st size (f a) n b pre outcome) : Emits st size (x >>= f) n b pre outcome :=
  let ⟨n', emits⟩ := rest
  ⟨n', emits.silent (Nat.le_refl n) ran⟩

/-- Straight-line code in front. -/
theorem Emits.after_does {post₁ : Env → State → State → Prop}
    (first : Does x n a n pre₁ post₁) (second : Emits st size (f a) n b pre₂ outcome₂)
    (enter : ∀ env s, pre env s → pre₁ env s)
    (link : ∀ env s s₁, pre env s → post₁ env s s₁ → pre₂ env s₁ ∧ outcome₂ s₁ = outcome s) :
    Emits st size (x >>= f) n b pre outcome := by
  obtain ⟨n', emits⟩ := second
  refine ⟨n', emits.after_straight bindsOwn_exitCode (Nat.le_refl n) first enter ?_⟩
  intro env s s₁ holds related
  obtain ⟨holds₁, same⟩ := link env s s₁ holds related
  exact ⟨holds₁, fun ending meets => same ▸ meets⟩

/-- A check in front, with the exit for the states it rejects. -/
theorem Emits.after_check {n₁ : Nat} {exit : PendingExit} {cond : Env → State → Prop}
    {post₁ : Env → State → State → Prop}
    (check : Emitter.Guards step Sandboxed x n a n₁ [exit] exit.label pre₁ cond post₁)
    (fresh₁ : n ≤ exit.label ∧ exit.label < n₁)
    (second : Emits st size (f a) n₁ b pre₂ outcome₂)
    (enter : ∀ env s, pre env s → pre₁ env s)
    (accepted : ∀ env s s₁, pre env s → post₁ env s s₁ → cond env s →
      pre₂ env s₁ ∧ outcome₂ s₁ = outcome s)
    (rejected : ∀ env s s₁, pre env s → post₁ env s s₁ → ¬cond env s →
      Anchored st size env s₁ ∧ .depart (.exit exit.reason (exit.pc.read s₁)) s₁.guest = outcome s) :
    Emits st size (x >>= f) n b pre outcome := by
  obtain ⟨n', emits⟩ := second
  refine ⟨n', Emitter.Emits.after_check bindsOwn_exitCode check fresh₁ emits enter ?_ ?_⟩
  · intro env s s₁ holds related goes
    obtain ⟨holds₁, same⟩ := accepted env s s₁ holds related goes
    exact ⟨holds₁, fun ending meets => same ▸ meets⟩
  · intro env s s₁ code holds related stops seeks
    obtain ⟨anchored, same⟩ := rejected env s s₁ holds related stops
    obtain ⟨s₂, leaves, departs⟩ := leaves_pendingExit exit seeks anchored
    exact ⟨.ret, s₂, leaves, same ▸ departs⟩

/-- No code. -/
theorem Emits.unchanged (a : α) (n : Nat) :
    Emits st size (pure a) n a (Anchored st size) fun s => .next s.guest := by
  refine ⟨n, (Emitter.Emits.pure a n).conseq (fun _ _ _ => trivial) ?_⟩
  rintro env s _ anchored rfl
  exact ⟨anchored, rfl⟩

theorem Emits.congr {pre' : Env → State → Prop} {outcome' : State → Outcome}
    (emits : Emits st size x n a pre outcome) (stronger : ∀ env s, pre' env s → pre env s)
    (same : ∀ env s, pre' env s → outcome s = outcome' s) :
    Emits st size x n a pre' outcome' :=
  let ⟨n', emits⟩ := emits
  ⟨n', emits.conseq stronger fun env s _ holds meets => same env s holds ▸ meets⟩

/-- A generator that returns after the code. -/
theorem Emits.returns {x : Gen Unit} (emits : Emits st size x n () pre outcome) (b : β) :
    Emits st size (do x; pure b) n b pre outcome :=
  let ⟨n', emits⟩ := emits
  ⟨n', emits.returns fun _ => b⟩

end Rules

/-! ### Loads and stores -/

section Accesses

variable {st : Setting} {size : Word} {env : Env} {s : State} {i : Instruction}

/-- The host address of the guest address in `RA.a`. -/
theorem address_contents (anchored : Anchored st size env s) :
    s.address (.baseIndex RA.memoryBase RA.a 1) = env.layout.memoryBase + s.regs RA.a := by
  rw [State.address, anchored.memoryBase]
  exact congrArg _ (BitVec.mul_one _)

/-- An instruction that loads a guest value. -/
private def Loads (st : Setting) (size : Word) (type : InstructionType) (j : Instr) : Prop :=
  ∀ env s, Anchored st size env s →
    (s.regs RA.a).toNat + 2 ^ accessLog2 type ≤ s.guest.memory.permissionsOffset →
    Sandboxed env j s ∧
      step env j s = .next (s.setReg RA.b (s.guest.loaded type (s.regs RA.a)) false)

private theorem loads_extend (st : Setting) (size : Word) {type : InstructionType} (ext : Extension)
    (width : ext.size.bytes = 2 ^ accessLog2 type) (apply : ext.apply = extendLoaded type) :
    Loads st size type (.extend ext RA.b (.mem (.baseIndex RA.memoryBase RA.a 1))) := by
  intro env s anchored inside
  have positive := Nat.two_pow_pos (accessLog2 type)
  constructor
  · simp only [Sandboxed, sandboxed, accesses, Operand.access, storesForeign, width,
      address_contents anchored,
      anchored.serves.permits_load_contents (s.regs RA.a) positive inside, List.all_cons,
      List.all_nil, Bool.not_false, Bool.and_self]
  · simp only [step, State.read, State.reads, width, address_contents anchored,
      anchored.serves.load_contents (s.regs RA.a) positive inside,
      anchored.serves.foreign_contents (s.regs RA.a) positive inside, apply, Guest.loaded]

private theorem loads_move (st : Setting) (size : Word) {type : InstructionType} (width : OperandSize)
    (bytes : width.bytes = 2 ^ accessLog2 type) (wide : width = .bits32 ∨ width = .bits64)
    (plain : extendLoaded type = id) :
    Loads st size type (.mov width (.reg RA.b) (.mem (.baseIndex RA.memoryBase RA.a 1))) := by
  intro env s anchored inside
  have positive := Nat.two_pow_pos (accessLog2 type)
  -- a 32 bit move clears the upper half, a 64 bit one replaces it
  have merged : ∀ bs : List Byte, bs.length = width.bytes →
      State.merge width (s.regs RA.b) (leValue bs) = leValue bs := by
    intro bs length
    rcases wide with rfl | rfl
    · exact lowBytes_leValue bs (Nat.le_of_eq length)
    · rfl
  constructor
  · simp only [Sandboxed, sandboxed, accesses, Operand.access, storesForeign, Operand.isMem,
      bytes, address_contents anchored,
      anchored.serves.permits_load_contents (s.regs RA.a) positive inside, List.append_nil,
      List.all_cons, List.all_nil, Bool.false_and, Bool.not_false, Bool.and_self]
  · simp only [step, State.read, State.reads, State.write, bytes, address_contents anchored,
      anchored.serves.load_contents (s.regs RA.a) positive inside,
      anchored.serves.foreign_contents (s.regs RA.a) positive inside, Guest.loaded, plain, id]
    rw [merged _ (by rw [length_bytesAt, bytes])]
    rcases wide with rfl | rfl <;> rfl

private theorem exists_loadInstr (st : Setting) (size : Word) {type : InstructionType}
    (kind : isLoad type = true) :
    ∃ j, loadInstr RA.b (.mem (.baseIndex RA.memoryBase RA.a 1)) type = .ok j ∧
      j.encodable = true ∧ Loads st size type j := by
  cases type <;> try exact absurd kind (by decide)
  case lb => exact ⟨_, rfl, rfl, loads_extend st size .sxb rfl rfl⟩
  case lh => exact ⟨_, rfl, rfl, loads_extend st size .sxw rfl rfl⟩
  case lw => exact ⟨_, rfl, rfl, loads_extend st size .sxd rfl rfl⟩
  case lbu => exact ⟨_, rfl, rfl, loads_extend st size .zxb rfl rfl⟩
  case lhu => exact ⟨_, rfl, rfl, loads_extend st size .zxw rfl rfl⟩
  case ld => exact ⟨_, rfl, rfl, loads_move st size .bits64 rfl (Or.inr rfl) rfl⟩
  case lwu => exact ⟨_, rfl, rfl, loads_move st size .bits32 rfl (Or.inl rfl) rfl⟩

/-- The address of an access, checked, in front of the code that makes it. -/
private theorem emits_checked (g : CodeGenerator) (write : Bool) (flags : st.flags = g.flags)
    (bound : size = g.memory.size) (fits : fitsImm32 g.memory.size = true) {k : Nat} (small : k ≤ 3)
    {rest : Gen Unit} (n : Nat) (update : Word → Guest → Guest)
    (does : ∀ n, Does rest n () n
      (fun env s => Anchored st size env s ∧
        st.accessAllowed s.guest.memory k (accessFlag write) (s.regs RA.a) = true)
      (fun env s s' => Retires st size (update (s.regs RA.a) s.guest) env s')) :
    Emits st size (do
        loadRegister RA.a i.rs1 i.imm
        g.generateValidateMemoryAccess RA.a RA.b RA.c k write
        rest) n () (Anchored st size)
      fun s =>
        let address := s.guest.registers.get i.rs1 + i.imm
        if st.accessAllowed s.guest.memory k (accessFlag write) address then
          .next (update address s.guest)
        else .depart (.exit (accessFault write) g.currentPc) s.guest := by
  have checked : Emits st size (do
        g.generateValidateMemoryAccess RA.a RA.b RA.c k write
        rest) n () (Anchored st size)
      fun s =>
        if st.accessAllowed s.guest.memory k (accessFlag write) (s.regs RA.a) then
          .next (update (s.regs RA.a) s.guest)
        else .depart (.exit (accessFault write) g.currentPc) s.guest := by
    have check := checks_validate g RA.a small write flags bound fits n
    refine Emits.after_check check ⟨Nat.le_refl n, Nat.lt_succ_self n⟩ (.of_does _ (does (n + 1)))
      (fun _ _ holds => holds) ?_ ?_
    · intro env s s₁ anchored disturbs allowed
      -- the check keeps the address
      have kept := (disturbs.2 RA.a (by decide)).1
      rw [disturbs.1, kept, if_pos allowed]
      exact ⟨⟨disturbs.anchored (by decide) anchored, allowed⟩, rfl⟩
    · intro env s s₁ anchored disturbs rejected
      rw [if_neg rejected, disturbs.1]
      exact ⟨disturbs.anchored (by decide) anchored, rfl⟩
  refine Emits.after_does (does_loadRegister st size i.rs1_ne_pc (fitsImm32_imm i) n) checked
    (fun _ _ holds => holds) fun env s s₁ anchored sets => ⟨sets.anchored anchored rfl, ?_⟩
  rw [sets.guest, sets.value]

theorem generateInstruction_load (g : CodeGenerator) (kind : isLoad i.type = true) :
    g.generateInstruction i =
      if i.rd ≠ Register.zero then (do g.generateLoad i; pure true) else pure true := by
  unfold generateInstruction
  cases type : i.type <;> first | rfl | exact absurd (type ▸ kind) (by decide)

theorem generateInstruction_store (g : CodeGenerator) (kind : isStore i.type = true) :
    g.generateInstruction i = (do g.generateStore i; pure true) := by
  unfold generateInstruction
  cases type : i.type <;> first | rfl | exact absurd (type ▸ kind) (by decide)

/-- `generate_instruction` on a load. -/
theorem emits_load (be : BackEnd) (g : CodeGenerator) (kind : isLoad i.type = true)
    (flags : st.flags = g.flags) (bound : size = g.memory.size)
    (fits : i.rd ≠ Register.zero → fitsImm32 g.memory.size = true) (n : Nat) :
    Emits st size (g.generateInstruction i) n true (Anchored st size)
      fun s => effect be st g.currentPc i s.guest := by
  obtain ⟨known, small⟩ := memoryAccessSizeLog2_eq (Or.inl kind)
  obtain ⟨j, chosen, encodable, loads⟩ := exists_loadInstr st size kind
  rw [generateInstruction_load g kind]
  -- a load to register zero emits nothing, not even the check
  by_cases zero : i.rd = Register.zero
  · simp only [zero, ne_eq, not_true_eq_false, if_false]
    refine (Emits.unchanged true n).congr (fun _ _ anchored => anchored) fun env s _ => ?_
    rw [effect_load be st g.currentPc s.guest kind, if_pos zero]
  · simp only [ne_eq, zero, not_false_eq_true, if_true]
    have finish : ∀ n, Does (do ins j; storeRegister i.rd RA.b false) n () n
        (fun env s => Anchored st size env s ∧ st.accessAllowed s.guest.memory
          (accessLog2 i.type) (accessFlag false) (s.regs RA.a) = true)
        (fun env s s' => Retires st size
          (s.guest.setRegister i.rd (s.guest.loaded i.type (s.regs RA.a))) env s') := by
      intro n
      have load : Does (ins j) n () n
          (fun env s => Anchored st size env s ∧ st.accessAllowed s.guest.memory
            (accessLog2 i.type) (accessFlag false) (s.regs RA.a) = true)
          (fun _ s s' => s' = s.setReg RA.b (s.guest.loaded i.type (s.regs RA.a)) false) := by
        refine .instr (run_ins encodable n) fun env s ⟨anchored, allowed⟩ => ?_
        obtain ⟨safe, next⟩ := loads env s anchored (Setting.accessAllowed_inside small allowed)
        exact ⟨safe, _, next, rfl⟩
      refine load.seq (does_storeRegister st size rfl zero i.rd_ne_pc false n)
        (fun _ _ holds => holds) ?_
      rintro env s s₁ ⟨anchored, -⟩ rfl
      exact ⟨⟨anchored.setReg rfl _ _, by simp⟩, fun s₂ retires => by simpa [extended] using retires⟩
    have emits := emits_checked (i := i) g false flags bound (fits zero) small n
      (fun a g => g.setRegister i.rd (g.loaded i.type a)) finish
    refine Emits.returns ?_ true
    unfold generateLoad
    rw [known, chosen]
    simp only [liftExcept_ok_bind]
    refine emits.congr (fun _ _ anchored => anchored) fun env s _ => ?_
    rw [effect_load be st g.currentPc s.guest kind, if_neg zero]
    rfl

/-- The store of a guest value. -/
private theorem does_store (st : Setting) (size : Word) {k : Nat} (small : k ≤ 3) (n : Nat) :
    Does (do
        loadRegister RA.b i.rs2 0
        ins (.mov (operandSizeOf k) (.mem (.baseIndex RA.memoryBase RA.a 1)) (.reg RA.b))) n () n
      (fun env s => Anchored st size env s ∧ st.accessAllowed s.guest.memory k
        (accessFlag true) (s.regs RA.a) = true)
      (fun env s s' => Retires st size
        (s.guest.storeBytes (s.regs RA.a) k (s.guest.registers.get i.rs2)) env s') := by
  have encodable : (Instr.mov (operandSizeOf k) (.mem (.baseIndex RA.memoryBase RA.a 1))
      (.reg RA.b)).encodable = true := by
    rcases (show k = 0 ∨ k = 1 ∨ k = 2 ∨ k = 3 by omega) with rfl | rfl | rfl | rfl <;> rfl
  have store : Does (ins (.mov (operandSizeOf k) (.mem (.baseIndex RA.memoryBase RA.a 1))
      (.reg RA.b))) n () n
      (fun env s => Anchored st size env s ∧ s.foreign RA.b = false ∧
        st.accessAllowed s.guest.memory k (accessFlag true) (s.regs RA.a) = true)
      (fun env s s' => Retires st size
        (s.guest.storeBytes (s.regs RA.a) k (s.regs RA.b)) env s') := by
    refine .instr (run_ins encodable n) fun env s ⟨anchored, native, allowed⟩ => ?_
    have inside := Setting.accessAllowed_inside small allowed
    -- the accepted check is what permits the store
    have writable := (Setting.accessAllowed_iff.mp allowed).2.2
    have permitted := anchored.serves.permits_store_contents (s.regs RA.a)
      (Nat.two_pow_pos k) inside (by simpa [accessFlag] using writable)
    refine ⟨?_, s.setGuest (s.guest.storeBytes (s.regs RA.a) k (s.regs RA.b)), ?_, ?_, rfl⟩
    · simp only [Sandboxed, sandboxed, accesses, Operand.access, storesForeign, Operand.isMem,
        operandSizeOf_bytes small, address_contents anchored, State.reads, native, permitted,
        List.nil_append, List.all_cons, List.all_nil, Bool.and_false, Bool.not_false, Bool.and_self]
    · simp only [step, State.read, State.write, operandSizeOf_bytes small,
        address_contents anchored, anchored.serves.store_contents (s.regs RA.a) k _ inside,
        Option.map_some, Guest.storeBytes, leBytes_lowBytes]
    · exact anchored.setGuest (anchored.serves.storeBytes _ _ _)
  refine (does_loadRegister st size i.rs2_ne_pc (by decide) n).seq store
    (fun _ _ holds => holds.1) ?_
  rintro env s s₁ ⟨anchored, allowed⟩ sets
  have address := (sets.other (q := RA.a) (by decide)).1
  refine ⟨⟨sets.anchored anchored rfl, sets.native, by rwa [sets.guest, address]⟩, fun s₂ retires => ?_⟩
  simpa [sets.guest, sets.value, address] using retires

/-- `generate_instruction` on a store. -/
theorem emits_store (be : BackEnd) (g : CodeGenerator) (kind : isStore i.type = true)
    (flags : st.flags = g.flags) (bound : size = g.memory.size)
    (fits : fitsImm32 g.memory.size = true) (n : Nat) :
    Emits st size (g.generateInstruction i) n true (Anchored st size)
      fun s => effect be st g.currentPc i s.guest := by
  obtain ⟨known, small⟩ := memoryAccessSizeLog2_eq (Or.inr kind)
  have emits := emits_checked (i := i) g true flags bound fits small n
    (fun a g => g.storeBytes a (accessLog2 i.type) (g.registers.get i.rs2))
    (does_store st size small)
  rw [generateInstruction_store g kind]
  refine Emits.returns ?_ true
  unfold generateStore
  rw [known]
  simp only [liftExcept_ok_bind]
  refine emits.congr (fun _ _ anchored => anchored) fun env s _ => ?_
  rw [effect_store be st g.currentPc s.guest kind]
  rfl

end Accesses

/-! ### Jumps, branches and exits -/

section Transfers

variable {st : Setting} {size : Word} {i : Instruction}

theorem emits_staticBranch (g : CodeGenerator) (uses : g.Uses st) (target : Word) (n : Nat) :
    Emits st size (g.generateStaticBranch target RA.a) n () (Anchored st size)
      fun s => st.staticBranch g.currentPc target s.guest := by
  obtain ⟨code, exits, n', ran, terminal, realizes⟩ := staticBranch_realizes g uses target n
  exact ⟨n', code, exits, ran, terminal.freshLabels, realizes⟩

theorem emits_dynamicBranch (g : CodeGenerator) (uses : g.Uses st)
    (fits : fitsImm32 g.maxBlockCount = true) (n : Nat) :
    Emits st size (g.generateDynamicBranch RA.a RA.b) n () (Anchored st size)
      fun s => st.dynamicBranch (s.regs RA.a) s.guest := by
  obtain ⟨code, exits, n', ran, terminal, realizes⟩ := dynamicBranch_realizes g uses fits n
  exact ⟨n', code, exits, ran, terminal.freshLabels, realizes⟩

theorem emits_exit (reason : ArchExitReason) (pc : Word) (n : Nat) :
    Emits st size (generateExit reason (.value pc)) n () (Anchored st size)
      fun s => .depart (.exit reason pc) s.guest :=
  ⟨_, _, _, run_generateExit reason _ n, (Terminal.exit n reason _).freshLabels,
    fun _ _ anchored => realizes_exit anchored reason (.value pc)⟩

/-- The link register is written in front of the jump, and not if it is `x0`. -/
private theorem emits_link {t : X64R} (scratch : isScratch t = true) (pc : Word) {n : Nat}
    {rest : Gen Bool} {b : Bool} {outcome₂ outcome : State → Outcome}
    (jump : Emits st size rest n b (Anchored st size) outcome₂)
    (same : ∀ s s₁, s₁.guest = s.guest.setRegister i.rd (pc + 4) →
      (∀ q, q ≠ t → s₁.regs q = s.regs q) → outcome₂ s₁ = outcome s) :
    Emits st size
      (if i.rd ≠ Register.zero then do storeUimmToRegister i.rd t (pc + 4); rest else rest) n b
      (Anchored st size) outcome := by
  -- linking to register zero is left out
  by_cases zero : i.rd = Register.zero
  · simp only [zero, ne_eq, not_true_eq_false, if_false]
    refine jump.congr (fun _ _ anchored => anchored) fun env s _ => same s s ?_ fun _ _ => rfl
    rw [zero, Guest.setRegister_zero]
  · simp only [ne_eq, zero, not_false_eq_true, if_true]
    refine Emits.after_does (does_storeImmToRegister st size scratch i.rd_ne_pc (pc + 4) n) jump
      (fun _ _ holds => holds) ?_
    rintro env s s₁ - ⟨retires, kept⟩
    exact ⟨retires.anchored, same s s₁ retires.guest fun q other => (kept q other).1⟩

theorem generateInstruction_jal (g : CodeGenerator) (kind : i.type = .jal) :
    g.generateInstruction i =
      if i.rd ≠ Register.zero then do
        storeUimmToRegister i.rd RA.a (g.currentPc + 4)
        g.generateStaticBranch (g.currentPc + i.imm) RA.a
        pure false
      else (do
        g.generateStaticBranch (g.currentPc + i.imm) RA.a
        pure false) := by
  simp only [generateInstruction, kind]

theorem emits_jal (be : BackEnd) (g : CodeGenerator) (kind : i.type = .jal) (uses : g.Uses st)
    (n : Nat) :
    Emits st size (g.generateInstruction i) n false (Anchored st size)
      fun s => effect be st g.currentPc i s.guest := by
  rw [generateInstruction_jal g kind]
  refine emits_link rfl g.currentPc
    ((emits_staticBranch g uses (g.currentPc + i.imm) n).returns false) ?_
  intro s s₁ guest _
  rw [guest]
  simp only [effect, kind]

theorem generateInstruction_jalr (g : CodeGenerator) (kind : i.type = .jalr) :
    g.generateInstruction i =
      loadRegister RA.a i.rs1 i.imm >>= fun _ =>
        if i.rd ≠ Register.zero then do
          storeUimmToRegister i.rd RA.b (g.currentPc + 4)
          g.generateDynamicBranch RA.a RA.b
          pure false
        else (do
          g.generateDynamicBranch RA.a RA.b
          pure false) := by
  simp only [generateInstruction, kind]

theorem emits_jalr (be : BackEnd) (g : CodeGenerator) (kind : i.type = .jalr) (uses : g.Uses st)
    (fits : fitsImm32 g.maxBlockCount = true) (n : Nat) :
    Emits st size (g.generateInstruction i) n false (Anchored st size)
      fun s => effect be st g.currentPc i s.guest := by
  have linked : Emits st size
      (if i.rd ≠ Register.zero then do
        storeUimmToRegister i.rd RA.b (g.currentPc + 4)
        g.generateDynamicBranch RA.a RA.b
        pure false
      else do
        g.generateDynamicBranch RA.a RA.b
        pure false) n false (Anchored st size)
      fun s => st.dynamicBranch (s.regs RA.a) (s.guest.setRegister i.rd (g.currentPc + 4)) := by
    refine emits_link rfl g.currentPc ((emits_dynamicBranch g uses fits n).returns false) ?_
    intro s s₁ guest kept
    -- the link goes through the other register, so the target read before survives
    rw [guest, kept RA.a (by decide)]
  rw [generateInstruction_jalr g kind]
  refine Emits.after_does (does_loadRegister st size i.rs1_ne_pc (fitsImm32_imm i) n) linked
    (fun _ _ holds => holds) ?_
  rintro env s s₁ anchored sets
  refine ⟨sets.anchored anchored rfl, ?_⟩
  rw [sets.guest, sets.value]
  simp only [effect, kind]

/-- The code branches over the jump exactly when the branch is not taken. -/
theorem holds_fallthroughCondition {type : InstructionType} (kind : isBranch type = true) :
    ∃ c, fallthroughCondition type = .ok c ∧
      ∀ a b, c.holds (compareFlags a b) = !branchCondition type a b := by
  have less : ∀ a b : Word, Condition.ge.holds (compareFlags a b) = !a.slt b := fun a b => by
    rw [← holds_l]
    exact (Bool.not_not _).symm
  have signed : ∀ a b : Word, a.slt b = !b.sle a := fun a b => by
    rw [BitVec.sle_eq_not_slt, Bool.not_not]
  have unsigned : ∀ a b : Word, a.ult b = !b.ule a := fun a b => by
    rw [BitVec.ule_eq_not_ult, Bool.not_not]
  -- the code jumps over the branch, so each condition is the opposite one
  cases type <;> try exact absurd kind (by decide)
  case beq => exact ⟨_, rfl, holds_ne⟩
  case bne => exact ⟨_, rfl, fun a b => by rw [holds_e]; simp [branchCondition, bne]⟩
  case blt => exact ⟨_, rfl, less⟩
  case bge => exact ⟨_, rfl, fun a b => by rw [holds_l, signed]; rfl⟩
  case bltu => exact ⟨_, rfl, fun a b => rfl⟩
  case bgeu => exact ⟨_, rfl, fun a b => by rw [holds_b, unsigned]; rfl⟩

/-- The jump over a branch that is not taken, and the label it jumps to. -/
private theorem emits_guarded_branch (g : CodeGenerator) (uses : g.Uses st) (target : Word)
    (c : Condition) (flags : State → Flags) (n : Nat) :
    Emits st size
      (do
        let fallthrough ← allocateLabel
        ins (.jcc c fallthrough)
        g.generateStaticBranch target RA.a
        insertLabel fallthrough
        pure true) n true
      (fun env s => Anchored st size env s ∧ s.flags = some (flags s))
      fun s =>
        if c.holds (flags s) then .next s.guest
        else st.staticBranch g.currentPc target s.guest := by
  obtain ⟨code, exits, n', ran, terminal, realizes⟩ :=
    @staticBranch_realizes st size g uses target (n + 1)
  have grows := terminal.grows
  have fresh : FreshLabels PendingExit.label n (.instr (.jcc c n) :: (code ++ [.label n])) exits n' := by
    refine ⟨by omega, ?_, fun exit member => ?_⟩
    · simp only [binds_instr, binds_append, terminal.free, binds_label, binds_nil,
        List.nil_append, List.mem_singleton, forall_eq]
      omega
    · have own := terminal.fresh exit member
      omega
  refine ⟨n', _, exits, ?_, fresh, fun env s ⟨anchored, known⟩ => ?_⟩
  · rw [Emitter.run_bind_of_ok (run_allocateLabel n)]
    dsimp only
    rw [Emitter.run_bind_of_ok (run_ins rfl (n + 1)), Emitter.run_bind_of_ok ran,
      Emitter.run_bind_of_ok (run_insertLabel n n')]
    simp
  · have safe : Sandboxed env (.jcc c n) s := by
      simp [Sandboxed, sandboxed, accesses, storesForeign]
    -- the fallthrough label is skipped to, or the branch leaves before it
    cases jumps : c.holds (flags s) with
    | true =>
      have seeks : Seeks (step env) (Sandboxed env) (.instr (.jcc c n) :: code) n s s :=
        .jump safe (by simp only [step, known, jumps, if_true])
          (by rw [terminal.free]; exact List.not_mem_nil)
      simp only [jumps, if_true]
      exact ⟨.ran s, seeks.arrive, anchored, rfl⟩
    | false =>
      have passes : Continues (step env) (Sandboxed env) [.instr (.jcc c n)] s s :=
        .cons safe (by simp only [step, known, jumps, Bool.false_eq_true, if_false]) (.nil s)
      have branch := (realizes env s anchored).labeled bindsOwn_exitCode (l := n) fun exit member same => by
        have own := terminal.fresh exit member
        omega
      simp only [jumps, Bool.false_eq_true, if_false]
      exact branch.after bindsOwn_exitCode passes

theorem generateInstruction_branch (g : CodeGenerator) (kind : isBranch i.type = true) :
    g.generateInstruction i =
      (do
        loadRegister RA.a i.rs1 0
        ins (.cmp (.reg RA.a) (← registerOperandOrZero i.rs2))
        let fallthrough ← allocateLabel
        ins (.jcc (← liftExcept (fallthroughCondition i.type)) fallthrough)
        g.generateStaticBranch (g.currentPc + i.imm) RA.a
        insertLabel fallthrough
        pure true) := by
  unfold generateInstruction
  cases type : i.type <;> first | rfl | exact absurd (type ▸ kind) (by decide)

theorem emits_branch (be : BackEnd) (g : CodeGenerator) (kind : isBranch i.type = true)
    (uses : g.Uses st) (n : Nat) :
    Emits st size (g.generateInstruction i) n true (Anchored st size)
      fun s => effect be st g.currentPc i s.guest := by
  obtain ⟨c, chosen, holds⟩ := holds_fallthroughCondition kind
  rw [generateInstruction_branch g kind, chosen]
  simp only [liftExcept_ok_bind]
  let flags : State → Flags := fun s =>
    compareFlags (s.guest.registers.get i.rs1) (s.guest.registers.get i.rs2)
  -- `cmp rs1, rs2` sets the flags the condition is read from
  have compare : Does (ins (.cmp (.reg RA.a) (slotOrZero i.rs2))) n () n
      (fun env s => Anchored st size env s ∧ s.foreign RA.a = false ∧
        s.regs RA.a = s.guest.registers.get i.rs1)
      (fun _ s s' => s' = s.setFlags (some (flags s))) := by
    refine .instr (run_ins (encodable_cmp_slotOrZero RA.a i.rs2) n)
      fun env s ⟨anchored, native, value⟩ => ?_
    obtain ⟨safe, next⟩ :=
      step_cmp (yields_reg env native) (yields_slotOrZero anchored i.rs2_ne_pc)
    exact ⟨safe, _, next, by rw [value]⟩
  -- behind it the jump around the exit is the branch that is not taken
  have branch : Emits st size (ins (.cmp (.reg RA.a) (slotOrZero i.rs2)) >>= fun _ => do
        let fallthrough ← allocateLabel
        ins (.jcc c fallthrough)
        g.generateStaticBranch (g.currentPc + i.imm) RA.a
        insertLabel fallthrough
        pure true) n true
      (fun env s => Anchored st size env s ∧ s.foreign RA.a = false ∧
        s.regs RA.a = s.guest.registers.get i.rs1)
      fun s => effect be st g.currentPc i s.guest := by
    refine Emits.after_does compare (emits_guarded_branch g uses (g.currentPc + i.imm) c flags n)
      (fun _ _ holds => holds) ?_
    rintro env s s₁ ⟨anchored, -, -⟩ rfl
    refine ⟨⟨anchored.setFlags _, rfl⟩, ?_⟩
    rw [effect_branch be st g.currentPc s.guest kind]
    simp only [flags, State.guest_setFlags, holds]
    cases branchCondition i.type (s.guest.registers.get i.rs1) (s.guest.registers.get i.rs2) <;> rfl
  refine Emits.after_does (does_loadRegister st size i.rs1_ne_pc (by decide) n)
    (.silent (run_registerOperandOrZero i.rs2_ne_pc n) branch) (fun _ _ holds => holds) ?_
  rintro env s s₁ anchored sets
  refine ⟨⟨sets.anchored anchored rfl, sets.native, ?_⟩, by rw [sets.guest]⟩
  rw [sets.guest, sets.value]
  exact BitVec.add_zero _

theorem generateInstruction_exit (g : CodeGenerator) {reason : ArchExitReason}
    (kind : exitReason i.type = some reason) :
    g.generateInstruction i = (do generateExit reason (.value g.currentPc); pure false) := by
  unfold generateInstruction
  cases type : i.type <;> simp only [type, exitReason, Option.some.injEq, reduceCtorEq] at kind <;>
    subst kind <;> rfl

theorem emits_exitReason (be : BackEnd) (g : CodeGenerator) {reason : ArchExitReason}
    (kind : exitReason i.type = some reason) (n : Nat) :
    Emits st size (g.generateInstruction i) n false (Anchored st size)
      fun s => effect be st g.currentPc i s.guest := by
  rw [generateInstruction_exit g kind]
  refine ((emits_exit reason g.currentPc n).returns false).congr (fun _ _ anchored => anchored) ?_
  intro env s _
  rw [effect_exit be st g.currentPc s.guest kind]

theorem generateInstruction_fence (g : CodeGenerator) (kind : i.type = .fence) :
    g.generateInstruction i = pure true := by
  simp only [generateInstruction, kind]

theorem emits_fence (be : BackEnd) (g : CodeGenerator) (kind : i.type = .fence) (n : Nat) :
    Emits st size (g.generateInstruction i) n true (Anchored st size)
      fun s => effect be st g.currentPc i s.guest := by
  rw [generateInstruction_fence g kind]
  refine (Emits.unchanged true n).congr (fun _ _ anchored => anchored) fun env s _ => ?_
  simp only [effect, kind]

end Transfers

end Riscv64Emulator.Jit.X64
