import Riscv64Emulator.Lib.Lockstep
import Riscv64Emulator.Vm.Accesses
import Riscv64Emulator.Vm.Encoding
import Riscv64Emulator.Vm.MulDiv
import Riscv64Emulator.Vm.Transfers

/-!
# The machine of the ISA

RV64IM as its manual describes it: 31 registers and a pc, a byte at every address, and an
environment that says which addresses may be read, written and executed. An instruction is what a
word encodes; one that cannot be executed traps.
-/
namespace Riscv64Emulator.Isa

open InstructionDecoder Interpreter

/-- What may be done with a byte. -/
inductive Right where
  | read
  | write
  | execute
deriving DecidableEq, Repr

abbrev Environment := Right → Word → Prop

/-- The state of a hart. Nothing reads or writes `x 0`. -/
@[ext] structure Machine where
  pc : Word
  x : Fin 32 → Word
  memory : Word → Byte

/-- The place of a register among those of the hart. -/
def index (r : Register) : Fin 32 := ⟨r.val % 32, Nat.mod_lt _ (Nat.succ_pos 31)⟩

namespace Machine

variable (m : Machine)

def get (r : Register) : Word := if r = Register.zero then 0 else m.x (index r)

def set (r : Register) (v : Word) : Machine :=
  if r = Register.zero then m else { m with x := fun k => if k = index r then v else m.x k }

def goto (pc : Word) : Machine := { m with pc := pc }

/-- The bytes from an address on. -/
def bytes (a : Word) (n : Nat) : List Byte := (List.range n).map fun k => m.memory (a + BitVec.ofNat 64 k)

/-- The bytes from an address on, replaced by the low ones of a value. -/
def write (a : Word) (n : Nat) (v : Word) : Machine :=
  { m with
    memory := fun b => if (b - a).toNat < n then v.extractLsb' (8 * (b - a).toNat) 8 else m.memory b }

def address (i : Instruction) : Word := m.get i.rs1 + i.imm

/-- Where a jump or a branch goes. -/
def target (i : Instruction) : Word :=
  match i.type with
  | .jal => m.pc + i.imm
  | .jalr => m.address i &&& ~~~1
  | _ => if condition i.type (m.get i.rs1) (m.get i.rs2) then m.pc + i.imm else m.pc + 4

/-- The word at the pc. -/
def word : BitVec 32 := BitVec.ofNat 32 (magnitude (m.bytes m.pc 4))

end Machine

/-- The instruction a word encodes. -/
def Decodes (w : BitVec 32) (i : Instruction) : Prop :=
  ∃ t f ops, format t = some f ∧ encode f ops = some w ∧ i = pack t ops

/-- The instructions for the upper half of a product. -/
def multipliesHigh : InstructionType → Bool
  | .mulh | .mulhu | .mulhsu => true
  | _ => false

/-- What an instruction is there for; every instruction has one kind. -/
inductive Kind where
  | computes
  | multiplies
  | multipliesHigh
  | fence
  | jumps
  | branches
  | loads (n : Nat)
  | stores (n : Nat)
  | ecall
  | ebreak
  | undefined
deriving DecidableEq

def kind : InstructionType → Kind
  | .undefined => .undefined
  | .fence => .fence
  | .ecall => .ecall
  | .ebreak => .ebreak
  | type =>
    if computes type then .computes
    else if multiplies type then .multiplies
    else if multipliesHigh type then .multipliesHigh
    else if links type then .jumps
    else if branches type then .branches
    else
      match loadWidth type, storeWidth type with
      | some n, _ => .loads n
      | _, some n => .stores n
      | _, _ => .undefined

def highProduct (type : InstructionType) (a b : Word) : Word :=
  match type with
  | .mulh => BitVec.ofInt 64 (a.toInt * b.toInt / 2 ^ 64)
  | .mulhsu => BitVec.ofInt 64 (a.toInt * b.toNat / 2 ^ 64)
  | _ => BitVec.ofNat 64 (a.toNat * b.toNat / 2 ^ 64)

/-- The environment grants every byte of a range. -/
def Environment.Grants (env : Environment) (right : Right) (a : Word) (n : Nat) : Prop :=
  ∀ k < n, env right (a + BitVec.ofNat 64 k)

/-- The hart is at an instruction it may execute. -/
structure Fetches (env : Environment) (m : Machine) (i : Instruction) : Prop where
  aligned : m.pc.toNat % 4 = 0
  granted : env.Grants .execute m.pc 4
  decodes : Decodes m.word i

/-- What an instruction makes of the state. -/
inductive Performs (env : Environment) (m : Machine) (i : Instruction) : Machine → Prop
  | computes (kind : kind i.type = .computes) :
      Performs env m i ((m.set i.rd (value i.type m.pc i.imm (m.get i.rs1) (m.get i.rs2))).goto (m.pc + 4))
  | multiplies (kind : kind i.type = .multiplies) :
      Performs env m i ((m.set i.rd (mulDiv i.type (m.get i.rs1) (m.get i.rs2))).goto (m.pc + 4))
  | multipliesHigh (kind : kind i.type = .multipliesHigh) :
      Performs env m i ((m.set i.rd (highProduct i.type (m.get i.rs1) (m.get i.rs2))).goto (m.pc + 4))
  | fence (kind : kind i.type = .fence) : Performs env m i (m.goto (m.pc + 4))
  | jumps (kind : kind i.type = .jumps) : Performs env m i ((m.set i.rd (m.pc + 4)).goto (m.target i))
  | branches (kind : kind i.type = .branches) : Performs env m i (m.goto (m.target i))
  | loads {n} (kind : kind i.type = .loads n) (granted : env.Grants .read (m.address i) n) :
      Performs env m i
        ((m.set i.rd (extended (signedLoad i.type) (m.bytes (m.address i) n))).goto (m.pc + 4))
  | stores {n} (kind : kind i.type = .stores n) (granted : env.Grants .write (m.address i) n) :
      Performs env m i ((m.write (m.address i) n (m.get i.rs2)).goto (m.pc + 4))

inductive Trap where
  | misalignedFetch
  | fetchFault
  | illegalInstruction
  | environmentCall
  | breakpoint
  | loadFault (address : Word)
  | storeFault (address : Word)
deriving DecidableEq, Repr

/-- What an instruction traps with. -/
inductive Refuses (env : Environment) (m : Machine) (i : Instruction) : Trap → Prop
  | environmentCall (kind : kind i.type = .ecall) : Refuses env m i .environmentCall
  | breakpoint (kind : kind i.type = .ebreak) : Refuses env m i .breakpoint
  | loadFault {n} (kind : kind i.type = .loads n) (refused : ¬env.Grants .read (m.address i) n) :
      Refuses env m i (.loadFault (m.address i))
  | storeFault {n} (kind : kind i.type = .stores n) (refused : ¬env.Grants .write (m.address i) n) :
      Refuses env m i (.storeFault (m.address i))

/-- One instruction. -/
def Steps (env : Environment) (m m' : Machine) : Prop := ∃ i, Fetches env m i ∧ Performs env m i m'

/-- What the hart stops at. -/
inductive Traps (env : Environment) (m : Machine) : Trap → Prop
  | misalignedFetch (misaligned : m.pc.toNat % 4 ≠ 0) : Traps env m .misalignedFetch
  | fetchFault (aligned : m.pc.toNat % 4 = 0) (refused : ¬env.Grants .execute m.pc 4) : Traps env m .fetchFault
  | illegalInstruction (aligned : m.pc.toNat % 4 = 0) (granted : env.Grants .execute m.pc 4)
      (unknown : ∀ i, ¬Decodes m.word i) : Traps env m .illegalInstruction
  | refused {i t} (fetches : Fetches env m i) (refuses : Refuses env m i t) : Traps env m t

/-! ### One way to go on -/

section Deterministic

variable {env : Environment} {m m₁ m₂ : Machine} {w : BitVec 32} {i j : Instruction}

/-- A word encodes one instruction at most. -/
theorem Decodes.unique (first : Decodes w i) (second : Decodes w j) : i = j := by
  obtain ⟨t, f, ops, named, encodes, rfl⟩ := first
  obtain ⟨t', f', ops', named', encodes', rfl⟩ := second
  obtain ⟨matched, rfl⟩ := encode_some encodes
  obtain ⟨matched', rfl⟩ := encode_some encodes'
  -- the decoder finds the type, but for `sraiw`, which it never finds
  have missed : ∀ {t f}, format t = some f → Matches w f → t = .sraiw → decode w = undefined := by
    rintro _ f named matched rfl
    cases named
    exact decode_sraiw matched
  have found : ∀ {t f}, format t = some f → Matches w f → t ≠ .sraiw → (decode w).type = t := by
    intro t f named matched known
    rw [decode_matches named matched known, type_pack]
  have differs : ∀ {t f}, format t = some f → Matches w f → t ≠ .sraiw → decode w ≠ undefined := by
    intro t f named matched known same
    have type := found named matched known
    rw [same] at type
    cases type
    cases named
  by_cases sraiw : t = .sraiw
  · by_cases sraiw' : t' = .sraiw
    · subst sraiw sraiw'
      rw [named] at named'
      cases named'
      rfl
    · exact absurd (missed named matched sraiw) (differs named' matched' sraiw')
  · by_cases sraiw' : t' = .sraiw
    · exact absurd (missed named' matched' sraiw') (differs named matched sraiw)
    · rw [← decode_matches named matched sraiw, ← decode_matches named' matched' sraiw']

theorem Fetches.unique (first : Fetches env m i) (second : Fetches env m j) : i = j :=
  first.decodes.unique second.decodes

theorem Performs.unique (first : Performs env m i m₁) (second : Performs env m i m₂) : m₁ = m₂ := by
  cases first <;> cases second <;> simp_all

theorem Refuses.unique {t₁ t₂ : Trap} (first : Refuses env m i t₁) (second : Refuses env m i t₂) : t₁ = t₂ := by
  cases first <;> cases second <;> simp_all

/-- An instruction that traps does nothing else. -/
theorem Refuses.not_performs {t : Trap} (refuses : Refuses env m i t) (performs : Performs env m i m₁) : False := by
  cases refuses <;> cases performs <;> simp_all

theorem Traps.unique {t₁ t₂ : Trap} (first : Traps env m t₁) (second : Traps env m t₂) : t₁ = t₂ := by
  -- each trap denies what the later ones assume
  cases first with
  | misalignedFetch misaligned =>
    cases second with
    | misalignedFetch => rfl
    | fetchFault aligned | illegalInstruction aligned => exact absurd aligned misaligned
    | refused fetches => exact absurd fetches.aligned misaligned
  | fetchFault aligned refused =>
    cases second with
    | misalignedFetch misaligned => exact absurd aligned misaligned
    | fetchFault => rfl
    | illegalInstruction _ granted => exact absurd granted refused
    | refused fetches => exact absurd fetches.granted refused
  | illegalInstruction aligned granted unknown =>
    cases second with
    | misalignedFetch misaligned => exact absurd aligned misaligned
    | fetchFault _ refused => exact absurd granted refused
    | illegalInstruction => rfl
    | refused fetches => exact absurd fetches.decodes (unknown _)
  | refused fetches refuses =>
    cases second with
    | misalignedFetch misaligned => exact absurd fetches.aligned misaligned
    | fetchFault _ refused => exact absurd fetches.granted refused
    | illegalInstruction _ _ unknown => exact absurd fetches.decodes (unknown _)
    | refused fetches' refuses' =>
      cases fetches.unique fetches'
      exact refuses.unique refuses'

/-- The hart goes on in one way, or stops at one trap. -/
theorem deterministic (env : Environment) : Lockstep.Deterministic (Steps env) (Traps env) where
  goes_unique := by
    rintro m m₁ m₂ ⟨i, fetches, first⟩ ⟨j, fetches', second⟩
    cases fetches.unique fetches'
    exact first.unique second
  stops_unique := Traps.unique
  exclusive := by
    rintro m m₁ t traps ⟨i, fetches, performs⟩
    cases traps with
    | misalignedFetch misaligned => exact misaligned fetches.aligned
    | fetchFault _ refused => exact refused fetches.granted
    | illegalInstruction _ _ unknown => exact unknown i fetches.decodes
    | refused fetches' refuses =>
      cases fetches.unique fetches'
      exact refuses.not_performs performs

end Deterministic

end Riscv64Emulator.Isa
