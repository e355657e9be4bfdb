import Riscv64Emulator.Jit.GuestStep
import Riscv64Emulator.Lib.LinearCode

/-!
# The x64 host

The part of the x64 instruction set the code generator uses, with the operand forms the
assembler accepts and the effect the architecture manual gives each instruction. Flags an
instruction leaves undefined, and flags no generated code looks at, are `none`; branching
on them faults.
-/
namespace Riscv64Emulator.Jit.X64

open LinearCode

inductive X64R where
  | rax | rbx | rcx | rdx | rsi | rdi | rbp | rsp
  | r8 | r9 | r10 | r11 | r12 | r13 | r14 | r15
deriving DecidableEq, Repr

inductive OperandSize where
  | bits8 | bits16 | bits32 | bits64
deriving DecidableEq, Repr

def OperandSize.bytes : OperandSize → Nat
  | .bits8 => 1
  | .bits16 => 2
  | .bits32 => 4
  | .bits64 => 8

/-- `Memory::base_disp` and `Memory::base_index`. -/
inductive MemoryOperand where
  | baseDisp (base : X64R) (disp : BitVec 32)
  | baseIndex (base index : X64R) (scale : Nat)
deriving DecidableEq, Repr

inductive Operand where
  | reg (r : X64R)
  | mem (m : MemoryOperand)
  | imm (v : Word)
deriving DecidableEq, Repr

inductive AluOp where
  | add | sub | xor | or | and
deriving DecidableEq, Repr

inductive ShiftOp where
  | shl | shr | sar
deriving DecidableEq, Repr

/-- `movsxb`, `movsxw`, `movsxd`, `movzxb`, `movzxw`. -/
inductive Extension where
  | sxb | sxw | sxd | zxb | zxw
deriving DecidableEq, Repr

/-- Condition codes: `nl` is `ge`, `nge` is `l`, `nb` is `ae`, `nae` is `b`, `z` is `e`. -/
inductive Condition where
  | e | ne | l | ge | b | ae
deriving DecidableEq, Repr

inductive Instr where
  | mov (size : OperandSize) (dst src : Operand)
  | alu (op : AluOp) (size : OperandSize) (dst src : Operand)
  | cmp (dst src : Operand)
  | test (dst src : Operand)
  | shift (op : ShiftOp) (dst amount : Operand)
  | extend (ext : Extension) (dst : X64R) (src : Operand)
  | imul (size : OperandSize) (dst src : X64R)
  | cqo (size : OperandSize)
  | div (size : OperandSize) (src : X64R)
  | idiv (size : OperandSize) (src : X64R)
  | setcc (c : Condition) (dst : X64R)
  | jcc (c : Condition) (l : Nat)
  | jmp (l : Nat)
  | jmpReg (r : X64R)
  | ret
deriving DecidableEq, Repr

/-! ### Operand forms -/

/-- The immediates of every instruction but `mov` to a register: 32 bits, sign-extended. -/
def fitsImm32 (v : Word) : Bool := (v.setWidth 32).signExtend 64 == v

def Operand.isMem : Operand → Bool
  | .mem _ => true
  | _ => false

def Operand.isImm : Operand → Bool
  | .imm _ => true
  | _ => false

/-- Two-operand forms: not two memory operands, a destination that is no immediate, a
source immediate of 32 bits. -/
def Operand.pairable (dst src : Operand) : Bool :=
  !dst.isImm && !(dst.isMem && src.isMem) &&
    match src with
    | .imm v => fitsImm32 v
    | _ => true

/-- The operand combinations that exist on the host. -/
def Instr.encodable : Instr → Bool
  | .mov .bits64 (.reg _) (.imm _) => true
  | .mov _ dst src => dst.pairable src
  | .alu _ _ dst src | .cmp dst src | .test dst src => dst.pairable src
  | .shift _ dst (.imm v) => !dst.isImm && decide (v.toNat < 256)
  | .shift _ dst amount => !dst.isImm && amount == .reg .rcx
  | .extend _ _ src => !src.isImm
  | _ => true

/-! ### State -/

structure Flags where
  zf : Bool
  cf : Bool
  sf : Bool
  of : Bool
deriving DecidableEq, Repr

/-- `foreign` marks registers whose value depends on a load that was not guest data. It is
bookkeeping for the sandbox and no instruction reads it. -/
structure State where
  regs : X64R → Word
  foreign : X64R → Bool
  flags : Option Flags
  guest : Guest

/-- How the host code of a block ends: `ret` or an indirect jump. -/
inductive Exit where
  | ret
  | jump (target : Word)
deriving DecidableEq, Repr

namespace State

def setReg (s : State) (r : X64R) (v : Word) (f : Bool) : State :=
  { s with
    regs := fun q => if q = r then v else s.regs q
    foreign := fun q => if q = r then f else s.foreign q }

def setFlags (s : State) (f : Option Flags) : State := { s with flags := f }

def setGuest (s : State) (g : Guest) : State := { s with guest := g }

@[simp] theorem regs_setReg (s : State) (r q : X64R) (v : Word) (f : Bool) :
    (s.setReg r v f).regs q = if q = r then v else s.regs q := rfl
@[simp] theorem foreign_setReg (s : State) (r q : X64R) (v : Word) (f : Bool) :
    (s.setReg r v f).foreign q = if q = r then f else s.foreign q := rfl
@[simp] theorem flags_setReg (s : State) (r : X64R) (v : Word) (f : Bool) :
    (s.setReg r v f).flags = s.flags := rfl
@[simp] theorem guest_setReg (s : State) (r : X64R) (v : Word) (f : Bool) :
    (s.setReg r v f).guest = s.guest := rfl
@[simp] theorem regs_setFlags (s : State) (f : Option Flags) : (s.setFlags f).regs = s.regs := rfl
@[simp] theorem foreign_setFlags (s : State) (f : Option Flags) :
    (s.setFlags f).foreign = s.foreign := rfl
@[simp] theorem flags_setFlags (s : State) (f : Option Flags) : (s.setFlags f).flags = f := rfl
@[simp] theorem guest_setFlags (s : State) (f : Option Flags) :
    (s.setFlags f).guest = s.guest := rfl
@[simp] theorem regs_setGuest (s : State) (g : Guest) : (s.setGuest g).regs = s.regs := rfl
@[simp] theorem foreign_setGuest (s : State) (g : Guest) :
    (s.setGuest g).foreign = s.foreign := rfl
@[simp] theorem flags_setGuest (s : State) (g : Guest) : (s.setGuest g).flags = s.flags := rfl
@[simp] theorem guest_setGuest (s : State) (g : Guest) : (s.setGuest g).guest = g := rfl

@[simp] theorem setReg_setReg (s : State) (r : X64R) (v w : Word) (f f' : Bool) :
    (s.setReg r v f).setReg r w f' = s.setReg r w f' := by
  simp only [setReg, State.mk.injEq, and_true]
  exact ⟨funext fun q => by split <;> rfl, funext fun q => by split <;> rfl⟩

def address (s : State) : MemoryOperand → Word
  | .baseDisp base disp => s.regs base + disp.signExtend 64
  | .baseIndex base index scale => s.regs base + s.regs index * BitVec.ofNat 64 scale

/-- The value of an operand, zero-extended. -/
def read (env : Env) (s : State) (size : OperandSize) : Operand → Option Word
  | .reg r => some (lowBytes size.bytes (s.regs r))
  | .imm v => some (lowBytes size.bytes v)
  | .mem m => env.load s.guest (s.address m) size.bytes

/-- Whether the value of an operand is foreign. -/
def reads (env : Env) (s : State) (size : OperandSize) : Operand → Bool
  | .reg r => s.foreign r
  | .imm _ => false
  | .mem m => env.foreign s.guest (s.address m) size.bytes

/-- A register write: 32-bit results clear the upper half, narrower ones keep the rest. -/
def merge (size : OperandSize) (old v : Word) : Word :=
  match size with
  | .bits64 => v
  | .bits32 => lowBytes 4 v
  | .bits16 => (old &&& ~~~0xffff) ||| lowBytes 2 v
  | .bits8 => (old &&& ~~~0xff) ||| lowBytes 1 v

def write (env : Env) (s : State) (size : OperandSize) (dst : Operand) (v : Word) (f : Bool) :
    Option State :=
  match dst with
  | .reg r =>
    let kept := match size with | .bits64 | .bits32 => false | _ => s.foreign r
    some (s.setReg r (merge size (s.regs r) v) (f || kept))
  | .mem m => (env.store s.guest (s.address m) size.bytes v).map s.setGuest
  | .imm _ => none

end State

/-! ### Instructions -/

/-- The flags of `cmp a, b`. -/
def compareFlags (a b : Word) : Flags where
  zf := a - b == 0
  cf := a.ult b
  sf := (a - b).msb
  of := a.msb != b.msb && (a - b).msb != a.msb

/-- The flags of `test a, b`. -/
def testFlags (a b : Word) : Flags where
  zf := a &&& b == 0
  cf := false
  sf := (a &&& b).msb
  of := false

def Condition.holds (c : Condition) (f : Flags) : Bool :=
  match c with
  | .e => f.zf
  | .ne => !f.zf
  | .l => f.sf != f.of
  | .ge => f.sf == f.of
  | .b => f.cf
  | .ae => !f.cf

def AluOp.apply (op : AluOp) (a b : Word) : Word :=
  match op with
  | .add => a + b
  | .sub => a - b
  | .xor => a ^^^ b
  | .or => a ||| b
  | .and => a &&& b

/-- Shifts of 64-bit operands mask the amount to six bits. -/
def ShiftOp.apply (op : ShiftOp) (a amount : Word) : Word :=
  let n := amount.toNat % 64
  match op with
  | .shl => a <<< n
  | .shr => a >>> n
  | .sar => a.sshiftRight n

def Extension.size : Extension → OperandSize
  | .sxb | .zxb => .bits8
  | .sxw | .zxw => .bits16
  | .sxd => .bits32

def Extension.apply (ext : Extension) (v : Word) : Word :=
  match ext with
  | .sxb => (v.setWidth 8).signExtend 64
  | .sxw => (v.setWidth 16).signExtend 64
  | .sxd => (v.setWidth 32).signExtend 64
  | .zxb | .zxw => v

/-- Quotient and remainder of `div` and `idiv` on an accumulator of `2 * w` bits:
nothing, a `#DE`, for a zero divisor or a quotient that does not fit. -/
def divideUnsigned {w : Nat} (high low divisor : BitVec w) : Option (BitVec w × BitVec w) :=
  let dividend := high.toNat * 2 ^ w + low.toNat
  if divisor = 0 ∨ 2 ^ w ≤ dividend / divisor.toNat then none
  else some (BitVec.ofNat w (dividend / divisor.toNat), BitVec.ofNat w (dividend % divisor.toNat))

def divideSigned {w : Nat} (high low divisor : BitVec w) : Option (BitVec w × BitVec w) :=
  let dividend := high.toInt * 2 ^ w + low.toNat
  let quotient := dividend.tdiv divisor.toInt
  if divisor = 0 ∨ quotient < -2 ^ (w - 1) ∨ 2 ^ (w - 1) ≤ quotient then none
  else some (BitVec.ofInt w quotient, BitVec.ofInt w (dividend.tmod divisor.toInt))

/-- Store a quotient and a remainder, zero-extended, in `rax` and `rdx`. -/
def State.divided {w : Nat} (s : State) (r : X64R) :
    Option (BitVec w × BitVec w) → Effect State Exit
  | none => .fault
  | some (quotient, remainder) =>
    let f := s.foreign .rax || s.foreign .rdx || s.foreign r
    .next (((s.setReg .rax (quotient.setWidth 64) f).setReg .rdx (remainder.setWidth 64) f).setFlags
      none)

def step (env : Env) (i : Instr) (s : State) : Effect State Exit :=
  match i with
  | .mov size dst src =>
    match s.read env size src with
    | none => .fault
    | some v =>
      match s.write env size dst v (s.reads env size src) with
      | none => .fault
      | some s' => .next s'
  | .alu op size dst src =>
    match s.read env size dst, s.read env size src with
    | some a, some b =>
      -- a register combined with itself by `xor` is cleared and no longer foreign
      let f := !(op == .xor && dst == src) &&
        (s.reads env size dst || s.reads env size src)
      match s.write env size dst (op.apply a b) f with
      | none => .fault
      | some s' => .next (s'.setFlags none)
    | _, _ => .fault
  | .cmp dst src =>
    match s.read env .bits64 dst, s.read env .bits64 src with
    | some a, some b => .next (s.setFlags (some (compareFlags a b)))
    | _, _ => .fault
  | .test dst src =>
    match s.read env .bits64 dst, s.read env .bits64 src with
    | some a, some b => .next (s.setFlags (some (testFlags a b)))
    | _, _ => .fault
  | .shift op dst amount =>
    match s.read env .bits64 dst, s.read env .bits64 amount with
    | some a, some n =>
      match s.write env .bits64 dst (op.apply a n)
          (s.reads env .bits64 dst || s.reads env .bits64 amount) with
      | none => .fault
      | some s' => .next (s'.setFlags none)
    | _, _ => .fault
  | .extend ext dst src =>
    match s.read env ext.size src with
    | none => .fault
    | some v => .next (s.setReg dst (ext.apply v) (s.reads env ext.size src))
  | .imul size dst src =>
    let product := s.regs dst * s.regs src
    .next ((s.setReg dst (State.merge size (s.regs dst) product)
      (s.foreign dst || s.foreign src)).setFlags none)
  | .cqo size =>
    match size with
    | .bits32 =>
      let sign := if (s.regs .rax).getLsbD 31 then 0xffffffff else 0
      .next (s.setReg .rdx sign (s.foreign .rax))
    | .bits64 =>
      let sign := if (s.regs .rax).msb then -1 else 0
      .next (s.setReg .rdx sign (s.foreign .rax))
    | _ => .fault
  | .div size src =>
    match size with
    | .bits32 =>
      s.divided src (divideUnsigned ((s.regs .rdx).setWidth 32) ((s.regs .rax).setWidth 32)
        ((s.regs src).setWidth 32))
    | .bits64 => s.divided src (divideUnsigned (s.regs .rdx) (s.regs .rax) (s.regs src))
    | _ => .fault
  | .idiv size src =>
    match size with
    | .bits32 =>
      s.divided src (divideSigned ((s.regs .rdx).setWidth 32) ((s.regs .rax).setWidth 32)
        ((s.regs src).setWidth 32))
    | .bits64 => s.divided src (divideSigned (s.regs .rdx) (s.regs .rax) (s.regs src))
    | _ => .fault
  | .setcc c dst =>
    match s.flags with
    | none => .fault
    | some f =>
      .next (s.setReg dst (State.merge .bits8 (s.regs dst) (if c.holds f then 1 else 0))
        (s.foreign dst))
  | .jcc c l =>
    match s.flags with
    | none => .fault
    | some f => if c.holds f then .jump l s else .next s
  | .jmp l => .jump l s
  | .jmpReg r => .leave (.jump (s.regs r)) s
  | .ret => .leave .ret s

/-! ### The sandbox -/

/-- The accesses an operand makes when it is read or written. -/
def Operand.access (o : Operand) (s : State) (size : OperandSize) (write : Bool) : List Access :=
  match o with
  | .mem m => [⟨write, s.address m, size.bytes⟩]
  | _ => []

@[simp] theorem Operand.access_reg (r : X64R) (s : State) (size : OperandSize) (write : Bool) :
    (Operand.reg r).access s size write = [] := rfl
@[simp] theorem Operand.access_imm (v : Word) (s : State) (size : OperandSize) (write : Bool) :
    (Operand.imm v).access s size write = [] := rfl

/-- The host memory accesses of an instruction. -/
def accesses (i : Instr) (s : State) : List Access :=
  match i with
  | .mov size dst src => src.access s size false ++ dst.access s size true
  | .alu _ size dst src =>
    dst.access s size false ++ src.access s size false ++ dst.access s size true
  | .cmp dst src | .test dst src => dst.access s .bits64 false ++ src.access s .bits64 false
  | .shift _ dst amount =>
    dst.access s .bits64 false ++ amount.access s .bits64 false ++ dst.access s .bits64 true
  | .extend ext _ src => src.access s ext.size false
  | _ => []

/-- Whether an instruction stores a value that is no guest data. -/
def storesForeign (env : Env) (i : Instr) (s : State) : Bool :=
  match i with
  | .mov size dst src => dst.isMem && s.reads env size src
  | .alu _ size dst src => dst.isMem && (s.reads env size dst || s.reads env size src)
  | .shift _ dst amount =>
    dst.isMem && (s.reads env .bits64 dst || s.reads env .bits64 amount)
  | _ => false

/-- An instruction stays in the sandbox: its accesses are permitted and it stores guest
data only. -/
def sandboxed (env : Env) (i : Instr) (s : State) : Bool :=
  (accesses i s).all (env.permits s.guest) && !storesForeign env i s

/-- `sandboxed` as a proposition about executed instructions. -/
def Sandboxed (env : Env) (i : Instr) (s : State) : Prop := sandboxed env i s = true

-- The equations of these definitions are generated once, here, and not again by each of the
-- theorems that are elaborated side by side.
section
attribute [local simp] step accesses storesForeign sandboxed Sandboxed
  State.read State.reads State.write State.merge
end

end Riscv64Emulator.Jit.X64
