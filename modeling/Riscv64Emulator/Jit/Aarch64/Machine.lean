import Riscv64Emulator.Jit.GuestStep
import Riscv64Emulator.Lib.LinearCode

/-!
# The AArch64 host

The part of the A64 instruction set the code generator uses. Register number 31 reads as
zero and ignores writes; in the immediate forms of `add`, `cmp` and the logical operations
it would be the stack pointer, and the assembler has no such form for it. One assembler
call is one instruction here, also where the assembler emits a short sequence.
-/
namespace Riscv64Emulator.Jit.Aarch64

open LinearCode

/-- `X0` to `X30`, and `Xzr` as number 31. -/
abbrev A64R := Fin 32

namespace A64R

/-- For the literals. -/
instance neZero : NeZero 32 := ⟨by decide⟩

abbrev xzr : A64R := 31

end A64R

/-- The width of an operation: on `X` registers or, after `cast_to_32bit`, on `W` registers. -/
inductive Width where
  | w32 | w64
deriving DecidableEq, Repr

def Width.bits : Width → Nat
  | .w32 => 32
  | .w64 => 64

inductive AluOp where
  | add | sub | eor | orr | and
deriving DecidableEq, Repr

inductive ShiftOp where
  | lsl | lsr | asr
deriving DecidableEq, Repr

/-- `Equal` is `Zero`, `NotEqual` is `NotZero`. -/
inductive Condition where
  | equal | notEqual | less | greaterEqual | unsignedLess | unsignedGreaterEqual
deriving DecidableEq, Repr

inductive AccessSize where
  | byte | half | word | double
deriving DecidableEq, Repr

def AccessSize.bytes : AccessSize → Nat
  | .byte => 1
  | .half => 2
  | .word => 4
  | .double => 8

/-- The second part of an address. -/
inductive Offset where
  | imm (v : Word)
  | reg (r : A64R)
deriving DecidableEq, Repr

inductive Instr where
  | movImm (dst : A64R) (v : Word)
  | mov (dst src : A64R)
  | addImm (dst src : A64R) (v : Word)
  | logicImm (op : AluOp) (dst src : A64R) (v : Word)
  | alu (op : AluOp) (width : Width) (dst a b : A64R)
  | shiftImm (op : ShiftOp) (width : Width) (dst a : A64R) (amount : Nat)
  | shift (op : ShiftOp) (width : Width) (dst a b : A64R)
  | sxtw (dst src : A64R)
  | cmp (width : Width) (a b : A64R)
  | cmpImm (a : A64R) (v : Word)
  | tst (a : A64R) (v : Word)
  | cset (dst : A64R) (c : Condition)
  | mul (width : Width) (dst a b : A64R)
  | div (signed : Bool) (width : Width) (dst a b : A64R)
  | msub (width : Width) (dst a b c : A64R)
  | ldr (size : AccessSize) (signed : Bool) (dst base : A64R) (offset : Offset)
  | ldar (dst base : A64R)
  | str (size : AccessSize) (src base : A64R) (offset : Offset)
  | b (c : Condition) (l : Nat)
  | cbz (r : A64R) (l : Nat)
  | br (r : A64R)
  | ret
deriving DecidableEq, Repr

/-- The forms that exist with these registers and amounts. -/
def Instr.encodable : Instr → Bool
  | .addImm dst src _ => dst != A64R.xzr && src != A64R.xzr
  | .logicImm _ dst _ _ => dst != A64R.xzr
  | .cmpImm a _ => a != A64R.xzr
  | .shiftImm _ width _ _ amount => decide (amount < width.bits)
  | .ldr _ _ _ base _ | .ldar _ base | .str _ _ base _ => base != A64R.xzr
  | _ => true

/-! ### State -/

structure Flags where
  n : Bool
  z : Bool
  c : Bool
  v : Bool
deriving DecidableEq, Repr

/-- `foreign` marks registers whose value depends on a load that was not guest data. It is
bookkeeping for the sandbox and no instruction reads it. -/
structure State where
  regs : A64R → Word
  foreign : A64R → Bool
  flags : Option Flags
  guest : Guest

/-- How the host code of a block ends: `ret` or an indirect jump. -/
inductive Exit where
  | ret
  | jump (target : Word)
deriving DecidableEq, Repr

namespace State

/-- The value of a register operand. -/
def get (s : State) (r : A64R) : Word := if r = A64R.xzr then 0 else s.regs r

/-- Whether the value of a register operand is foreign. -/
def getForeign (s : State) (r : A64R) : Bool := r != A64R.xzr && s.foreign r

def setReg (s : State) (r : A64R) (v : Word) (f : Bool) : State :=
  if r = A64R.xzr then s
  else
    { s with
      regs := fun q => if q = r then v else s.regs q
      foreign := fun q => if q = r then f else s.foreign q }

def setFlags (s : State) (f : Option Flags) : State := { s with flags := f }

def setGuest (s : State) (g : Guest) : State := { s with guest := g }

theorem regs_setReg (s : State) {r : A64R} (real : r ≠ A64R.xzr) (q : A64R) (v : Word) (f : Bool) :
    (s.setReg r v f).regs q = if q = r then v else s.regs q := by
  simp only [setReg, if_neg real]

theorem foreign_setReg (s : State) {r : A64R} (real : r ≠ A64R.xzr) (q : A64R) (v : Word)
    (f : Bool) : (s.setReg r v f).foreign q = if q = r then f else s.foreign q := by
  simp only [setReg, if_neg real]

@[simp] theorem guest_setReg (s : State) (r : A64R) (v : Word) (f : Bool) :
    (s.setReg r v f).guest = s.guest := by
  unfold setReg
  split <;> rfl

@[simp] theorem flags_setReg (s : State) (r : A64R) (v : Word) (f : Bool) :
    (s.setReg r v f).flags = s.flags := by
  unfold setReg
  split <;> rfl

@[simp] theorem regs_setFlags (s : State) (f : Option Flags) : (s.setFlags f).regs = s.regs := rfl
@[simp] theorem foreign_setFlags (s : State) (f : Option Flags) :
    (s.setFlags f).foreign = s.foreign := rfl
@[simp] theorem flags_setFlags (s : State) (f : Option Flags) : (s.setFlags f).flags = f := rfl
@[simp] theorem guest_setFlags (s : State) (f : Option Flags) :
    (s.setFlags f).guest = s.guest := rfl
@[simp] theorem get_setFlags (s : State) (f : Option Flags) (r : A64R) :
    (s.setFlags f).get r = s.get r := rfl
@[simp] theorem getForeign_setFlags (s : State) (f : Option Flags) (r : A64R) :
    (s.setFlags f).getForeign r = s.getForeign r := rfl
@[simp] theorem regs_setGuest (s : State) (g : Guest) : (s.setGuest g).regs = s.regs := rfl
@[simp] theorem foreign_setGuest (s : State) (g : Guest) :
    (s.setGuest g).foreign = s.foreign := rfl
@[simp] theorem flags_setGuest (s : State) (g : Guest) : (s.setGuest g).flags = s.flags := rfl
@[simp] theorem guest_setGuest (s : State) (g : Guest) : (s.setGuest g).guest = g := rfl

theorem get_of_ne (s : State) {r : A64R} (real : r ≠ A64R.xzr) : s.get r = s.regs r := if_neg real

theorem get_setReg (s : State) {r : A64R} (real : r ≠ A64R.xzr) (q : A64R) (v : Word) (f : Bool) :
    (s.setReg r v f).get q = if q = r then v else s.get q := by
  unfold get
  rw [regs_setReg s real]
  by_cases zero : q = A64R.xzr
  · simp [zero, Ne.symm real]
  · simp [zero]

theorem getForeign_setReg (s : State) {r : A64R} (real : r ≠ A64R.xzr) (q : A64R) (v : Word)
    (f : Bool) : (s.setReg r v f).getForeign q = if q = r then f else s.getForeign q := by
  unfold getForeign
  rw [foreign_setReg s real]
  by_cases same : q = r
  · rw [if_pos same, if_pos same, same, bne_iff_ne.mpr real, Bool.true_and]
  · rw [if_neg same, if_neg same]

end State

/-! ### Instructions -/

/-- An operation on registers of a width; 32-bit results clear the upper half. -/
def Width.lift (width : Width) (f : ∀ w, BitVec w → BitVec w → BitVec w) (a b : Word) : Word :=
  match width with
  | .w64 => f 64 a b
  | .w32 => (f 32 (a.setWidth 32) (b.setWidth 32)).setWidth 64

def AluOp.apply (op : AluOp) (w : Nat) (a b : BitVec w) : BitVec w :=
  match op with
  | .add => a + b
  | .sub => a - b
  | .eor => a ^^^ b
  | .orr => a ||| b
  | .and => a &&& b

/-- Shift amounts in a register are taken modulo the width. -/
def ShiftOp.apply (op : ShiftOp) (w : Nat) (a amount : BitVec w) : BitVec w :=
  let n := amount.toNat % w
  match op with
  | .lsl => a <<< n
  | .lsr => a >>> n
  | .asr => a.sshiftRight n

/-- Divisions give zero for a zero divisor, and the dividend for the least number by -1. -/
def divide (signed : Bool) (w : Nat) (a b : BitVec w) : BitVec w :=
  if signed then a.sdiv b else a.udiv b

/-- The flags of a subtraction. -/
def compareFlags {w : Nat} (a b : BitVec w) : Flags where
  n := (a - b).msb
  z := a - b == 0
  c := b.ule a
  v := a.msb != b.msb && (a - b).msb != a.msb

/-- The flags of `tst a, b`. -/
def testFlags (a b : Word) : Flags where
  n := (a &&& b).msb
  z := a &&& b == 0
  c := false
  v := false

def Condition.holds (c : Condition) (f : Flags) : Bool :=
  match c with
  | .equal => f.z
  | .notEqual => !f.z
  | .less => f.n != f.v
  | .greaterEqual => f.n == f.v
  | .unsignedLess => !f.c
  | .unsignedGreaterEqual => f.c

/-- Extend a loaded little-endian number to the register width. -/
def AccessSize.extend (size : AccessSize) (signed : Bool) (v : Word) : Word :=
  if signed then
    match size with
    | .byte => (v.setWidth 8).signExtend 64
    | .half => (v.setWidth 16).signExtend 64
    | .word => (v.setWidth 32).signExtend 64
    | .double => v
  else v

namespace State

def address (s : State) (base : A64R) : Offset → Word
  | .imm v => s.regs base + v
  | .reg r => s.regs base + s.get r

end State

def step (env : Env) (i : Instr) (s : State) : Effect State Exit :=
  -- a result that depends on two registers
  let result (width : Width) (f : ∀ w, BitVec w → BitVec w → BitVec w) (dst a b : A64R) :=
    s.setReg dst (width.lift f (s.get a) (s.get b)) (s.getForeign a || s.getForeign b)
  match i with
  | .movImm dst v => .next (s.setReg dst v false)
  | .mov dst src => .next (s.setReg dst (s.get src) (s.getForeign src))
  | .addImm dst src v => .next (s.setReg dst (s.get src + v) (s.getForeign src))
  | .logicImm op dst src v => .next (s.setReg dst (op.apply 64 (s.get src) v) (s.getForeign src))
  | .alu op width dst a b => .next (result width op.apply dst a b)
  | .shiftImm op width dst a amount =>
    .next (s.setReg dst (width.lift op.apply (s.get a) (BitVec.ofNat 64 amount)) (s.getForeign a))
  | .shift op width dst a b => .next (result width op.apply dst a b)
  | .sxtw dst src => .next (s.setReg dst (signextend32 (s.get src)) (s.getForeign src))
  | .cmp width a b =>
    match width with
    | .w64 => .next (s.setFlags (some (compareFlags (s.get a) (s.get b))))
    | .w32 =>
      .next (s.setFlags (some (compareFlags ((s.get a).setWidth 32) ((s.get b).setWidth 32))))
  | .cmpImm a v => .next (s.setFlags (some (compareFlags (s.get a) v)))
  | .tst a v => .next (s.setFlags (some (testFlags (s.get a) v)))
  | .cset dst c =>
    match s.flags with
    | none => .fault
    | some f => .next (s.setReg dst (if c.holds f then 1 else 0) false)
  | .mul width dst a b => .next (result width (fun _ x y => x * y) dst a b)
  | .div signed width dst a b => .next (result width (divide signed) dst a b)
  | .msub width dst a b c =>
    let product := width.lift (fun _ x y => x * y) (s.get a) (s.get b)
    .next (s.setReg dst (width.lift (fun _ x y => x - y) (s.get c) product)
      (s.getForeign a || s.getForeign b || s.getForeign c))
  | .ldr size signed dst base offset =>
    match env.load s.guest (s.address base offset) size.bytes with
    | none => .fault
    | some v =>
      .next (s.setReg dst (size.extend signed v)
        (env.foreign s.guest (s.address base offset) size.bytes))
  | .ldar dst base =>
    match env.load s.guest (s.regs base) 4 with
    | none => .fault
    | some v => .next (s.setReg dst v (env.foreign s.guest (s.regs base) 4))
  | .str size src base offset =>
    match env.store s.guest (s.address base offset) size.bytes (s.get src) with
    | none => .fault
    | some g => .next (s.setGuest g)
  | .b c l =>
    match s.flags with
    | none => .fault
    | some f => if c.holds f then .jump l s else .next s
  | .cbz r l => if s.get r = 0 then .jump l s else .next s
  | .br r => .leave (.jump (s.get r)) s
  | .ret => .leave .ret s

/-! ### The sandbox -/

/-- The host memory accesses of an instruction. -/
def accesses (i : Instr) (s : State) : List Access :=
  match i with
  | .ldr size _ _ base offset => [⟨false, s.address base offset, size.bytes⟩]
  | .ldar _ base => [⟨false, s.regs base, 4⟩]
  | .str size _ base offset => [⟨true, s.address base offset, size.bytes⟩]
  | _ => []

/-- Whether an instruction stores a value that is no guest data. -/
def storesForeign (i : Instr) (s : State) : Bool :=
  match i with
  | .str _ src _ _ => s.getForeign src
  | _ => false

/-- An instruction stays in the sandbox: its accesses are permitted and it stores guest
data only. -/
def sandboxed (env : Env) (i : Instr) (s : State) : Bool :=
  (accesses i s).all (env.permits s.guest) && !storesForeign i s

/-- `sandboxed` as a proposition about executed instructions. -/
def Sandboxed (env : Env) (i : Instr) (s : State) : Prop := sandboxed env i s = true

-- The equations of these definitions are generated once, here, and not again by each of the
-- theorems that are elaborated side by side.
section
attribute [local simp] step accesses storesForeign sandboxed Sandboxed
end

end Riscv64Emulator.Jit.Aarch64
