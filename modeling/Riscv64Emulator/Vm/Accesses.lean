import Riscv64Emulator.Vm.Steps

/-!
# Loads and stores of the interpreter

A load extends the number its bytes spell, a store replaces its bytes and no others, and both
succeed exactly where the memory ends behind them and grants every byte.
-/
namespace Riscv64Emulator

namespace Isa

/-- The number bytes spell, the lowest first. -/
def magnitude : List Byte → Nat
  | [] => 0
  | b :: bs => b.toNat + 256 * magnitude bs

/-- The number in the width of a register: with its sign, or with zeros above it. -/
def extended (signed : Bool) (bs : List Byte) : Word :=
  if signed ∧ 2 ^ (8 * bs.length) ≤ 2 * magnitude bs then
    BitVec.ofInt 64 ((magnitude bs : Int) - (2 ^ (8 * bs.length) : Nat))
  else BitVec.ofNat 64 (magnitude bs)

/-- The loads that extend the sign. -/
def signedLoad : InstructionType → Bool
  | .lb | .lh | .lw | .ld => true
  | _ => false

/-- The low `n` bytes of a value, in the width of a register. -/
def truncated (signed : Bool) (n : Nat) (v : Word) : Word :=
  if signed then (v.setWidth (8 * n)).signExtend 64 else (v.setWidth (8 * n)).setWidth 64

end Isa

namespace Interpreter

/-- The bytes of an access are in the memory and carry the permission. -/
def Accessible (m : Memory) (flag : MemoryFlags) (address : Word) (n : Nat) : Prop :=
  address.toNat + n ≤ m.size.toNat ∧ ∀ k < n, m.permissions (address.toNat + k) &&& flag = flag

/-- The memory `m'` is `m` with the low `n` bytes of a value at an address. -/
structure StoredIn (m m' : Memory) (address : Word) (n : Nat) (value : Word) : Prop where
  size : m'.size = m.size
  contents : ∀ j < m.permissionsOffset, m'.contents j =
    if address.toNat ≤ j ∧ j < address.toNat + n then
      value.extractLsb' (8 * (j - address.toNat)) 8
    else m.contents j
  permissions : ∀ j, m'.permissions j = m.permissions j

/-- What a step at a load or store does. -/
structure AccessesAsIsa (s : VmState) (i : Instruction) : Prop where
  /-- A load gives `rd` the extended number, or reports the address. -/
  load : ∀ n, loadWidth i.type = some n →
    (Accessible s.memory MemoryFlags.read (accessAddress s i) n ∧
      step s = .ok (true, retire s (s.cpu.set i.rd (Isa.extended (Isa.signedLoad i.type)
        (bytesAt s.memory.contents (accessAddress s i).toNat n))))) ∨
    (¬Accessible s.memory MemoryFlags.read (accessAddress s i) n ∧
      step s = .ok (false, { s with exit := ⟨.memoryReadFault, accessAddress s i, i.rd⟩ }))
  /-- A store replaces its bytes, or reports the address. -/
  store : ∀ n, storeWidth i.type = some n →
    (Accessible s.memory MemoryFlags.write (accessAddress s i) n ∧ ∃ memory,
      StoredIn s.memory memory (accessAddress s i) n (s.cpu.get i.rs2) ∧
      step s = .ok (true, { retire s s.cpu with memory })) ∨
    (¬Accessible s.memory MemoryFlags.write (accessAddress s i) n ∧
      step s = .ok (false, { s with exit := ⟨.memoryWriteFault, accessAddress s i, i.rs2⟩ }))
  /-- A load behind a store of its width at its address gives what was stored. -/
  roundTrip : ∀ n t, storeWidth i.type = some n → step s = .ok (true, t) →
    ∀ t' i' u, t'.memory = t.memory → fetched t' = some i' → loadWidth i'.type = some n →
      accessAddress t' i' = accessAddress s i → step t' = .ok (true, u) → i'.rd ≠ Register.zero →
      u.cpu.get i'.rd = Isa.truncated (Isa.signedLoad i'.type) n (s.cpu.get i.rs2)

section Accesses

variable {s t u : VmState} {i i' : Instruction} {m : Memory} {address : Word} {n : Nat}

theorem leValue_toNat (bs : List Byte) (short : bs.length ≤ 8) :
    (leValue bs).toNat = Isa.magnitude bs := by
  induction bs with
  | nil => rfl
  | cons b bs ih =>
    have tail := ih (by simp only [List.length_cons] at short; omega)
    have small := leValue_lt bs
    -- the tail shifted by a byte still fits the word, as there are at most eight bytes
    have power : 2 ^ (8 * bs.length) ≤ 2 ^ 56 :=
      Nat.pow_le_pow_right (by decide) (by simp only [List.length_cons] at short; omega)
    have byte := b.isLt
    rw [leValue, Isa.magnitude, ← tail, BitVec.toNat_or, BitVec.toNat_shiftLeft, BitVec.toNat_setWidth,
      Nat.shiftLeft_eq, Nat.mod_eq_of_lt (a := _ * _) (by omega), Nat.mod_eq_of_lt (a := b.toNat) (by omega)]
    have disjoint := Nat.two_pow_add_eq_or_of_lt (i := 8) byte (leValue bs).toNat
    rw [Nat.mul_comm _ (2 ^ 8), ← disjoint]
    omega

theorem signExtend_leValue (bs : List Byte) (short : bs.length ≤ 8) :
    ((leValue bs).setWidth (8 * bs.length)).signExtend 64 = Isa.extended true bs := by
  have value := leValue_toNat bs short
  have small := leValue_lt bs
  have whole : ((leValue bs).setWidth (8 * bs.length)).toNat = Isa.magnitude bs := by
    rw [BitVec.toNat_setWidth, Nat.mod_eq_of_lt small, value]
  unfold Isa.extended BitVec.signExtend
  rw [BitVec.toInt_eq_toNat_cond, whole]
  by_cases positive : 2 * Isa.magnitude bs < 2 ^ (8 * bs.length)
  · rw [if_pos positive, if_neg (by omega)]
    rfl
  · rw [if_neg positive, if_pos ⟨rfl, by omega⟩]

theorem leValue_extended (bs : List Byte) (short : bs.length ≤ 8) :
    leValue bs = Isa.extended false bs := by
  unfold Isa.extended
  rw [if_neg (by simp), ← leValue_toNat bs short, BitVec.ofNat_toNat, BitVec.setWidth_eq]

/-- A load extends as the ISA says. -/
theorem extendRead_extended {type : InstructionType} (width : loadWidth type = some n) (bs : List Byte)
    (length : bs.length = n) :
    extendRead type n (leValue bs) = Isa.extended (Isa.signedLoad type) bs := by
  have short : bs.length ≤ 8 := by
    have bound := (loadWidth_le width).2
    omega
  have signed := signExtend_leValue bs short
  have unsigned := leValue_extended bs short
  rw [length] at signed
  cases type <;> first | (cases width; done) | exact signed | exact unsigned

/-- In a memory of at most `2 ^ 63` bytes `verify_permissions` is exact. -/
theorem verifyPermissions_accessible (moderate : m.size.toNat ≤ 2 ^ 63) (short : n ≤ 8) (flag : MemoryFlags) :
    m.verifyPermissions address (BitVec.ofNat 64 n) flag = true ↔ Accessible m flag address n := by
  have length : (BitVec.ofNat 64 n).toNat = n := by
    rw [BitVec.toNat_ofNat]
    omega
  constructor
  · intro verified
    exact ⟨(grants_of_verifyPermissions moderate short verified).1, fun k below =>
      ((grants_of_verifyPermissions moderate short verified).2 k below).2⟩
  · rintro ⟨inside, granted⟩
    refine Memory.verifyPermissions_iff.mpr ⟨?_, by rw [length]; exact granted⟩
    rw [Memory.outOfRange_eq_false (by omega), length]
    exact inside

theorem step_load (fetch : fetched s = some i) (moderate : s.memory.size.toNat ≤ 2 ^ 63)
    (width : loadWidth i.type = some n) :
    (Accessible s.memory MemoryFlags.read (accessAddress s i) n ∧
      step s = .ok (true, retire s (s.cpu.set i.rd (Isa.extended (Isa.signedLoad i.type)
        (bytesAt s.memory.contents (accessAddress s i).toNat n))))) ∨
    (¬Accessible s.memory MemoryFlags.read (accessAddress s i) n ∧
      step s = .ok (false, { s with exit := ⟨.memoryReadFault, accessAddress s i, i.rd⟩ })) := by
  have short := (loadWidth_le width).2
  have value := extendRead_extended width (bytesAt s.memory.contents (accessAddress s i).toNat n)
    (length_bytesAt _ _ _)
  rw [← verifyPermissions_accessible moderate short, step_of_fetched fetch,
    execute_load s.cpu.pc width, Memory.readT_eq _ _ _ _ (by omega), ← value]
  -- a refused load leaves everything but the exit as it was
  by_cases verified : s.memory.verifyPermissions (accessAddress s i) (BitVec.ofNat 64 n)
      MemoryFlags.read = true
  · rw [if_pos verified]
    exact .inl ⟨verified, rfl⟩
  · rw [if_neg verified]
    exact .inr ⟨verified, rfl⟩

theorem storedIn_overwrite (inside : address.toNat + n ≤ m.permissionsOffset) (value : Word) :
    StoredIn m { m with allocation := overwrite m.allocation address.toNat (leBytes n value) }
      address n value where
  size := rfl
  contents j low := by
    show overwrite m.allocation address.toNat (leBytes n value) j = _
    split
    · next covered =>
      have place := overwrite_inside m.allocation address.toNat (leBytes n value)
        (j - address.toNat) (by rw [length_leBytes]; omega)
      rw [Nat.add_sub_cancel' covered.1] at place
      rw [place]
      simp only [leBytes, List.getElem_map, List.getElem_range]
      rfl
    · next outside => exact overwrite_outside _ _ _ _ (by rw [length_leBytes]; omega)
  permissions j := overwrite_outside _ _ _ _ (Or.inr (by
    rw [length_leBytes]
    exact inside.trans (Nat.le_add_right m.permissionsOffset j)))

theorem step_store (fetch : fetched s = some i) (moderate : s.memory.size.toNat ≤ 2 ^ 63)
    (width : storeWidth i.type = some n) :
    (Accessible s.memory MemoryFlags.write (accessAddress s i) n ∧
      step s = .ok (true, { retire s s.cpu with memory := { s.memory with
        allocation := overwrite s.memory.allocation (accessAddress s i).toNat
          (leBytes n (s.cpu.get i.rs2)) } })) ∨
    (¬Accessible s.memory MemoryFlags.write (accessAddress s i) n ∧
      step s = .ok (false, { s with exit := ⟨.memoryWriteFault, accessAddress s i, i.rs2⟩ })) := by
  have short := (storeWidth_le width).2
  rw [← verifyPermissions_accessible moderate short, step_of_fetched fetch,
    execute_store s.cpu.pc width, Memory.writeT_eq]
  -- a refused store writes no byte at all
  by_cases verified : s.memory.verifyPermissions (accessAddress s i) (BitVec.ofNat 64 n)
      MemoryFlags.write = true
  · rw [if_pos verified]
    exact .inl ⟨verified, rfl⟩
  · rw [if_neg verified]
    exact .inr ⟨verified, rfl⟩

/-- What comes back of a stored value. -/
theorem extended_leBytes (signed : Bool) (short : n ≤ 8) (v : Word) :
    Isa.extended signed (leBytes n v) = Isa.truncated signed n v := by
  have length : (leBytes n v).length = n := length_leBytes n v
  have low := leValue_leBytes n v
  cases signed with
  | false => exact (leValue_extended _ (by omega)).symm.trans low
  | true =>
    have value := signExtend_leValue (leBytes n v) (by omega)
    rw [length, low] at value
    -- the sign bit comes from the low `8 * n` bits, which widening and narrowing keep
    have whole : ((v.setWidth (8 * n)).setWidth 64).setWidth (8 * n) = v.setWidth (8 * n) := by
      apply BitVec.eq_of_getLsbD_eq
      intro k below
      simp only [BitVec.getLsbD_setWidth, below, show k < 64 by omega, decide_true, Bool.true_and]
    rw [whole] at value
    exact value.symm

theorem bytesAt_overwrite_leBytes (f : Nat → Byte) (a n : Nat) (v : Word) :
    bytesAt (overwrite f a (leBytes n v)) a n = leBytes n v := by
  have same := bytesAt_overwrite_same f a (leBytes n v)
  rwa [length_leBytes] at same

/-- Loads and stores, at any address and alignment. -/
theorem step_accesses (s : VmState) (i : Instruction) (fetch : fetched s = some i)
    (moderate : s.memory.size.toNat ≤ 2 ^ 63) : AccessesAsIsa s i where
  load _ width := step_load fetch moderate width
  store n width := by
    rcases step_store fetch moderate width with ⟨accessible, stepped⟩ | refused
    · exact .inl ⟨accessible, _, storedIn_overwrite
        (accessible.1.trans (Memory.size_le_permissionsOffset _)) _, stepped⟩
    · exact .inr refused
  roundTrip n t width stepped t' i' u memory fetch' width' address stepped' nonzero := by
    have short := (loadWidth_le width').2
    -- both steps went on, so neither access was refused
    rcases step_store fetch moderate width with ⟨accessible, stored⟩ | ⟨-, refused⟩
    · cases stored.symm.trans stepped
      have moderate' : t'.memory.size.toNat ≤ 2 ^ 63 := by
        rw [memory]
        exact moderate
      rcases step_load fetch' moderate' width' with ⟨-, loaded⟩ | ⟨-, refused⟩
      · cases loaded.symm.trans stepped'
        have bytes : bytesAt t'.memory.contents (accessAddress t' i').toNat n
            = leBytes n (s.cpu.get i.rs2) := by
          rw [memory, address]
          exact bytesAt_overwrite_leBytes _ _ _ _
        unfold retire
        rw [bytes, extended_leBytes _ short, RegisterState.get_set_other _ _ i'.rd_ne_pc,
          RegisterState.get_set_same _ _ _ nonzero]
      · cases refused.symm.trans stepped'
    · cases refused.symm.trans stepped

/-- `lb x1, 8(x0)` of a byte with its sign set. -/
theorem step_accesses_lb : ∃ s t : VmState, step s = .ok (true, t) ∧
    t.cpu.get 1 = 0xffffffffffffff80 := by
  let image : List Byte := [0x83, 0x00, 0x80, 0x00, 0, 0, 0, 0, 0x80]
  let memory := Memory.ofImage 16 (by decide) image (MemoryFlags.read ||| MemoryFlags.execute)
  let s : VmState := ⟨memory, ⟨fun _ => 0⟩, {}⟩
  have fetch : fetched s = some (.ofWord 0x00800083) := by decide
  have inside : Accessible s.memory MemoryFlags.read (accessAddress s (.ofWord 0x00800083)) 1 := by
    unfold Accessible
    decide
  rcases (step_accesses s _ fetch (by decide)).load 1 (by decide) with ⟨-, stepped⟩ | ⟨refused, -⟩
  · exact ⟨s, _, stepped, by decide⟩
  · exact absurd inside refused

end Accesses

end Interpreter

end Riscv64Emulator
