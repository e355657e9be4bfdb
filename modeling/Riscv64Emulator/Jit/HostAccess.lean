import Riscv64Emulator.Jit.GuestStep

/-!
# The accesses of generated code

`Env.Serves` is what the executor sets up before it enters generated code. Under it, the
host accesses the generators emit resolve to register slots, to guest bytes, to
permission bytes and to entries of the block table, with the meaning the guest gives them.
-/
namespace Riscv64Emulator.Jit

/-- The environment holds the objects of the guest `g`, whose memory has the size the code
was generated for. -/
structure Env.Serves (env : Env) (st : Setting) (size : Word) (g : Guest) : Prop where
  describes : env.Describes g
  zero : g.registers.get Register.zero = 0
  size : g.memory.size = size
  maxBlocks : env.maxBlocks = st.maxBlockCount.toNat
  blocks : env.blockToOffset = st.blockToOffset
  skip : env.skipPermissionChecks = st.flags.skipPermissionChecks

/-- The host address of a register's slot. -/
def Env.slotAddress (env : Env) (r : Register) : Word :=
  env.layout.registerState + BitVec.ofNat 64 (8 * r.val)

/-- A placement of the objects of any guest of moderate size. -/
def Env.placed (st : Setting) : Env where
  layout := ⟨0x1000, 0x1000000000000, 0x1000000, 0x4000000000000⟩
  maxBlocks := st.maxBlockCount.toNat
  blockToOffset := st.blockToOffset
  skipPermissionChecks := st.flags.skipPermissionChecks

theorem Env.placed_serves (st : Setting) (g : Guest) (zero : g.registers.get Register.zero = 0)
    (blocks : st.maxBlockCount.toNat ≤ 2 ^ 32) (bytes : g.memory.size.toNat ≤ 2 ^ 40) :
    (Env.placed st).Serves st g.memory.size g where
  describes := by
    -- a guest of at most 2 ^ 40 bytes leaves room between the regions
    have extent : g.extent ≤ 2 * (2 ^ 40 + 7) := by
      unfold Guest.extent Memory.permissionsOffset
      rw [Memory.blockCount_eq g.memory.size_lt]
      omega
    constructor <;>
      simp only [Env.placed, registersExtent, BitVec.ofNat_eq_ofNat, BitVec.reduceToNat] <;> omega
  zero := zero
  size := rfl
  maxBlocks := rfl
  blocks := rfl
  skip := rfl

/-! ### The low bytes of a word -/

theorem lowBytes_eight (v : Word) : lowBytes 8 v = v := by
  rw [lowBytes, Nat.mod_eq_of_lt v.isLt, BitVec.ofNat_toNat, BitVec.setWidth_eq]

/-- The low 32 bits are among the low four bytes. -/
theorem setWidth_lowBytes (v : Word) : (lowBytes 4 v).setWidth 32 = v.setWidth 32 := by
  apply BitVec.eq_of_toNat_eq
  simp only [lowBytes, BitVec.toNat_setWidth, BitVec.toNat_ofNat]
  omega

theorem getLsbD_lowBytes (n : Nat) (v : Word) {k : Nat} (low : k < 64) :
    (lowBytes n v).getLsbD k = (decide (k < 8 * n) && v.getLsbD k) := by
  rw [lowBytes, BitVec.getLsbD_ofNat, Nat.testBit_mod_two_pow, BitVec.testBit_toNat,
    decide_eq_true low, Bool.true_and]

/-- The bytes of a load fill the low part of a register. -/
theorem lowBytes_leValue (bs : List Byte) {n : Nat} (short : bs.length ≤ n) :
    lowBytes n (leValue bs) = leValue bs := by
  apply BitVec.eq_of_getLsbD_eq
  intro k low
  rw [getLsbD_lowBytes n _ low, getLsbD_leValue bs k low]
  by_cases inside : k < 8 * n
  · simp [inside]
  · have past : bs[k / 8]? = none := List.getElem?_eq_none (by omega)
    simp [inside, past]

theorem leBytes_lowBytes (n : Nat) (v : Word) : leBytes n (lowBytes n v) = leBytes n v := by
  apply List.map_congr_left
  intro i member
  have below := List.mem_range.mp member
  apply BitVec.eq_of_getLsbD_eq
  intro k low
  simp only [BitVec.getLsbD_setWidth, BitVec.getLsbD_ushiftRight]
  by_cases inside : 8 * i + k < 64
  · rw [getLsbD_lowBytes n v inside]
    simp [show 8 * i + k < 8 * n by omega]
  · rw [BitVec.getLsbD_of_ge _ _ (by omega), BitVec.getLsbD_of_ge _ _ (by omega)]

theorem setWidth_eq_zero_iff (v : BitVec 32) : v.setWidth 64 = (0 : Word) ↔ v = 0 := by
  constructor
  · intro zero
    have low := congrArg (BitVec.setWidth 32) zero
    simpa using low
  · rintro rfl
    rfl

/-! ### The mask -/

theorem getLsbD_permissionMask (flag : MemoryFlags) {n k : Nat} (low : k < 64) :
    (permissionMask flag n).getLsbD k
      = (decide (k < 8 * n) && flag.getLsbD (k % 8)) := by
  induction n with
  | zero => simp [permissionMask]
  | succ n ih =>
    simp only [permissionMask, BitVec.getLsbD_or, BitVec.getLsbD_shiftLeft,
      BitVec.getLsbD_setWidth, ih, low, decide_true, Bool.true_and]
    -- in the first `n` bytes, in the byte added, behind it
    by_cases first : k < n * 8
    · simp [first, show k < 8 * n by omega, show k < 8 * (n + 1) by omega]
    · by_cases inside : k < 8 * (n + 1)
      · have offset : k - n * 8 = k % 8 := by omega
        simp [first, inside, offset, show ¬k < 8 * n by omega, show k % 8 < 64 by omega]
      · have past : flag.getLsbD (k - n * 8) = false := BitVec.getLsbD_of_ge flag _ (by omega)
        simp [first, inside, past, show ¬k < 8 * n by omega]

theorem permissionMask_eq (flag : MemoryFlags) (n : Nat) :
    permissionMask flag n = leValue (List.replicate n flag) := by
  apply BitVec.eq_of_getLsbD_eq
  intro k low
  rw [getLsbD_permissionMask flag low, getLsbD_leValue _ _ low]
  by_cases inside : k < 8 * n
  · simp [inside, show k / 8 < n by omega]
  · simp [inside, show ¬k / 8 < n by omega]

/-! ### Guest updates -/

namespace Guest

@[simp] theorem memory_setRegister (g : Guest) (r : Register) (v : Word) :
    (g.setRegister r v).memory = g.memory := rfl

@[simp] theorem registers_setRegister (g : Guest) (r : Register) (v : Word) :
    (g.setRegister r v).registers = g.registers.set r v := rfl

@[simp] theorem setRegister_zero (g : Guest) (v : Word) : g.setRegister Register.zero v = g := rfl

@[simp] theorem registers_storeBytes (g : Guest) (address : Word) (k : Nat) (v : Word) :
    (g.storeBytes address k v).registers = g.registers := rfl

@[simp] theorem size_storeBytes (g : Guest) (address : Word) (k : Nat) (v : Word) :
    (g.storeBytes address k v).memory.size = g.memory.size := rfl

end Guest

namespace Env.Serves

variable {env : Env} {st : Setting} {size : Word} {g : Guest}

theorem setRegister (serves : env.Serves st size g) (r : Register) (v : Word) :
    env.Serves st size (g.setRegister r v) :=
  { serves with
    describes := serves.describes
    zero := by simpa using serves.zero }

theorem storeBytes (serves : env.Serves st size g) (address : Word) (k : Nat) (v : Word) :
    env.Serves st size (g.storeBytes address k v) :=
  { serves with describes := serves.describes }

/-! ### Register slots -/

theorem resolve_slot (serves : env.Serves st size g) (r : Register) {n : Nat} (small : n ≤ 8) :
    env.resolve g (env.slotAddress r) n = some (.registers (8 * r.val)) :=
  resolve_register serves.describes r small

theorem load_slot (serves : env.Serves st size g) (r : Register) {n : Nat} (small : n ≤ 8) :
    env.load g (env.slotAddress r) n = some (lowBytes n (g.registers.get r)) := by
  have index : 8 * r.val / 8 = r.val := Nat.mul_div_cancel_left _ (by decide)
  simp only [Env.load, serves.resolve_slot r small, Option.bind_eq_bind, Option.bind_some,
    Env.loadAt, index, r.isLt, dif_pos, Nat.mul_mod_right, if_true]
  rfl

theorem store_slot (serves : env.Serves st size g) {r : Register} (nonzero : r ≠ Register.zero)
    (v : Word) : env.store g (env.slotAddress r) 8 v = some (g.setRegister r v) := by
  have index : 8 * r.val / 8 = r.val := Nat.mul_div_cancel_left _ (by decide)
  simp only [Env.store, serves.resolve_slot r (Nat.le_refl 8), Option.bind_eq_bind,
    Option.bind_some, Guest.storeAt, index, Nat.mul_mod_right, and_self, if_true,
    Guest.setRegister, RegisterState.set, ne_eq, nonzero, not_false_eq_true, Option.some.injEq]
  congr
  funext q
  simp only [Fin.ext_iff]

theorem foreign_slot (serves : env.Serves st size g) (r : Register) {n : Nat} (small : n ≤ 8) :
    env.foreign g (env.slotAddress r) n = false := by
  simp only [Env.foreign, serves.resolve_slot r small]

theorem permits_slot (serves : env.Serves st size g) {r : Register} (nonzero : r ≠ Register.zero)
    (below : r ≠ Register.pc) (write : Bool) {n : Nat} (small : n ≤ 8) :
    env.permits g ⟨write, env.slotAddress r, n⟩ = true := by
  have positive : r.val ≠ 0 := fun h => nonzero (Fin.ext h)
  have bound : r.val ≠ 32 := fun h => below (Fin.ext h)
  have limit := r.isLt
  simp only [Env.permits, serves.resolve_slot r small, Nat.mul_mod_right, beq_self_eq_true,
    Bool.true_and, Bool.and_eq_true, decide_eq_true_eq]
  omega

/-! ### Guest bytes -/

theorem resolve_contents (serves : env.Serves st size g) (address : Word) {n : Nat}
    (positive : 0 < n) (inside : address.toNat + n ≤ g.memory.permissionsOffset) :
    env.resolve g (env.layout.memoryBase + address) n = some (.memory address.toNat) :=
  resolve_memory serves.describes address positive (by unfold Guest.extent; omega)

theorem load_contents (serves : env.Serves st size g) (address : Word) {n : Nat}
    (positive : 0 < n) (inside : address.toNat + n ≤ g.memory.permissionsOffset) :
    env.load g (env.layout.memoryBase + address) n
      = some (leValue (bytesAt g.memory.allocation address.toNat n)) := by
  simp only [Env.load, serves.resolve_contents address positive inside, Option.bind_eq_bind,
    Option.bind_some, Env.loadAt]

theorem foreign_contents (serves : env.Serves st size g) (address : Word) {n : Nat}
    (positive : 0 < n) (inside : address.toNat + n ≤ g.memory.permissionsOffset) :
    env.foreign g (env.layout.memoryBase + address) n = false := by
  simp only [Env.foreign, serves.resolve_contents address positive inside, decide_eq_false_iff_not]
  omega

theorem permits_load_contents (serves : env.Serves st size g) (address : Word) {n : Nat}
    (positive : 0 < n) (inside : address.toNat + n ≤ g.memory.permissionsOffset) :
    env.permits g ⟨false, env.layout.memoryBase + address, n⟩ = true := by
  simp [Env.permits, serves.resolve_contents address positive inside, inside]

theorem store_contents (serves : env.Serves st size g) (address : Word) (k : Nat) (v : Word)
    (inside : address.toNat + 2 ^ k ≤ g.memory.permissionsOffset) :
    env.store g (env.layout.memoryBase + address) (2 ^ k) v = some (g.storeBytes address k v) := by
  simp only [Env.store, serves.resolve_contents address (Nat.two_pow_pos k) inside,
    Option.bind_eq_bind, Option.bind_some, Guest.storeAt, Guest.storeBytes]

theorem permits_store_contents (serves : env.Serves st size g) (address : Word) {n : Nat}
    (positive : 0 < n) (inside : address.toNat + n ≤ g.memory.permissionsOffset)
    (writable : (st.flags.skipPermissionChecks || (List.range n).all fun i =>
      g.memory.permissions (address.toNat + i) &&& MemoryFlags.write == MemoryFlags.write) = true) :
    env.permits g ⟨true, env.layout.memoryBase + address, n⟩ = true := by
  rw [← serves.skip] at writable
  simp only [Env.permits, serves.resolve_contents address positive inside, if_true,
    writable, inside, decide_true, Bool.true_and]

/-! ### Permission bytes -/

private theorem permissionsOffset_lt (serves : env.Serves st size g) :
    2 * g.memory.permissionsOffset ≤ 2 ^ 64 := by
  have fit := serves.describes.memory_fit
  unfold Guest.extent at fit
  omega

theorem resolve_permissions (serves : env.Serves st size g) (address : Word) {n : Nat}
    (positive : 0 < n) (inside : address.toNat + n ≤ g.memory.permissionsOffset) :
    env.resolve g
        (env.layout.memoryBase + BitVec.ofNat 64 g.memory.permissionsOffset + address) n
      = some (.memory (g.memory.permissionsOffset + address.toNat)) := by
  have bound := permissionsOffset_lt serves
  have sum : (BitVec.ofNat 64 g.memory.permissionsOffset + address).toNat
      = g.memory.permissionsOffset + address.toNat := by
    rw [BitVec.toNat_add, BitVec.toNat_ofNat]
    omega
  rw [BitVec.add_assoc, resolve_memory serves.describes _ positive
    (by rw [sum]; unfold Guest.extent; omega), sum]

theorem load_permissions (serves : env.Serves st size g) (address : Word) {n : Nat}
    (positive : 0 < n) (inside : address.toNat + n ≤ g.memory.permissionsOffset) :
    env.load g (env.layout.memoryBase + BitVec.ofNat 64 g.memory.permissionsOffset + address) n
      = some (leValue (bytesAt g.memory.permissions address.toNat n)) := by
  simp only [Env.load, serves.resolve_permissions address positive inside, Option.bind_eq_bind,
    Option.bind_some, Env.loadAt, bytesAt, Memory.permissions, Nat.add_assoc]

theorem permits_permissions (serves : env.Serves st size g) (address : Word) {n : Nat}
    (positive : 0 < n) (inside : address.toNat + n ≤ g.memory.permissionsOffset) :
    env.permits g
      ⟨false, env.layout.memoryBase + BitVec.ofNat 64 g.memory.permissionsOffset + address, n⟩
        = true := by
  simp [Env.permits, serves.resolve_permissions address positive inside]

/-! ### Entries of the block table -/

theorem load_block (serves : env.Serves st size g) (index : Word)
    (inside : index.toNat < st.maxBlockCount.toNat) :
    env.load g (env.layout.blockBase + index * 4) 4
      = some ((st.blockToOffset index.toNat).setWidth 64) := by
  have fit := serves.describes.blocks_fit
  rw [← serves.maxBlocks] at inside
  have scaled : index * 4 = BitVec.ofNat 64 (4 * index.toNat) := by
    apply BitVec.eq_of_toNat_eq
    rw [BitVec.toNat_mul, BitVec.toNat_ofNat, Nat.mul_comm]
    rfl
  have entry : 4 * index.toNat / 4 = index.toNat := Nat.mul_div_cancel_left _ (by decide)
  simp only [Env.load, scaled, resolve_block serves.describes _ inside, Option.bind_eq_bind,
    Option.bind_some, Env.loadAt, Nat.mul_mod_right, and_self, if_true, entry, serves.blocks]

theorem permits_block (serves : env.Serves st size g) (index : Word)
    (inside : index.toNat < st.maxBlockCount.toNat) :
    env.permits g ⟨false, env.layout.blockBase + index * 4, 4⟩ = true := by
  rw [← serves.maxBlocks] at inside
  have scaled : index * 4 = BitVec.ofNat 64 (4 * index.toNat) := by
    apply BitVec.eq_of_toNat_eq
    rw [BitVec.toNat_mul, BitVec.toNat_ofNat, Nat.mul_comm]
    rfl
  simp only [Env.permits, scaled, resolve_block serves.describes _ inside, Bool.not_false]

end Env.Serves

/-! ### The access check -/

/-- An aligned access that starts below the size stays in the contents half. -/
theorem aligned_inside (m : Memory) (address : Word) {k : Nat} (small : k ≤ 3)
    (aligned : address.toNat % 2 ^ k = 0) (below : address.toNat < m.size.toNat) :
    address.toNat + 2 ^ k ≤ m.permissionsOffset := by
  have half := m.size_le_permissionsOffset
  unfold Memory.permissionsOffset at half ⊢
  rcases (show k = 0 ∨ k = 1 ∨ k = 2 ∨ k = 3 by omega) with rfl | rfl | rfl | rfl <;> omega

namespace Setting

variable {st : Setting} {m : Memory} {k : Nat} {flag : MemoryFlags} {address : Word}

theorem accessAllowed_iff : st.accessAllowed m k flag address = true ↔
    address.toNat % 2 ^ k = 0 ∧ address.toNat < m.size.toNat ∧
      (st.flags.skipPermissionChecks = true ∨
        ∀ i < 2 ^ k, m.permissions (address.toNat + i) &&& flag = flag) := by
  simp [accessAllowed, and_assoc]

theorem accessAllowed_inside (small : k ≤ 3)
    (allowed : st.accessAllowed m k flag address = true) :
    address.toNat + 2 ^ k ≤ m.permissionsOffset :=
  have checks := accessAllowed_iff.mp allowed
  aligned_inside m address small checks.1 checks.2.1

/-- With permission checks on, the emitted check is alignment and `verify_permissions`:
the padding past the end of the memory grants nothing. -/
theorem accessAllowed_eq (clear : m.PaddingClear) (small : k ≤ 3) (nonzero : flag ≠ 0)
    (checks : st.flags.skipPermissionChecks = false) :
    st.accessAllowed m k flag address = true ↔
      address.toNat % 2 ^ k = 0 ∧
        m.verifyPermissions address (BitVec.ofNat 64 (2 ^ k)) flag = true := by
  have width : (2 : Nat) ^ k ≤ 8 := by
    rcases (show k = 0 ∨ k = 1 ∨ k = 2 ∨ k = 3 by omega) with rfl | rfl | rfl | rfl <;> decide
  have length : (BitVec.ofNat 64 (2 ^ k)).toNat = 2 ^ k := by
    rw [BitVec.toNat_ofNat, Nat.mod_eq_of_lt (by omega)]
  have positive : 0 < 2 ^ k := Nat.two_pow_pos k
  rw [accessAllowed_iff, Memory.verifyPermissions_iff, length, checks]
  simp only [Bool.false_eq_true, false_or]
  constructor
  · rintro ⟨aligned, below, granted⟩
    refine ⟨aligned, ?_, granted⟩
    have bound := m.size_lt
    rw [Memory.outOfRange_eq_false (by omega), length]
    -- the last byte carries the flag, so it is not padding
    refine Nat.le_of_not_lt fun past => nonzero ?_
    have last := granted (2 ^ k - 1) (by omega)
    rw [clear _ (by omega)] at last
    simpa using last.symm
  · rintro ⟨aligned, -, granted⟩
    refine ⟨aligned, Nat.lt_of_not_le fun past => nonzero ?_, granted⟩
    have first := granted 0 positive
    rw [clear _ (by omega)] at first
    simpa using first.symm

end Setting

end Riscv64Emulator.Jit
