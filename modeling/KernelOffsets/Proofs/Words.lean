/-
Words modulo the address space. In 32-bit code a register holds a 64-bit word
of which only the low half counts, so two words are the same (`Bitness.Same`)
if they agree under the address mask. Arithmetic and bitwise operations
respect this; what looks above the mask, such as a right shift, does not. A
register of the width of the mode is read and written as a whole, up to the
mask.
-/
import KernelOffsets.Register.File

namespace KernelOffsets.Bitness

/-- Two words are the same address. -/
def Same (b : Bitness) (x y : UInt64) : Prop :=
  x &&& b.addressMask = y &&& b.addressMask

instance (b : Bitness) (x y : UInt64) : Decidable (b.Same x y) := inferInstanceAs (Decidable (_ = _))

/-- The number of addresses. -/
def addresses (b : Bitness) : Nat := b.addressMask.toNat + 1

@[simp] theorem mask_pointerWidth (b : Bitness) : b.pointerWidth.mask = b.addressMask := by
  cases b <;> rfl

theorem bytes_pointerWidth (b : Bitness) : b.pointerWidth.bytes = b.pointerBytes := by
  cases b <;> rfl

@[simp] theorem pointerBytes_le_pointerWidth (b : Bitness) : b.pointerBytes ≤ b.pointerWidth.bytes :=
  Nat.le_of_eq b.bytes_pointerWidth.symm

theorem and_addressMask_x64 (x : UInt64) : x &&& Bitness.x64.addressMask = x :=
  UInt64.and_neg_one

theorem toNat_and_addressMask (b : Bitness) (x : UInt64) :
    (x &&& b.addressMask).toNat = x.toNat % b.addresses := by
  cases b with
  | x86 =>
    rw [UInt64.toNat_and]
    exact Nat.and_two_pow_sub_one_eq_mod x.toNat 32
  | x64 =>
    rw [and_addressMask_x64]
    exact (Nat.mod_eq_of_lt x.toNat_lt).symm

theorem and_addressMask_of_lt {b : Bitness} {x : UInt64} (h : x.toNat < b.addresses) : x &&& b.addressMask = x := by
  rw [← UInt64.toNat_inj, toNat_and_addressMask, Nat.mod_eq_of_lt h]

theorem same_x64 {x y : UInt64} : Bitness.x64.Same x y ↔ x = y := by
  simp only [Same, and_addressMask_x64]

theorem same_iff_mod {b : Bitness} {x y : UInt64} :
    b.Same x y ↔ x.toNat % b.addresses = y.toNat % b.addresses := by
  rw [Same, ← UInt64.toNat_inj, toNat_and_addressMask, toNat_and_addressMask]

theorem same_x86 {x y : UInt64} : Bitness.x86.Same x y ↔ x.toUInt32 = y.toUInt32 := by
  rw [same_iff_mod, ← UInt32.toNat_inj, UInt64.toNat_toUInt32, UInt64.toNat_toUInt32]
  rfl

theorem testBit_mod_addresses (b : Bitness) (n k : Nat) :
    (n % b.addresses).testBit k = (decide (k < 8 * b.pointerBytes) && n.testBit k) := by
  cases b with
  | x86 => exact Nat.testBit_mod_two_pow n 32 k
  | x64 => exact Nat.testBit_mod_two_pow n 64 k

/-- Words are the same address if their low bits agree. -/
theorem same_iff_testBit {b : Bitness} {x y : UInt64} :
    b.Same x y ↔ ∀ k < 8 * b.pointerBytes, x.toNat.testBit k = y.toNat.testBit k := by
  rw [same_iff_mod]
  constructor
  · intro h k hk
    have hbit := congrArg (Nat.testBit · k) h
    simpa only [testBit_mod_addresses, hk, decide_true, Bool.true_and] using hbit
  · intro h
    apply Nat.eq_of_testBit_eq
    intro k
    rw [testBit_mod_addresses, testBit_mod_addresses]
    by_cases hk : k < 8 * b.pointerBytes
    · rw [h k hk]
    · simp [hk]

/-! ## What respects the mask -/

variable {b : Bitness} {x y u v : UInt64}

theorem Same.refl (b : Bitness) (x : UInt64) : b.Same x x := rfl

theorem Same.symm (h : b.Same x y) : b.Same y x := Eq.symm h

theorem Same.trans (h : b.Same x y) (h' : b.Same y u) : b.Same x u := Eq.trans h h'

theorem same_and_mask (b : Bitness) (x : UInt64) : b.Same (x &&& b.addressMask) x := by
  rw [Same, UInt64.and_assoc, UInt64.and_self]

theorem Same.add (h : b.Same x y) (h' : b.Same u v) : b.Same (x + u) (y + v) := by
  cases b with
  | x86 => simp only [same_x86, UInt64.toUInt32_add] at *; rw [h, h']
  | x64 => simp only [same_x64] at *; rw [h, h']

theorem Same.sub (h : b.Same x y) (h' : b.Same u v) : b.Same (x - u) (y - v) := by
  cases b with
  | x86 => simp only [same_x86, UInt64.toUInt32_sub] at *; rw [h, h']
  | x64 => simp only [same_x64] at *; rw [h, h']

theorem Same.mul (h : b.Same x y) (h' : b.Same u v) : b.Same (x * u) (y * v) := by
  cases b with
  | x86 => simp only [same_x86, UInt64.toUInt32_mul] at *; rw [h, h']
  | x64 => simp only [same_x64] at *; rw [h, h']

theorem Same.and (h : b.Same x y) (h' : b.Same u v) : b.Same (x &&& u) (y &&& v) := by
  cases b with
  | x86 => simp only [same_x86, UInt64.toUInt32_and] at *; rw [h, h']
  | x64 => simp only [same_x64] at *; rw [h, h']

theorem Same.or (h : b.Same x y) (h' : b.Same u v) : b.Same (x ||| u) (y ||| v) := by
  cases b with
  | x86 => simp only [same_x86, UInt64.toUInt32_or] at *; rw [h, h']
  | x64 => simp only [same_x64] at *; rw [h, h']

theorem Same.xor (h : b.Same x y) (h' : b.Same u v) : b.Same (x ^^^ u) (y ^^^ v) := by
  cases b with
  | x86 => simp only [same_x86, UInt64.toUInt32_xor] at *; rw [h, h']
  | x64 => simp only [same_x64] at *; rw [h, h']

theorem Same.not (h : b.Same x y) : b.Same (~~~ x) (~~~ y) := by
  cases b with
  | x86 => simp only [same_x86, UInt64.toUInt32_not] at *; rw [h]
  | x64 => simp only [same_x64] at *; rw [h]

/-- A shift to the left brings no bit from above the mask below it. -/
theorem Same.shiftLeft (h : b.Same x y) (n : UInt64) : b.Same (x <<< n) (y <<< n) := by
  cases b with
  | x64 => simp only [same_x64] at *; rw [h]
  | x86 =>
    rw [same_iff_mod] at *
    have hm : Bitness.x86.addresses ∣ 18446744073709551616 := by decide
    simp only [UInt64.toNat_shiftLeft, Nat.shiftLeft_eq, Nat.reducePow, Nat.mod_mod_of_dvd _ hm]
    rw [Nat.mul_mod, h, ← Nat.mul_mod]

/-- A mask that keeps nothing above the address mask makes equal what was the same. -/
theorem Same.and_eq (h : b.Same x y) {m : UInt64} (hm : b.addressMask &&& m = m) : x &&& m = y &&& m := by
  rw [← hm, ← UInt64.and_assoc, ← UInt64.and_assoc, h]

/-! ## What looks at the low bytes only -/

/-- A width that holds a pointer cuts nothing off. -/
theorem same_and_width {w : Width} (h : b.pointerBytes ≤ w.bytes) (x : UInt64) : b.Same (x &&& w.mask) x := by
  have hm : w.mask &&& b.addressMask = b.addressMask := by
    cases b <;> cases w <;> first | rfl | (exfalso; revert h; decide)
  rw [Same, UInt64.and_assoc, hm]

/-- The second lowest byte lies below the mask. -/
theorem Same.highByte_eq (h : b.Same x y) : (x >>> 8) &&& (0xff : UInt64) = (y >>> 8) &&& (0xff : UInt64) := by
  have hm : ∀ z : UInt64, (z >>> 8) &&& (0xff : UInt64) = (z &&& (0xff00 : UInt64)) >>> 8 := by
    intro z
    rw [UInt64.shiftRight_and]
    rfl
  have h16 : x &&& (0xff00 : UInt64) = y &&& (0xff00 : UInt64) := h.and_eq (by cases b <;> rfl)
  rw [hm, hm, h16]

theorem Same.toUInt32_eq (h : b.Same x y) : x.toUInt32 = y.toUInt32 := by
  cases b with
  | x86 => exact same_x86.1 h
  | x64 => rw [same_x64.1 h]

/-- Parts of a word that are no wider than a pointer lie below the mask. -/
theorem Same.signExtend_eq (h : b.Same x y) {n : Nat} (hn : n ∈ [1, 2, 4, b.pointerBytes]) :
    signExtend n x = signExtend n y := by
  have h4 := h.toUInt32_eq
  have h2 : x.toUInt16 = y.toUInt16 := by
    rw [← UInt64.toUInt16_toUInt32, h4, UInt64.toUInt16_toUInt32]
  have h1 : x.toUInt8 = y.toUInt8 := by
    rw [← UInt64.toUInt8_toUInt32, h4, UInt64.toUInt8_toUInt32]
  simp only [List.mem_cons, List.not_mem_nil, or_false] at hn
  obtain rfl | rfl | rfl | rfl := hn
  · simp only [KernelOffsets.signExtend, h1]
  · simp only [KernelOffsets.signExtend, h2]
  · simp only [KernelOffsets.signExtend, h4]
  · cases b with
    | x86 => simp only [pointerBytes, KernelOffsets.signExtend, h4]
    | x64 => rw [same_x64.1 h]

theorem Same.signExtend (h : b.Same x y) (n : Nat) : b.Same (signExtend n x) (signExtend n y) := by
  by_cases hn : n ∈ [1, 2, 4, b.pointerBytes]
  · rw [h.signExtend_eq hn]
    exact .refl b _
  · unfold KernelOffsets.signExtend
    split
    case h_4 => exact h
    all_goals exact absurd (by simp) hn

/-- As many low bytes as a pointer has lie below the mask. -/
theorem Same.lowBytes_eq (h : b.Same x y) {n : Nat} (hn : n ≤ b.pointerBytes) : lowBytes n x = lowBytes n y := by
  cases b with
  | x64 => rw [same_x64.1 h]
  | x86 =>
    have hn' : n < 5 := Nat.lt_succ_of_le hn
    have hm : ∀ k < 5, Bitness.x86.addressMask &&& (((1 : UInt64) <<< (8 * k).toUInt64) - (1 : UInt64))
        = ((1 : UInt64) <<< (8 * k).toUInt64) - (1 : UInt64) := by
      decide
    have hlt : ¬ 8 ≤ n := by omega
    simp only [lowBytes, if_neg hlt]
    exact h.and_eq (hm n hn')

end KernelOffsets.Bitness

namespace KernelOffsets.RegisterFile

/-! ## Registers of full width -/

theorem merge_pointerWidth (b : Bitness) (old v : Value) : merge b b.pointerWidth old v = v.mask b.addressMask := by
  cases b <;> simp [merge, Value.mask, Bitness.pointerWidth, Bitness.pointerBytes, Width.bytes, Width.mask,
    Bitness.addressMask]

theorem read_wide (f : RegisterFile) (g : Gpr) : f.read (f.bitness.wide g) = (f.value g).mask f.bitness.addressMask := by
  simp [read, Bitness.wide, Value.mask]

theorem value_write_wide (f : RegisterFile) (g h : Gpr) (v : Value) :
    (f.write (f.bitness.wide g) v).value h = if g = h then v.mask f.bitness.addressMask else f.value h := by
  rw [Bitness.wide, write, value_put, merge_pointerWidth]

end KernelOffsets.RegisterFile
