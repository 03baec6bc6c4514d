/-
The processor in a machine. The registers and the bytes of a machine are those
of a processor (`Machine.processor`). An operand is read as the number that
stands at its place (`Machine.toBitVec_fetch`), and what is written to a
register or to memory are the low bits of a word
(`Machine.processor_writeRegister`, `Machine.processor_store`).
-/
import KernelOffsets.Proofs.Memory
import KernelOffsets.Proofs.SizedOperands
import Mathlib.Data.Bool.Basic

namespace KernelOffsets

/-! ## Addresses -/

namespace Bitness

/-- The address that a word stands for. -/
def cut (b : Bitness) (x : UInt64) : b.Address := x.toBitVec.setWidth _

/-- The word of an address. -/
def spread (b : Bitness) (a : b.Address) : UInt64 := .ofBitVec (a.setWidth 64)

variable {b : Bitness}

theorem spread_cut (b : Bitness) (x : UInt64) : b.spread (b.cut x) = x &&& b.addressMask := by
  rw [← mask_pointerWidth, ← UInt64.toBitVec_inj, Width.toBitVec_and_mask]
  rfl

theorem cut_spread (a : b.Address) : b.cut (b.spread a) = a :=
  (BitVec.setWidth_setWidth_of_le a b.pointerWidth.bits_le).trans a.setWidth_eq

theorem spread_and_mask (a : b.Address) : b.spread a &&& b.addressMask = b.spread a := by
  rw [← spread_cut, cut_spread]

theorem cut_and_mask (x : UInt64) : b.cut (x &&& b.addressMask) = b.cut x := by
  rw [← spread_cut, cut_spread]

theorem cut_add (x y : UInt64) : b.cut (x + y) = b.cut x + b.cut y := by
  rw [cut, UInt64.toBitVec_add]
  exact BitVec.setWidth_add _ _ b.pointerWidth.bits_le

theorem cut_mul (x y : UInt64) : b.cut (x * y) = b.cut x * b.cut y := by
  rw [cut, UInt64.toBitVec_mul]
  exact BitVec.setWidth_mul _ _ b.pointerWidth.bits_le

theorem cut_sub (x y : UInt64) : b.cut (x - y) = b.cut x - b.cut y := by
  rw [BitVec.eq_sub_iff_add_eq, ← cut_add, UInt64.sub_add_cancel]

theorem cut_toUInt64 (n : Nat) : b.cut n.toUInt64 = .ofNat _ n :=
  BitVec.setWidth_ofNat_of_le b.pointerWidth.bits_le n

theorem toNat_cut (x : UInt64) : (b.cut x).toNat = (x &&& b.addressMask).toNat := by
  rw [← spread_cut, spread, UInt64.toNat_ofBitVec]
  exact (BitVec.toNat_setWidth_of_le b.pointerWidth.bits_le).symm

/-- Distances on the circle of addresses are differences of addresses. -/
theorem past_spread (a : UInt64) (x : b.Address) : b.past a (b.spread x) = (x - b.cut a).toNat := by
  rw [past, ← toNat_cut, cut_sub, cut_spread]

theorem same_spread_add (x : b.Address) (j : Nat) : b.Same (b.spread (x + .ofNat _ j)) (b.spread x + j.toUInt64) := by
  have hcut : b.cut (b.spread x + j.toUInt64) = x + .ofNat _ j := by
    rw [cut_add, cut_spread, cut_toUInt64]
  rw [← hcut, spread_cut]
  exact same_and_mask _ _

/-- A pointer meets a store only if one of its bytes lies in it. -/
theorem not_meets_spread {a : UInt64} {n : Nat} {x : b.Address} (hn : 0 < n)
    (h : ∀ j < b.pointerBytes, ¬ (x + .ofNat _ j - b.cut a).toNat < n) : b.meets a n (b.spread x) = false := by
  refine eq_false_of_ne_true fun hmeets => ?_
  obtain ⟨i, hi, j, hj, hsame⟩ := (b.meets_iff _ _ _ hn).1 hmeets
  refine h j hj ?_
  rw [← past_spread, (Same.refl b a).past_eq ((same_spread_add x j).trans hsame.symm), past_add]
  exact Nat.lt_of_le_of_lt (Nat.mod_le ..) hi

end Bitness

/-! ## Reading -/

/-- The registers and the memory of a machine. -/
def Machine.processor (m : Machine) (b : Bitness) : Processor b where
  register g := (m.registers.value g).bits.toBitVec
  memory a := (m.memory.byteAt m.background (b.spread a)).toBitVec

theorem toBitVec_highByte (x : UInt64) :
    ((x >>> 8) &&& 0xff).toBitVec = (x.toBitVec.extractLsb' 8 8).setWidth 64 := by
  have hmask : (x >>> 8) &&& (0xff : UInt64) = (x >>> 8) &&& Width.byte.mask := rfl
  rw [hmask, Width.toBitVec_and_mask]
  rfl

namespace Machine

variable {m : Machine} {b : Bitness} {w : Width}

theorem toBitVec_read (m : Machine) (b : Bitness) (r : Register) :
    (m.registers.read r).bits.toBitVec = ((m.processor b).named r.width r).setWidth 64 := by
  cases r with
  | gpr g w => exact w.toBitVec_and_mask _
  | highByte h => exact toBitVec_highByte _
  | _ => rfl

theorem toNat_wordAt (m : Machine) (b : Bitness) {n : Nat} (hn : n ≤ 8) (a : UInt64) :
    (m.memory.wordAt b m.background a n).toNat = (m.processor b).number (b.cut a) n := by
  induction n generalizing a with
  | zero => rfl
  | succ n ih =>
    have hrest := ih (by omega) (a + 1)
    have hlt := (m.processor b).number_lt (b.cut (a + 1)) n
    have hpow : 2 ^ (8 * n) ≤ 2 ^ 56 := Nat.pow_le_pow_right (by decide) (by omega)
    rw [Nat.one_shiftLeft] at hlt
    have hone : b.cut 1 = 1 := Bitness.cut_toUInt64 1
    have hbyte : ((m.processor b).memory (b.cut a)).toNat =
        (m.memory.byteAt m.background (a &&& b.addressMask)).toNat := by
      rw [← Bitness.spread_cut]
      rfl
    rw [Memory.wordAt, Memory.toNat_join _ (by omega), Processor.number, hrest, hbyte, Bitness.cut_add, hone]

theorem toBitVec_load (hb : m.bitness = b) (w : Width) (a : UInt64) :
    (m.load a w.bytes).bits.toBitVec = ((m.processor b).read w (.memory (b.cut a))).setWidth 64 := by
  subst hb
  have hle : w.bytes ≤ 8 := by cases w <;> decide
  have hlt : (m.processor m.bitness).number (m.bitness.cut a) w.bytes < 2 ^ w.bits := by
    rw [← Nat.one_shiftLeft]
    exact (m.processor m.bitness).number_lt _ _
  apply BitVec.eq_of_toNat_eq
  rw [BitVec.toNat_setWidth_of_le w.bits_le, Processor.read, BitVec.toNat_ofNat, Nat.mod_eq_of_lt hlt,
    ← toNat_wordAt m m.bitness hle, load, Memory.load, Nat.min_eq_left hle]
  rfl

theorem cut_read (m : Machine) (b : Bitness) (r : Register) :
    b.cut (m.registers.read r).bits = (m.processor b).addend r := by
  rw [Bitness.cut, toBitVec_read m b]
  exact BitVec.setWidth_setWidth_of_le _ b.pointerWidth.bits_le

theorem cut_address (hb : m.bitness = b) (o : MemoryOperand) :
    b.cut (m.registers.address o).bits = (m.processor b).address o := by
  subst hb
  have hmask : m.registers.bitness = m.bitness := rfl
  unfold RegisterFile.address Processor.address
  dsimp only
  cases o.base with
  | instructionPointer w => exact Bitness.cut_and_mask _
  | _ =>
    rw [Value.bits_mask, hmask, Bitness.cut_and_mask, Value.bits_add, Value.bits_add, Bitness.cut_add,
      Bitness.cut_add, cut_read, RegisterFile.scaled, Bitness.cut_mul, cut_read]
    rfl

/-- **An operand is read** as the number that stands there, without bits above its width. -/
theorem toBitVec_fetch (hb : m.bitness = b) {o : Operand} (ho : o.IsOfWidth w) :
    (m.fetch o).bits.toBitVec = ((m.processor b).read w ((m.processor b).place o)).setWidth 64 := by
  cases o with
  | register r =>
    obtain ⟨-, rfl⟩ := ho
    exact toBitVec_read m b r
  | memory o =>
    have hsize : o.size = w.bytes := ho
    rw [fetch, hsize, toBitVec_load hb, cut_address hb]
    rfl
  | immediate bits v =>
    obtain ⟨-, hmask⟩ := ho
    have hbits : bits.toBitVec = (bits.toBitVec.setWidth w.bits).setWidth 64 := by
      rw [← w.toBitVec_and_mask, hmask]
    exact hbits
  | _ => cases ho

theorem operandBytes_of_isPlaceOf (m : Machine) {o : Operand} (ho : o.IsPlaceOf w) : m.operandBytes o = w.bytes := by
  cases o with
  | register r =>
    obtain ⟨hgpr, rfl⟩ := ho
    cases r with
    | gpr g w => rfl
    | highByte h => rfl
    | _ => cases hgpr
  | memory o => exact ho
  | _ => cases ho

end Machine

/-! ## Writing -/

theorem toBitVec_merge (b : Bitness) (w : Width) (old v : Value) :
    (RegisterFile.merge b w old v).bits.toBitVec =
      Processor.merge old.bits.toBitVec w (v.bits.toBitVec.setWidth w.bits) := by
  cases w with
  | byte | word =>
    apply BitVec.eq_of_getLsbD_eq
    intro i hi
    rw [Processor.getLsbD_merge _ _ _ hi]
    simp only [RegisterFile.merge, Value.bits_plain, UInt64.toBitVec_or, UInt64.toBitVec_and, UInt64.toBitVec_not,
      Width.toBitVec_mask, BitVec.getLsbD_or, BitVec.getLsbD_and, BitVec.getLsbD_not, BitVec.getLsbD_setWidth,
      BitVec.getLsbD_allOnes, Width.bits, Width.bytes]
    grind
  | dword | qword => exact Width.toBitVec_and_mask _ _

theorem toBitVec_mergeHigh (old v : UInt64) :
    ((old &&& ~~~ (0xff00 : UInt64)) ||| ((v &&& 0xff) <<< 8)).toBitVec =
      Processor.mergeHigh old.toBitVec (v.toBitVec.setWidth 8) := by
  have hhigh : (0xff00 : UInt64).toBitVec = (BitVec.allOnes 8).setWidth 64 <<< 8 := rfl
  have hlow : (0xff : UInt64).toBitVec = (BitVec.allOnes 8).setWidth 64 := rfl
  have hshift : ((v &&& 0xff) <<< 8).toBitVec = (v &&& 0xff).toBitVec <<< 8 := rfl
  apply BitVec.eq_of_getLsbD_eq
  intro i hi
  rw [UInt64.toBitVec_or, UInt64.toBitVec_and, UInt64.toBitVec_not, hshift, UInt64.toBitVec_and, hhigh, hlow,
    Processor.getLsbD_mergeHigh _ _ hi]
  simp only [BitVec.getLsbD_or, BitVec.getLsbD_and, BitVec.getLsbD_not, BitVec.getLsbD_setWidth,
    BitVec.getLsbD_allOnes, BitVec.getLsbD_shiftLeft]
  grind

theorem toBitVec_wordByte (x : UInt64) {w : Width} {i : Nat} (hi : i < w.bytes) :
    (Memory.wordByte x i).toBitVec = (x.toBitVec.setWidth w.bits).extractLsb' (8 * i) 8 := by
  have height : i < 8 := Nat.lt_of_lt_of_le hi (by cases w <;> decide)
  have hbits : 8 * i + 8 ≤ w.bits := Nat.mul_le_mul_left 8 hi
  apply BitVec.eq_of_getLsbD_eq
  intro j hj
  have hbit : (Memory.wordByte x i).toBitVec.getLsbD j = (decide (j < 8) && x.toBitVec.getLsbD (8 * i + j)) :=
    Memory.testBit_wordByte x height
  have hlt : 8 * i + j < w.bits := by omega
  rw [hbit, BitVec.getLsbD_extractLsb', BitVec.getLsbD_setWidth, decide_eq_true hlt, Bool.true_and]

namespace Machine

variable {m : Machine} {b : Bitness}

theorem processor_put (m : Machine) (b : Bitness) (g : Gpr) (x : Value) :
    ({ m with registers := m.registers.put g x } : Machine).processor b = (m.processor b).put g x.bits.toBitVec := by
  ext h
  · simp only [processor, Processor.put, RegisterFile.value_put]
    split <;> rfl
  · rfl

/-- **A register is written:** the low bits of a word are merged into it. -/
theorem processor_writeRegister (m : Machine) (b : Bitness) (r : Register) (x : Value) :
    (m.writeRegister r x).processor b =
      (m.processor b).write ⟨r.width, .register r, x.bits.toBitVec.setWidth r.width.bits⟩ := by
  cases r with
  | gpr g w =>
    refine (processor_put m b g _).trans ?_
    rw [toBitVec_merge]
    rfl
  | highByte h =>
    have hcut : (x.bits.toBitVec.setWidth Width.byte.bits).setWidth 8 = x.bits.toBitVec.setWidth 8 :=
      BitVec.setWidth_eq _
    refine (processor_put m b h.owner _).trans ?_
    rw [Value.bits_plain, toBitVec_mergeHigh, ← hcut]
    rfl
  | _ => rfl

/-- **Memory is written:** the bytes of the low bits of a word are. -/
theorem processor_store (hb : m.bitness = b) (w : Width) (a : UInt64) (x : Value) :
    (m.store a w.bytes x).processor b =
      (m.processor b).write ⟨w, .memory (b.cut a), x.bits.toBitVec.setWidth w.bits⟩ := by
  subst hb
  have hle : w.bytes ≤ m.bitness.addresses := by
    cases m.bitness <;> cases w <;> decide
  refine Processor.ext rfl (funext fun y => ?_)
  have hbyte : (m.memory.store m.bitness a w.bytes x).byteAt m.background (m.bitness.spread y) =
      if (y - m.bitness.cut a).toNat < w.bytes then Memory.wordByte x.bits (y - m.bitness.cut a).toNat
      else m.memory.byteAt m.background (m.bitness.spread y) := by
    rw [Memory.byteAt_store (Bitness.spread_and_mask y) hle, Bitness.past_spread]
  refine (congrArg UInt8.toBitVec hbyte).trans ?_
  simp only [Processor.write, Processor.store]
  split
  · next hlt => exact toBitVec_wordByte x.bits hlt
  · rfl

theorem stackTop_processor (hb : m.bitness = b) : (m.processor b).stackTop = b.cut m.stackTop := by
  subst hb
  rw [stackTop, Bitness.cut, toBitVec_read m m.bitness]
  exact ((BitVec.setWidth_setWidth_of_le _ m.bitness.pointerWidth.bits_le).trans (BitVec.setWidth_eq _)).symm

end Machine

end KernelOffsets
