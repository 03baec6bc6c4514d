/-
The processor by its manual: sixteen registers of 64 bits and a byte at each
address of a mode. What an instruction does is the list of the places it
writes and of the numbers it writes there (`Processor.writes`); the numbers
have the width of the place, so that arithmetic is modulo that width by type,
and they are computed before anything is written.
-/
import KernelOffsets.Machine.Step

namespace KernelOffsets

/-- The width in bits. -/
def Width.bits (w : Width) : Nat := 8 * w.bytes

namespace Width

theorem bits_le (w : Width) : w.bits ≤ 64 := by
  cases w <;> decide

theorem toBitVec_mask (w : Width) : w.mask.toBitVec = (BitVec.allOnes w.bits).setWidth 64 := by
  cases w <;> rfl

theorem toBitVec_and_mask (w : Width) (x : UInt64) :
    (x &&& w.mask).toBitVec = (x.toBitVec.setWidth w.bits).setWidth 64 := by
  rw [UInt64.toBitVec_and, toBitVec_mask]
  apply BitVec.eq_of_getLsbD_eq
  intro i hi
  simp only [BitVec.getLsbD_and, BitVec.getLsbD_setWidth, BitVec.getLsbD_allOnes]
  grind

theorem toBitVec_signExtend (w : Width) (x : UInt64) :
    (signExtend w.bytes x).toBitVec = (x.toBitVec.setWidth w.bits).signExtend 64 := by
  cases w with
  | qword => exact ((x.toBitVec.setWidth 64).signExtend_eq.trans x.toBitVec.setWidth_eq).symm
  | _ => rfl

theorem lowBytes_bytes (w : Width) (x : UInt64) : lowBytes w.bytes x = x &&& w.mask := by
  cases w with
  | qword => exact UInt64.and_neg_one.symm
  | _ => rfl

/-- What is extended to a whole word and then cut is extended to the width of the cut. -/
theorem setWidth_signExtend {n : Nat} (w : Width) (x : BitVec n) :
    (x.signExtend 64).setWidth w.bits = x.signExtend w.bits := by
  have hle := w.bits_le
  apply BitVec.eq_of_getLsbD_eq
  intro i hi
  rw [BitVec.getLsbD_setWidth, BitVec.getLsbD_signExtend, BitVec.getLsbD_signExtend]
  simp [hi, show i < 64 by omega]

/-- The width of so many bytes. -/
def ofBytes : Nat → Width
  | 1 => .byte
  | 2 => .word
  | 4 => .dword
  | _ => .qword

end Width

/-- An address of a mode. -/
abbrev Bitness.Address (b : Bitness) : Type := BitVec b.pointerWidth.bits

/-- The width of a general register, high bytes included. -/
def Register.width : Register → Width
  | .gpr _ w => w
  | .highByte _ => .byte
  | _ => .qword

/-- The width at which an operand is accessed. -/
def Operand.width : Operand → Width
  | .register r => r.width
  | .memory o => .ofBytes o.size
  | .immediate _ w => w
  | _ => .qword

/-- The registers and the memory of a processor in a mode. -/
@[ext]
structure Processor (b : Bitness) where
  register : Gpr → BitVec 64
  memory : b.Address → BitVec 8

/-- What an operand stands for once its address is computed. -/
inductive Processor.Place (b : Bitness) where
  | register (r : Register)
  | memory (address : b.Address)
  | constant (bits : UInt64)

/-- A number that is written to a place. -/
structure Processor.Write (b : Bitness) where
  width : Width
  place : Processor.Place b
  value : BitVec width.bits

namespace Processor

variable {b : Bitness}

/-! ## Places -/

/-- The bits that a register name means; names of other than general registers mean none. -/
def named (s : Processor b) (w : Width) : Register → BitVec w.bits
  | .gpr g _ => (s.register g).setWidth w.bits
  | .highByte h => (s.register h.owner).extractLsb' 8 w.bits
  | _ => 0

/-- The number made of `n` bytes from an address on, the lowest byte first. -/
def number (s : Processor b) (a : b.Address) : Nat → Nat
  | 0 => 0
  | n + 1 => (s.memory a).toNat + 256 * s.number (a + 1) n

/-- The number at a place. -/
def read (s : Processor b) (w : Width) : Place b → BitVec w.bits
  | .register r => s.named w r
  | .memory a => .ofNat w.bits (s.number a w.bytes)
  | .constant bits => bits.toBitVec.setWidth w.bits

/-- What a register adds to an address. -/
def addend (s : Processor b) (r : Register) : b.Address :=
  (s.named r.width r).setWidth _

/-- The address of a reference. One relative to the instruction pointer is absolute already. -/
def address (s : Processor b) (o : MemoryOperand) : b.Address :=
  let displacement := o.displacement.toBitVec.setWidth _
  match o.base with
  | .instructionPointer _ => displacement
  | base => displacement + s.addend base + s.addend o.index * o.scale.toBitVec.setWidth _

/-- What an operand stands for. -/
def place (s : Processor b) : Operand → Place b
  | .register r => .register r
  | .memory o => .memory (s.address o)
  | .immediate bits _ => .constant bits
  | _ => .constant 0

/-- A register after a write of some of its bits: 32 bits clear the upper half, fewer leave the rest. -/
def merge (old : BitVec 64) : (w : Width) → BitVec w.bits → BitVec 64
  | .byte, v => old.extractLsb' 8 56 ++ (v : BitVec 8)
  | .word, v => old.extractLsb' 16 48 ++ (v : BitVec 16)
  | .dword, v | .qword, v => v.setWidth 64

/-- A register after a write of its second lowest byte. -/
def mergeHigh (old : BitVec 64) (v : BitVec 8) : BitVec 64 :=
  old.extractLsb' 16 48 ++ v ++ old.extractLsb' 0 8

/-- Replaces a register. -/
def put (s : Processor b) (g : Gpr) (v : BitVec 64) : Processor b :=
  { s with register := fun h => if g = h then v else s.register h }

/-- Replaces the bytes from an address on by those of a number. -/
def store (s : Processor b) (a : b.Address) (w : Width) (v : BitVec w.bits) : Processor b :=
  { s with memory := fun x =>
      if (x - a).toNat < w.bytes then v.extractLsb' (8 * (x - a).toNat) 8 else s.memory x }

/-- Writes a number to a place. -/
def write (s : Processor b) (e : Write b) : Processor b :=
  match e.place with
  | .register (.gpr g _) => s.put g (merge (s.register g) e.width e.value)
  | .register (.highByte h) => s.put h.owner (mergeHigh (s.register h.owner) (e.value.setWidth 8))
  | .memory a => s.store a e.width e.value
  | _ => s

/-! ## Instructions -/

/-- The address of the top of the stack. -/
def stackTop (s : Processor b) : b.Address :=
  s.read b.pointerWidth (.register b.stackPointer)

/-- The stack pointer gets a new value. -/
def moveStack (top : b.Address) : Write b :=
  ⟨b.pointerWidth, .register b.stackPointer, top⟩

/-- By how much an operand of a width is shifted. -/
def count (s : Processor b) (w : Width) (y : Place b) : Nat :=
  (s.read .byte y).toNat % (if w = .qword then 64 else 32)

/-- What the first operand, of width `w`, becomes, given a second one of width `v`. -/
def result (s : Processor b) (o : Operation) (w v : Width) (x y : Place b) : BitVec w.bits :=
  match o with
  | .mov => s.read w y
  | .movzx => (s.read v y).setWidth w.bits
  | .movsx | .movsxd => (s.read v y).signExtend w.bits
  | .add => s.read w x + s.read w y
  | .sub => s.read w x - s.read w y
  | .and => s.read w x &&& s.read w y
  | .or => s.read w x ||| s.read w y
  | .xor => s.read w x ^^^ s.read w y
  | .shl => s.read w x <<< s.count w y
  | .shr => s.read w x >>> s.count w y
  | .sar => (s.read w x).sshiftRight (s.count w y)
  | .inc => s.read w x + 1
  | .dec => s.read w x - 1
  | .neg => - s.read w x
  | .not => ~~~ s.read w x
  | _ => s.read w x

/--
The writes of an instruction in their order. A push reads its operand before
the stack pointer moves; a pop finds its destination after it has moved.
-/
def writes (s : Processor b) (i : Instruction) : List (Write b) :=
  let w := i.first.width
  let x := s.place i.first
  let y := s.place i.second
  match i.operation with
  | .push =>
    let top := s.stackTop - .ofNat _ w.bytes
    [moveStack top, ⟨w, .memory top, s.read w x⟩]
  | .pop =>
    let moved := moveStack (s.stackTop + .ofNat _ w.bytes)
    [moved, ⟨w, (s.write moved).place i.first, s.read w (.memory s.stackTop)⟩]
  | .xchg => [⟨w, x, s.read w y⟩, ⟨w, y, s.read w x⟩]
  | o => [⟨w, x, s.result o w i.second.width x y⟩]

/-! ## What is read after a write -/

variable {s : Processor b} {w : Width}

theorem getLsbD_merge (old : BitVec 64) (w : Width) (v : BitVec w.bits) {i : Nat} (hi : i < 64) :
    (merge old w v).getLsbD i = if i < w.bits then v.getLsbD i else decide (w.bits < 32) && old.getLsbD i := by
  cases w with
  | byte =>
    have hbits : Width.byte.bits = 8 := rfl
    refine BitVec.getLsbD_append.trans ?_
    rw [BitVec.getLsbD_extractLsb']
    grind
  | word =>
    have hbits : Width.word.bits = 16 := rfl
    refine BitVec.getLsbD_append.trans ?_
    rw [BitVec.getLsbD_extractLsb']
    grind
  | dword =>
    have hbits : Width.dword.bits = 32 := rfl
    refine (BitVec.getLsbD_setWidth ..).trans ?_
    grind
  | qword =>
    have hbits : Width.qword.bits = 64 := rfl
    refine (BitVec.getLsbD_setWidth ..).trans ?_
    grind

theorem getLsbD_mergeHigh (old : BitVec 64) (v : BitVec 8) {i : Nat} (hi : i < 64) :
    (mergeHigh old v).getLsbD i = if 8 ≤ i ∧ i < 16 then v.getLsbD (i - 8) else old.getLsbD i := by
  refine BitVec.getLsbD_append.trans ?_
  rw [BitVec.getLsbD_append, BitVec.getLsbD_extractLsb', BitVec.getLsbD_extractLsb']
  grind

theorem number_lt (s : Processor b) (a : b.Address) (n : Nat) : s.number a n < 1 <<< (8 * n) := by
  rw [Nat.one_shiftLeft]
  induction n generalizing a with
  | zero => exact Nat.one_pos
  | succ n ih =>
    have hbyte := (s.memory a).isLt
    have hrest := ih (a + 1)
    have hpow : 2 ^ (8 * (n + 1)) = 256 * 2 ^ (8 * n) := by rw [Nat.mul_succ, Nat.pow_add, Nat.mul_comm]
    rw [number, hpow]
    omega

theorem setWidth_merge (old : BitVec 64) (w : Width) (v : BitVec w.bits) : (merge old w v).setWidth w.bits = v := by
  have hle := w.bits_le
  apply BitVec.eq_of_getLsbD_eq
  intro i hi
  rw [BitVec.getLsbD_setWidth, getLsbD_merge _ _ _ (by omega)]
  simp [hi]

theorem extractLsb'_mergeHigh (old : BitVec 64) (v : BitVec 8) : (mergeHigh old v).extractLsb' 8 8 = v := by
  apply BitVec.eq_of_getLsbD_eq
  intro i hi
  rw [BitVec.getLsbD_extractLsb', getLsbD_mergeHigh _ _ (by omega), if_pos (by omega)]
  simp [hi]

/-- The two low bytes of a register do not meet. -/
theorem setWidth_mergeHigh (old : BitVec 64) (v : BitVec 8) : (mergeHigh old v).setWidth 8 = old.setWidth 8 := by
  apply BitVec.eq_of_getLsbD_eq
  intro i hi
  rw [BitVec.getLsbD_setWidth, BitVec.getLsbD_setWidth, getLsbD_mergeHigh _ _ (by omega), if_neg (by omega)]

theorem extractLsb'_merge_byte (old : BitVec 64) (v : BitVec Width.byte.bits) :
    (merge old .byte v).extractLsb' 8 8 = old.extractLsb' 8 8 := by
  have hbits : Width.byte.bits = 8 := rfl
  apply BitVec.eq_of_getLsbD_eq
  intro i hi
  rw [BitVec.getLsbD_extractLsb', BitVec.getLsbD_extractLsb', getLsbD_merge _ _ _ (by omega), if_neg (by omega)]
  simp [hbits]

theorem register_put (s : Processor b) (g h : Gpr) (v : BitVec 64) :
    (s.put g v).register h = if g = h then v else s.register h := rfl

/-- A register is read back at the width at which it was written. -/
theorem named_write_self {r : Register} (hr : r.gpr?.isSome) (hw : r.width = w) (v : BitVec w.bits) :
    (s.write ⟨w, .register r, v⟩).named w r = v := by
  subst hw
  cases r with
  | gpr g w =>
    simp only [write, named, register_put, if_pos]
    exact setWidth_merge _ w v
  | highByte h =>
    simp only [write, named, register_put, if_pos]
    exact (extractLsb'_mergeHigh _ _).trans (BitVec.setWidth_eq v)
  | _ => cases hr

theorem owner_inj {h h' : HighByte} (e : h.owner = h'.owner) : h = h' := by
  cases h <;> cases h' <;> first | rfl | cases e

/-- Registers of one width have all bits in common or none. -/
theorem named_write_of_ne {r r' : Register} (hr : r.width = w) (hr' : r'.width = w) (hne : r' ≠ r)
    (v : BitVec w.bits) : (s.write ⟨w, .register r', v⟩).named w r = s.named w r := by
  subst hr
  cases r with
  | gpr g w =>
    cases r' with
    | gpr g' w' =>
      have hg : g' ≠ g := by
        rintro rfl
        exact hne (congrArg _ hr')
      simp only [write, named, register_put, if_neg hg]
    | highByte h =>
      cases hr'
      simp only [write, named, register_put]
      split
      · next hg => exact hg ▸ setWidth_mergeHigh _ _
      · rfl
    | _ => rfl
  | highByte h =>
    cases r' with
    | gpr g' w' =>
      cases hr'
      simp only [write, named, register_put]
      split
      · next hg => exact hg ▸ extractLsb'_merge_byte _ v
      · rfl
    | highByte h' =>
      have hg : h'.owner ≠ h.owner := fun e => hne (congrArg _ (owner_inj e))
      simp only [write, named, register_put, if_neg hg]
    | _ => rfl
  | _ => rfl

theorem memory_write_register (s : Processor b) (r : Register) (v : BitVec w.bits) :
    (s.write ⟨w, .register r, v⟩).memory = s.memory := by
  cases r <;> rfl

theorem number_congr {s t : Processor b} (h : s.memory = t.memory) (a : b.Address) (n : Nat) :
    s.number a n = t.number a n := by
  induction n generalizing a with
  | zero => rfl
  | succ n ih => rw [number, number, h, ih]

/-- The distance to an address that is a few bytes ahead. -/
theorem toNat_ahead (a : b.Address) {k : Nat} (hk : k ≤ 8) : (a + .ofNat _ k - a).toNat = k := by
  have hlt : 8 < 2 ^ b.pointerWidth.bits := by cases b <;> decide
  rw [BitVec.add_comm, BitVec.add_sub_cancel, BitVec.toNat_ofNat, Nat.mod_eq_of_lt (by omega)]

/-- The bytes behind the first `k` ones of a number that was stored. -/
theorem number_store (s : Processor b) (a : b.Address) (v : BitVec w.bits) {k n : Nat} (h : k + n = w.bytes) :
    (s.store a w v).number (a + .ofNat _ k) n = v.toNat >>> (8 * k) := by
  have hle : w.bytes ≤ 8 := by cases w <;> decide
  -- The induction is on how many bytes are left, since the number is read from its lowest byte on.
  induction n generalizing k with
  | zero =>
    have hv : v.toNat < 2 ^ (8 * k) := by
      rw [← Nat.add_zero k, h]
      exact v.isLt
    rw [Nat.shiftRight_eq_div_pow, Nat.div_eq_of_lt hv]
    rfl
  | succ n ih =>
    have hdistance := toNat_ahead a (k := k) (by omega)
    have hbyte : (s.store a w v).memory (a + .ofNat _ k) = v.extractLsb' (8 * k) 8 := by
      simp only [store, hdistance, if_pos (show k < w.bytes by omega)]
    have hnext : a + .ofNat _ k + 1 = a + .ofNat _ (k + 1) := by
      rw [BitVec.add_assoc, BitVec.ofNat_add]
      rfl
    have hshift : v.toNat >>> (8 * (k + 1)) = v.toNat >>> (8 * k) / 256 := by
      rw [Nat.mul_succ, Nat.shiftRight_add]
      exact Nat.shiftRight_eq_div_pow ..
    rw [number, hbyte, hnext, ih (by omega), hshift, BitVec.extractLsb'_toNat]
    omega

/-- A number that was stored is read back. -/
theorem read_store (s : Processor b) (a : b.Address) (v : BitVec w.bits) :
    (s.store a w v).read w (.memory a) = v := by
  have hnumber := number_store s a v (Nat.zero_add w.bytes)
  have hzero : a + .ofNat _ 0 = a := BitVec.add_zero a
  rw [hzero, Nat.mul_zero, Nat.shiftRight_zero] at hnumber
  rw [read, hnumber, BitVec.ofNat_toNat, BitVec.setWidth_eq]

/-! ## What is not written -/

/-- A place is a register or a part of it. -/
def Place.IsIn (g : Gpr) (p : Place b) : Prop :=
  ∃ r, p = .register r ∧ r.gpr? = some g

/-- A write goes over the byte at an address. -/
def Write.Covers (x : b.Address) (e : Write b) : Prop :=
  ∃ a, e.place = .memory a ∧ (x - a).toNat < e.width.bytes

theorem memory_write {e : Write b} {x : b.Address} (h : ¬ e.Covers x) : (s.write e).memory x = s.memory x := by
  obtain ⟨w, p, v⟩ := e
  cases p with
  | register r => rw [memory_write_register]
  | memory a =>
    have hout : ¬ (x - a).toNat < w.bytes := fun hlt => h ⟨a, rfl, hlt⟩
    simp only [write, store, if_neg hout]
  | constant bits => rfl

theorem memory_foldl_write {writes : List (Write b)} {x : b.Address} (h : ∀ e ∈ writes, ¬ e.Covers x) :
    (writes.foldl write s).memory x = s.memory x := by
  induction writes generalizing s with
  | nil => rfl
  | cons e writes ih =>
    rw [List.foldl_cons, ih fun e he => h e (List.mem_cons_of_mem _ he), memory_write (h e List.mem_cons_self)]

end Processor

end KernelOffsets
