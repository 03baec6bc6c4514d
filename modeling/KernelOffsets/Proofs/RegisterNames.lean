/-
Names that share a register. A name means a field of the register that it
belongs to. What is written through one name and read through another is said
bit by bit: a write replaces a field of the word (`RegisterFile.getLsbD_value_write`),
a read takes a field out of it (`RegisterFile.getLsbD_read`). The relation to
the base passes only through names as wide as a pointer, on either way
(`RegisterFile.read_write`).
-/
import KernelOffsets.Proofs.ProcessorView
import KernelOffsets.Proofs.WrittenRegisters

namespace KernelOffsets

namespace Register

/-- The lowest bit that a name means. -/
def lowBit : Register → Nat
  | highByte _ => 8
  | _ => 0

/-- A bit of a register after a write through one of its names; 32 bits are written with zeros above them. -/
def replacedBit (r : Register) (old new : BitVec 64) (i : Nat) : Bool :=
  if r.lowBit ≤ i ∧ i < r.lowBit + r.width.bits then new.getLsbD (i - r.lowBit)
  else r.width != .dword && old.getLsbD i

/-- Whether a name is wide enough for a pointer. -/
def HoldsPointer (b : Bitness) (r : Register) : Prop :=
  b.pointerBytes ≤ r.bytes ∧ ∀ h, r ≠ highByte h

variable {b : Bitness}

theorem holdsPointer_gpr (g : Gpr) (w : Width) : (gpr g w).HoldsPointer b ↔ b.pointerBytes ≤ w.bytes :=
  and_iff_left fun _ => nofun

theorem field_le (r : Register) : r.lowBit + r.width.bits ≤ 64 := by
  cases r with
  | gpr g w => simpa [lowBit, width] using w.bits_le
  | highByte h => simp [lowBit, width, Width.bits, Width.bytes]
  | _ => simp [lowBit, width, Width.bits, Width.bytes]

theorem not_holdsPointer_highByte (h : HighByte) : ¬ (highByte h).HoldsPointer b :=
  fun hwide => hwide.2 h rfl

end Register

namespace RegisterFile

variable {r q : Register} {g h : Gpr}

/-! ## Fields of a word -/

theorem getLsbD_value_write (f : RegisterFile) (hr : r.gpr? = some g) (v : Value) {i : Nat} (hi : i < 64) :
    ((f.write r v).value g).bits.toBitVec.getLsbD i =
      r.replacedBit (f.value g).bits.toBitVec v.bits.toBitVec i := by
  cases r with
  | gpr g w =>
    obtain rfl := Option.some.inj hr
    rw [write, value_put, if_pos rfl, toBitVec_merge, Processor.getLsbD_merge _ _ _ hi]
    cases w <;> simp [Register.replacedBit, Register.lowBit, Register.width, Width.bits, Width.bytes] <;> grind
  | highByte h =>
    obtain rfl := Option.some.inj hr
    rw [write, value_put, if_pos rfl, Value.bits_plain, toBitVec_mergeHigh, Processor.getLsbD_mergeHigh _ _ hi]
    simp [Register.replacedBit, Register.lowBit, Register.width, Width.bits, Width.bytes]
    grind
  | _ => cases hr

theorem getLsbD_read (f : RegisterFile) (hq : q.gpr? = some g) (j : Nat) :
    (f.read q).bits.toBitVec.getLsbD j =
      (decide (j < q.width.bits) && (f.value g).bits.toBitVec.getLsbD (q.lowBit + j)) := by
  cases q with
  | gpr g w =>
    obtain rfl := Option.some.inj hq
    rw [read, Width.toBitVec_and_mask]
    simp [Register.lowBit, Register.width]
    grind
  | highByte h =>
    obtain rfl := Option.some.inj hq
    rw [read, Value.bits_plain, toBitVec_highByte]
    simp [Register.lowBit, Register.width, Width.bits, Width.bytes]
    grind
  | _ => cases hq

theorem getLsbD_read_write (f : RegisterFile) (hr : r.gpr? = some g) (hq : q.gpr? = some g) (v : Value) (j : Nat) :
    ((f.write r v).read q).bits.toBitVec.getLsbD j =
      (decide (j < q.width.bits) && r.replacedBit (f.value g).bits.toBitVec v.bits.toBitVec (q.lowBit + j)) := by
  rw [getLsbD_read _ hq]
  by_cases hj : j < q.width.bits
  · rw [getLsbD_value_write f hr v (Nat.lt_of_lt_of_le (Nat.add_lt_add_left hj _) q.field_le)]
  · simp [hj]

/-! ## The relation to the base -/

theorem based_value_write (f : RegisterFile) (hr : r.gpr? = some g) (v : Value) :
    ((f.write r v).value g).based = true ↔ v.based = true ∧ r.HoldsPointer f.bitness := by
  cases r with
  | gpr g w =>
    obtain rfl := Option.some.inj hr
    rw [write, value_put, if_pos rfl, Register.holdsPointer_gpr]
    cases w with
    | byte | word => cases f.bitness <;> simp [merge, Width.bytes, Bitness.pointerBytes]
    | dword | qword => simp [merge]
  | highByte h =>
    obtain rfl := Option.some.inj hr
    simp [write, value_put, Register.not_holdsPointer_highByte]
  | _ => cases hr

theorem based_read (f : RegisterFile) (hq : q.gpr? = some g) :
    (f.read q).based = true ↔ (f.value g).based = true ∧ q.HoldsPointer f.bitness := by
  cases q with
  | gpr g w =>
    obtain rfl := Option.some.inj hq
    simp [read, Register.holdsPointer_gpr]
  | highByte h => simp [read, Register.not_holdsPointer_highByte]
  | _ => cases hq

/-! ## Reading after writing -/

theorem read_write_other (f : RegisterFile) (hr : r.gpr? = some g) (hq : q.gpr? = some h) (hne : g ≠ h) (v : Value) :
    (f.write r v).read q = f.read q := by
  have hvalue : (f.write r v).value h = f.value h := value_write v (by simp [hr, hne])
  cases q with
  | gpr h w =>
    obtain rfl := Option.some.inj hq
    simp only [read, hvalue, bitness_write]
  | highByte b =>
    obtain rfl := Option.some.inj hq
    simp only [read, hvalue]
  | _ => cases hq

theorem read_write_self (f : RegisterFile) (hr : r.gpr? = some g) (v : Value) :
    ((f.write r v).read r).bits = v.bits &&& r.width.mask := by
  rw [← UInt64.toBitVec_inj, Width.toBitVec_and_mask]
  apply BitVec.eq_of_getLsbD_eq
  intro j hj
  rw [getLsbD_read_write f hr hr, BitVec.getLsbD_setWidth, BitVec.getLsbD_setWidth, decide_eq_true hj, Bool.true_and]
  by_cases hlt : j < r.width.bits
  · have hfield : r.lowBit ≤ r.lowBit + j ∧ r.lowBit + j < r.lowBit + r.width.bits :=
      ⟨Nat.le_add_right _ _, Nat.add_lt_add_left hlt _⟩
    rw [Register.replacedBit, if_pos hfield, Nat.add_sub_cancel_left]
  · rw [decide_eq_false hlt, Bool.false_and, Bool.false_and]

/-- **What is read through one name** after a write through another: nothing new if they belong to different registers,
and otherwise the field of the one in the word where the field of the other was replaced. -/
theorem read_write (f : RegisterFile) (hr : r.gpr? = some g) (hq : q.gpr? = some h) (v : Value) :
    (g ≠ h → (f.write r v).read q = f.read q ∧ (f.write r v).wasWritten q = f.wasWritten q) ∧
    (g = h →
      (∀ j, ((f.write r v).read q).bits.toBitVec.getLsbD j =
        (decide (j < q.width.bits) && r.replacedBit (f.value g).bits.toBitVec v.bits.toBitVec (q.lowBit + j))) ∧
      (((f.write r v).read q).based = true ↔
        v.based = true ∧ r.HoldsPointer f.bitness ∧ q.HoldsPointer f.bitness) ∧
      (f.write r v).wasWritten q = true) ∧
    ((f.write r v).read r).bits = v.bits &&& r.width.mask := by
  have hwritten : (f.write r v).wasWritten q = (decide (g = h) || f.wasWritten q) := by
    simp only [wasWritten, hq, hasWritten_write, hr]
    rfl
  refine ⟨fun hne => ⟨read_write_other f hr hq hne v, by simp [hwritten, hne]⟩, ?_, read_write_self f hr v⟩
  rintro rfl
  refine ⟨getLsbD_read_write f hr hq v, ?_, by simp [hwritten]⟩
  rw [based_read _ hq, based_value_write f hr, bitness_write, and_assoc]

/-- The second byte of a register that holds the base is replaced. -/
theorem read_write_highByte :
    let f := (initial .x64 0x800000).inject (.gpr .cx .qword) 0x1122334455667788
    let f' := f.write (.highByte .ch) (.onBase 0x3ab)
    (∀ j, (f'.read (.gpr .cx .word)).bits.toBitVec.getLsbD j = (decide (j < 16) &&
      Register.replacedBit (.highByte .ch) 0x1122334455667788#64 0x3ab#64 (0 + j))) ∧
    (f'.read (.gpr .cx .word)).bits = 0xab88 ∧ (f'.read (.gpr .cx .qword)).based = false ∧
    f'.read (.gpr .dx .qword) = f.read (.gpr .dx .qword) ∧ (f'.read (.highByte .ch)).bits = 0x3ab &&& 0xff := by
  intro f f'
  have hr : (Register.highByte .ch).gpr? = some .cx := rfl
  have hword : (Register.gpr .cx .word).gpr? = some .cx := rfl
  have hwhole : (Register.gpr .cx .qword).gpr? = some .cx := rfl
  have hother : (Register.gpr .dx .qword).gpr? = some .dx := rfl
  have hbits : (f.value .cx).bits.toBitVec = 0x1122334455667788#64 := by decide +kernel
  refine ⟨?_, by decide +kernel, ?_, ?_, ?_⟩
  · rw [← hbits]
    exact ((read_write f hr hword (.onBase 0x3ab)).2.1 rfl).1
  · refine eq_false_of_ne_true fun hbased => ?_
    have hwide := (((read_write f hr hwhole (.onBase 0x3ab)).2.1 rfl).2.1.1 hbased).2.1
    exact Register.not_holdsPointer_highByte _ hwide
  · exact ((read_write f hr hother (.onBase 0x3ab)).1 (by decide)).1
  · exact (read_write f hr hother (.onBase 0x3ab)).2.2

end RegisterFile

end KernelOffsets
