/-
What holds of every machine that was started afresh and then used for any
number of runs (`Machine.runs_wellFormed`): nothing lies outside of the
address space, the bytes of a spilled pointer are all written, no two spilled
pointers share a byte, and in 32-bit code no register holds more than 32 bits.
-/
import KernelOffsets.Encoding.Decode
import KernelOffsets.Proofs.Memory
import KernelOffsets.Proofs.Runs

namespace KernelOffsets

/-! ## Memory -/

namespace Bitness

variable {b : Bitness} {a x y : UInt64} {n : Nat}

/-- Two pointers that are a pointer's width apart, both ways around the circle. -/
def Apart (b : Bitness) (x y : UInt64) : Prop :=
  b.pointerBytes ≤ b.past x y ∧ b.pointerBytes ≤ b.past y x

theorem Same.of_add {i j : Nat} (h : b.Same (x + i.toUInt64) (y + j.toUInt64)) (hij : i ≤ j) :
    b.Same x (y + (j - i).toUInt64) := by
  have hsum : y + j.toUInt64 = y + (j - i).toUInt64 + i.toUInt64 := by
    have hj : j = (j - i) + i := by omega
    rw [UInt64.add_assoc, Nat.toUInt64_eq, Nat.toUInt64_eq, Nat.toUInt64_eq, ← UInt64.ofNat_add, ← hj]
  have := h.sub (.refl b i.toUInt64)
  rwa [hsum, UInt64.add_sub_cancel, UInt64.add_sub_cancel] at this

/-- Where two pointers share a byte, one of them starts within the other. -/
theorem past_lt_of_same {i j : Nat} (hj : j < b.pointerBytes) (h : b.Same (x + i.toUInt64) (y + j.toUInt64))
    (hij : i ≤ j) : b.past y x < b.pointerBytes := by
  rw [(Same.refl b y).past_eq (h.of_add hij), past_add]
  exact Nat.lt_of_le_of_lt (Nat.mod_le _ _) (by omega)

/-- **Pointers are apart** exactly if they share no byte. -/
theorem apart_iff :
    b.Apart x y ↔ ∀ i < b.pointerBytes, ∀ j < b.pointerBytes, ¬ b.Same (x + i.toUInt64) (y + j.toUInt64) := by
  constructor
  · rintro ⟨hxy, hyx⟩ i hi j hj h
    rcases Nat.le_total i j with hij | hji
    · exact Nat.not_lt.2 hyx (past_lt_of_same hj h hij)
    · exact Nat.not_lt.2 hxy (past_lt_of_same hi h.symm hji)
  · intro h
    have hpos := b.pointerBytes_pos
    refine ⟨Nat.le_of_not_lt fun hlt => ?_, Nat.le_of_not_lt fun hlt => ?_⟩
    · exact h _ hlt 0 hpos ((add_past b x y).trans (congrArg (· &&& b.addressMask) (add_zero_toUInt64 y).symm))
    · exact h 0 hpos _ hlt ((congrArg (· &&& b.addressMask) (add_zero_toUInt64 x)).trans (add_past b y x).symm)

theorem Apart.symm (h : b.Apart x y) : b.Apart y x := ⟨h.2, h.1⟩

/-- What a stored pointer does not meet is apart from it. -/
theorem apart_of_not_meets (h : b.meets a b.pointerBytes x = false) : b.Apart (a &&& b.addressMask) x := by
  refine apart_iff.2 fun i hi j hj hsame => ?_
  have hmeets := (b.meets_iff a b.pointerBytes x b.pointerBytes_pos).2
    ⟨i, hi, j, hj, ((same_and_mask b a).symm.add (.refl b _)).trans hsame⟩
  rw [h] at hmeets
  cases hmeets

end Bitness

/-- What holds of a memory that was written to from nothing. -/
structure Memory.WellFormed (b : Bitness) (m : Memory) : Prop where
  bytesWithin : ∀ x ∈ m.bytes, x &&& b.addressMask = x
  slotsWithin : ∀ x ∈ m.slots, x &&& b.addressMask = x
  written : ∀ x ∈ m.slots, ∀ i < b.pointerBytes, (x + i.toUInt64) &&& b.addressMask ∈ m.bytes
  apart : ∀ x ∈ m.slots, ∀ y ∈ m.slots, x ≠ y → b.Apart x y

namespace Memory.WellFormed

variable {b : Bitness} {m : Memory}

theorem empty (b : Bitness) : Memory.empty.WellFormed b := by
  constructor <;> simp [Memory.empty]

theorem forgetSpills (h : m.WellFormed b) : m.forgetSpills.WellFormed b := by
  refine ⟨h.bytesWithin, ?_, ?_, ?_⟩ <;> simp [Memory.forgetSpills]

/-- A spilled pointer after a store is the one that was stored, or one that the store does not meet. -/
theorem mem_slots_store (h : m.WellFormed b) {a x : UInt64} {n : Nat} {v : Value}
    (hx : x ∈ (m.store b a n v).slots) :
    n = b.pointerBytes ∧ x = a &&& b.addressMask ∨ x ∈ m.slots ∧ b.meets a n x = false := by
  have hcontains := Std.HashSet.contains_iff_mem.2 hx
  by_cases hold : x ∈ m.slots
  · rw [contains_store (h.slotsWithin x hold)] at hcontains
    split at hcontains
    · next hstored =>
      simp only [Bool.and_eq_true, beq_iff_eq] at hstored
      exact .inl ⟨hstored.1.2, hstored.2⟩
    · simp only [Bool.and_eq_true, Bool.not_eq_true'] at hcontains
      exact .inr ⟨hold, hcontains.2⟩
  · have hnew : m.slots.contains x = false := by simpa using hold
    rw [contains_store_window, hnew, Bool.false_and, Bool.or_false] at hcontains
    simp only [Bool.and_eq_true, beq_iff_eq] at hcontains
    exact .inl ⟨hcontains.2.1, hcontains.2.2.symm⟩

theorem store (h : m.WellFormed b) (a : UInt64) (n : Nat) (v : Value) : (m.store b a n v).WellFormed b where
  bytesWithin x hx := by
    rcases mem_writeBytes.1 hx with hold | ⟨i, -, rfl⟩
    · exact h.bytesWithin x hold
    · exact Bitness.same_and_mask b _
  slotsWithin x hx := by
    rcases h.mem_slots_store hx with ⟨-, rfl⟩ | ⟨hold, -⟩
    · exact Bitness.same_and_mask b a
    · exact h.slotsWithin x hold
  written x hx i hi := by
    rcases h.mem_slots_store hx with ⟨rfl, rfl⟩ | ⟨hold, -⟩
    · exact mem_writeBytes.2 (.inr ⟨i, hi, ((Bitness.same_and_mask b a).add (.refl b _)).symm⟩)
    · exact mem_writeBytes.2 (.inl (h.written x hold i hi))
  apart x hx y hy hne := by
    rcases h.mem_slots_store hx with ⟨rfl, rfl⟩ | ⟨hxold, hxmeets⟩ <;>
      rcases h.mem_slots_store hy with ⟨hn, rfl⟩ | ⟨hyold, hymeets⟩
    · exact absurd rfl hne
    · exact Bitness.apart_of_not_meets hymeets
    · exact (Bitness.apart_of_not_meets (hn ▸ hxmeets)).symm
    · exact h.apart x hxold y hyold hne

end Memory.WellFormed

/-! ## Registers of 32-bit code -/

/-- Whether a name is that of at most 32 bits of a register, or of one that holds nothing. -/
def Register.isNarrow : Register → Bool
  | .gpr _ w => w.bytes ≤ 4
  | _ => true

/-- Whether an instruction names only narrow registers where it may write. -/
def Instruction.isNarrow (i : Instruction) : Bool :=
  i.operands.all (fun | .register r => r.isNarrow | _ => true) && i.changes.all (·.isNarrow)

/-- Whether only narrow registers are named, before a run and in its instructions. -/
def Run.isNarrow (run : Run) : Bool :=
  run.writes.all (·.1.isNarrow) && run.path.all (·.isNarrow)

theorem Instruction.isNarrow_of_names {i : Instruction} (h : i.isNarrow = true) {r : Register}
    (hr : i.Names .x86 r) : r.isNarrow = true := by
  simp only [isNarrow, Bool.and_eq_true, List.all_eq_true] at h
  have operand {o : Operand} (ho : o = .missing ∨ o ∈ i.operands) (hr : o = .register r) : r.isNarrow = true := by
    subst hr
    rcases ho with ho | ho
    · cases ho
      rfl
    · exact h.1 _ ho
  rcases hr with hr | hr | hr | rfl | hr
  · exact operand i.first_mem hr
  · exact operand i.second_mem hr
  · exact h.2 r hr
  · rfl
  · have hvolatile : ∀ r ∈ Bitness.x86.volatile, r.isNarrow = true := by decide
    exact hvolatile r hr

/-- A word of at most 32 bits. -/
def IsShort (x : UInt64) : Prop := x.toNat < UInt32.size

instance (x : UInt64) : Decidable (IsShort x) := inferInstanceAs (Decidable (_ < _))

theorem IsShort.and_left {x : UInt64} (h : IsShort x) (y : UInt64) : IsShort (x &&& y) := by
  rw [IsShort, UInt64.toNat_and]
  exact Nat.lt_of_le_of_lt Nat.and_le_left h

theorem IsShort.and_right {y : UInt64} (h : IsShort y) (x : UInt64) : IsShort (x &&& y) :=
  UInt64.and_comm y x ▸ h.and_left x

theorem IsShort.or {x y : UInt64} (hx : IsShort x) (hy : IsShort y) : IsShort (x ||| y) := by
  rw [IsShort, UInt64.toNat_or]
  exact Nat.or_lt_two_pow (n := 32) hx hy

theorem isShort_shifted_byte (x : UInt64) : IsShort ((x &&& 0xff) <<< 8) := by
  have hbyte : (x &&& 0xff).toNat < 2 ^ 8 := by
    rw [UInt64.toNat_and]
    exact Nat.lt_of_le_of_lt Nat.and_le_right (by decide)
  rw [IsShort, UInt64.toNat_shiftLeft, Nat.shiftLeft_eq]
  refine Nat.lt_of_le_of_lt (Nat.mod_le _ _) ?_
  exact Nat.lt_of_lt_of_le (Nat.mul_lt_mul_of_pos_right hbyte (by decide)) (by decide)

/-- No register holds more than 32 bits. -/
def RegisterFile.IsNarrow (f : RegisterFile) : Prop :=
  ∀ g, IsShort (f.value g).bits

namespace RegisterFile.IsNarrow

variable {f : RegisterFile}

theorem put (h : f.IsNarrow) {v : Value} (hv : IsShort v.bits) (g : Gpr) : (f.put g v).IsNarrow := by
  intro g'
  rw [value_put]
  split
  · exact hv
  · exact h g'

theorem write (h : f.IsNarrow) {r : Register} (hr : r.isNarrow = true) (v : Value) : (f.write r v).IsNarrow := by
  cases r with
  | gpr g w =>
    refine h.put ?_ g
    cases w with
    | byte | word => exact ((h g).and_left _).or (IsShort.and_right (by decide) _)
    | dword => exact IsShort.and_right (by decide) _
    | qword => cases hr
  | highByte half => exact h.put (((h half.owner).and_left _).or (isShort_shifted_byte _)) _
  | _ => exact h

theorem initial (stackTop : UInt64) : (RegisterFile.initial .x86 stackTop).IsNarrow := by
  have hzero : RegisterFile.IsNarrow ⟨.x86, .replicate 16 (.plain 0), .replicate 16 false⟩ := by
    intro g
    simp [value]
    decide
  exact hzero.write (r := Bitness.x86.stackPointer) rfl (.plain stackTop)

end RegisterFile.IsNarrow

/-! ## Machines -/

/-- What holds of a machine after any number of runs. -/
structure Machine.WellFormed (m : Machine) : Prop where
  memory : m.memory.WellFormed m.bitness
  narrow : m.bitness = .x86 → m.registers.IsNarrow

namespace Machine

theorem bitness_initial (image : Image) (stackTop : UInt64) : (initial image stackTop).bitness = image.bitness := by
  simp [initial, bitness, RegisterFile.initial, RegisterFile.set, RegisterFile.clearWritten]

namespace WellFormed

variable {m : Machine} {b : Bitness}

theorem initial (image : Image) (stackTop : UInt64) : (initial image stackTop).WellFormed := by
  refine ⟨.empty _, fun hmode => ?_⟩
  rw [bitness_initial] at hmode
  rw [Machine.initial, hmode]
  exact RegisterFile.IsNarrow.initial stackTop

theorem writeRegister (h : m.WellFormed) {r : Register} (hr : m.bitness = .x86 → r.isNarrow = true) (v : Value) :
    (m.writeRegister r v).WellFormed := by
  have hmode := bitness_writeRegister m r v
  refine ⟨?_, fun hx86 => ?_⟩
  · rw [hmode]
    exact h.memory
  · rw [hmode] at hx86
    exact (h.narrow hx86).write (hr hx86) v

theorem keeping {i : Instruction} (hi : b = .x86 → i.isNarrow = true) :
    Keeping b i fun m => m.bitness = b ∧ m.WellFormed where
  mode h := h.1
  write v hr := by
    rintro ⟨rfl, h⟩
    exact ⟨bitness_writeRegister _ _ v,
      h.writeRegister (fun hx86 => Instruction.isNarrow_of_names (hi hx86) (hx86 ▸ hr)) v⟩
  store a n v h := ⟨h.1, h.2.memory.store a n v, h.2.narrow⟩
  forgetSpills h := ⟨h.1, h.2.memory.forgetSpills, h.2.narrow⟩

end WellFormed

/-- **The state is in order** after any number of runs of any instructions, wherever they end: all written bytes
and spilled pointers lie in the address space, the bytes of a spilled pointer are written, two of them are a
pointer's width apart and share no byte, and in 32-bit code registers hold 32 bits. -/
theorem runs_wellFormed (image : Image) (stackTop : UInt64) (budget : Nat) (runs : List Run)
    (h : image.bitness = .x86 → ∀ run ∈ runs, run.isNarrow = true) :
    let m := runs.foldl (afterRun budget) (initial image stackTop)
    m.bitness = image.bitness ∧ m.WellFormed ∧
      ∀ x ∈ m.memory.slots, ∀ y ∈ m.memory.slots, x ≠ y → ∀ i < m.bitness.pointerBytes, ∀ j < m.bitness.pointerBytes,
        ¬ m.bitness.Same (x + i.toUInt64) (y + j.toUInt64) := by
  have hnarrow (run : Run) (hrun : run ∈ runs) (hx86 : image.bitness = .x86) :
      (∀ w ∈ run.writes, w.1.isNarrow = true) ∧ ∀ i ∈ run.path, i.isNarrow = true := by
    simpa [Run.isNarrow] using h hx86 run hrun
  let P (m : Machine) : Prop := m.bitness = image.bitness ∧ m.WellFormed
  have hwrite : ∀ run ∈ runs, ∀ w ∈ run.writes, ∀ m, P m → P (m.writeRegister w.1 w.2) :=
    fun run hrun w hw m hm => ⟨(bitness_writeRegister m w.1 w.2).trans hm.1,
      hm.2.writeRegister (fun hx86 => (hnarrow run hrun (hm.1 ▸ hx86)).1 w hw) w.2⟩
  have hclear : ∀ m, P m → P { m with registers := m.registers.clearWritten } :=
    fun m hm => ⟨hm.1, hm.2.memory, hm.2.narrow⟩
  have hstep : ∀ run ∈ runs, ∀ i ∈ run.path, ∀ m, P m → P (m.step i) :=
    fun run hrun i hi m => (WellFormed.keeping fun hx86 => (hnarrow run hrun hx86).2 i hi).step
  have key := runs_invariant budget hwrite hclear hstep ⟨bitness_initial image stackTop, .initial image stackTop⟩
  exact ⟨key.1, key.2, fun x hx y hy hne => Bitness.apart_iff.1 (key.2.memory.apart x hx y hy hne)⟩

/-- 32-bit code that spills the base twice and half a register, and a second run that its budget ends. -/
theorem runs_wellFormed_spilled :
    let image := Image.ofBytes 0x10000 .x86 #[]
    let path := Encoding.sweep .x86 0x10000 [0x51, 0x51, 0x66, 0x53]
    let runs : List Run := [⟨[(.gpr .cx .dword, .onBase 0x1000)], path⟩, ⟨[], path ++ path⟩]
    (image.bitness = .x86 → ∀ run ∈ runs, run.isNarrow = true) ∧
      (runs.foldl (afterRun 5) (initial image 0x800000)).WellFormed := by
  intro image path runs
  have hnarrow : image.bitness = .x86 → ∀ run ∈ runs, run.isNarrow = true := by decide +kernel
  exact ⟨hnarrow, (runs_wellFormed image 0x800000 5 runs hnarrow).2.1⟩

end Machine

end KernelOffsets
