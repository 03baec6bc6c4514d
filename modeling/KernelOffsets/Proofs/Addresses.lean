/-
The two ways of computing an address. The address that an instruction uses is
the sum of its reference modulo the address space (`toNat_address`), whatever
the width of its registers, so it wraps around where the processor does
unless narrow registers add up to more than their width
(`address_wraps_iff`). The address of a store that is made unknown is the
same, if it is known at all (`knownAddress?_agrees`), so a spilled pointer is
ended by any instruction that may overwrite it through the same reference.
-/
import KernelOffsets.Proofs.Forgetting
import KernelOffsets.Proofs.Decoded
import Mathlib.Algebra.Group.Nat.Defs

namespace KernelOffsets

/-! ## Where addresses wrap around -/

/-- What a reference adds up to, before anything is cut off. -/
def RegisterFile.total (f : RegisterFile) (o : MemoryOperand) : Nat :=
  o.displacement.toNat + (f.read o.base).bits.toNat + (f.read o.index).bits.toNat * o.scale.toNat

/-- A reference with a general register of a width. -/
def MemoryOperand.HasWidth (o : MemoryOperand) (w : Width) : Prop :=
  ∃ g, o.base = .gpr g w ∨ o.index = .gpr g w

namespace RegisterFile

variable {f : RegisterFile} {o : MemoryOperand} {w : Width}

theorem addresses_eq (b : Bitness) : b.addresses = 2 ^ (8 * b.pointerBytes) := by
  cases b <;> decide

/-- **The address that an instruction uses** is a sum modulo the address space of the mode. -/
theorem toNat_address (h : ∀ w, o.base ≠ .instructionPointer w) :
    (f.address o).bits.toNat = f.total o % f.bitness.addresses := by
  have haddress : (f.address o).bits =
      (o.displacement + (f.read o.base).bits + (f.read o.index).bits * o.scale) &&& f.bitness.addressMask := by
    unfold address
    split
    · next w hbase => exact absurd hbase (h w)
    · rfl
  rw [haddress, Bitness.toNat_and_addressMask, total]
  simp only [UInt64.toNat_add, UInt64.toNat_mul, Nat.reducePow]
  have hsize : f.bitness.addresses ∣ 18446744073709551616 := f.bitness.addresses_dvd
  rw [Nat.mod_mod_of_dvd _ hsize, Nat.add_mod, Nat.mod_mod_of_dvd _ hsize, Nat.mod_mod_of_dvd _ hsize, ← Nat.add_mod]

theorem toNat_lt_of_and_mask {x : UInt64} (h : x &&& w.mask = x) : x.toNat < 2 ^ (8 * w.bytes) := by
  rw [← h, UInt64.toNat_and]
  refine Nat.lt_of_le_of_lt Nat.and_le_right ?_
  cases w <;> decide

theorem read_lt {r : Register} (h : r.isOfSize w.bytes = true) : (f.read r).bits.toNat < 2 ^ (8 * w.bytes) := by
  cases r with
  | gpr g w' =>
    have hbytes : w'.bytes = w.bytes := eq_of_beq h
    exact hbytes ▸ toNat_lt_of_and_mask (by rw [read, Encoding.and_mask_mask])
  | highByte half =>
    have hbytes : 1 = w.bytes := eq_of_beq h
    rw [← hbytes, read, Value.bits_plain, UInt64.toNat_and]
    exact Nat.lt_of_le_of_lt Nat.and_le_right (by decide)
  | _ => exact Nat.two_pow_pos _

/-- Narrow registers never add up to the address space of the mode. -/
theorem total_lt (he : o.IsEncoded w) (hw : o.HasWidth w) (hnarrow : w.bytes < f.bitness.pointerBytes) :
    f.total o < f.bitness.addresses := by
  obtain ⟨hbase, hindex⟩ := he.isOfSize
  have hdisplacement : o.displacement.toNat < 2 ^ (8 * w.bytes) := by
    refine toNat_lt_of_and_mask (he.displacement.resolve_left ?_)
    rintro ⟨hnone, hnone'⟩
    obtain ⟨g, h | h⟩ := hw <;> simp_all
  have hscaled : (f.read o.index).bits.toNat * o.scale.toNat ≤ 2 ^ (8 * w.bytes) * 8 :=
    Nat.mul_le_mul (Nat.le_of_lt (read_lt hindex)) (UInt64.le_iff_toNat_le.1 he.scale)
  have hten : 10 * 2 ^ (8 * w.bytes) ≤ f.bitness.addresses := by
    rw [addresses_eq]
    revert hnarrow
    cases w <;> cases f.bitness <;> decide
  have hbase := read_lt (f := f) hbase
  unfold total
  omega

end RegisterFile

/-! ## The address of a store -/

/-- No index is added to the instruction pointer. -/
def MemoryOperand.IsAlone (o : MemoryOperand) : Prop :=
  ∀ w, o.base = .instructionPointer w → o.index = .absent

namespace MemoryOperand.IsEncoded

variable {o : MemoryOperand} {w w' : Width}

theorem isAlone (h : o.IsEncoded w) : o.IsAlone := by
  intro w' hbase
  obtain hb | hb | ⟨g, hb⟩ := h.base <;> rw [hbase] at hb <;> cases hb
  exact h.alone hbase

theorem width_eq (h : o.IsEncoded w) (hw : o.HasWidth w') : w' = w := by
  obtain ⟨g, hbase | hindex⟩ := hw
  · obtain hb | hb | ⟨g', hb⟩ := h.base <;> rw [hbase] at hb <;> cases hb
    rfl
  · obtain hi | ⟨v, n, hi⟩ | ⟨g', hi⟩ := h.index <;> rw [hindex] at hi <;> cases hi
    rfl

end MemoryOperand.IsEncoded

theorem MemoryOperand.IsAlone.base_ne {o : MemoryOperand} {w : Width} (h : o.IsAlone) (hw : o.HasWidth w) (w' : Width) :
    o.base ≠ .instructionPointer w' := by
  intro hbase
  obtain ⟨g, hb | hi⟩ := hw
  · rw [hb] at hbase
    cases hbase
  · rw [h w' hbase] at hi
    cases hi

namespace RegisterFile

variable {f : RegisterFile} {o : MemoryOperand}

/-- The sum of a reference is the address that an instruction uses. -/
theorem sumOf_eq_address (h : o.IsAlone) : f.sumOf o = (f.address o).bits := by
  unfold sumOf address
  split
  · next w hbase => simp [hbase, h w hbase, read]
  · rfl

/--
**Where an address wraps around:** at the width of the registers of its
reference, if they have the width of the mode or add up to less than theirs;
else it lies above. An address that is known to the machine is the same one.
-/
theorem address_wraps_iff (f : RegisterFile) (ip : UInt64) (bytes : List UInt8) (o : MemoryOperand) (w : Width)
    (h : (Encoding.decode f.bitness ip bytes).References o) (hw : o.HasWidth w) :
    ((f.address o).bits.toNat = f.total o % 2 ^ (8 * w.bytes) ↔
      w = f.bitness.pointerWidth ∨ f.total o < 2 ^ (8 * w.bytes)) ∧
    ∀ a, f.knownAddress? o = some a → a = (f.address o).bits := by
  obtain ⟨w', hle, he⟩ := Encoding.decode_references h
  obtain rfl := he.width_eq hw
  have haddress : (f.address o).bits.toNat = f.total o % f.bitness.addresses :=
    toNat_address (he.isAlone.base_ne hw)
  have hwidth : w = f.bitness.pointerWidth ↔ w.bytes = f.bitness.pointerBytes := by
    cases w <;> cases f.bitness <;> decide
  refine ⟨?_, fun a ha => (knownAddress?_eq_some_iff.1 ha).2.trans (sumOf_eq_address he.isAlone)⟩
  rw [haddress, hwidth]
  rcases Nat.eq_or_lt_of_le hle with hwide | hnarrow
  · rw [hwide, addresses_eq]
    exact iff_of_true rfl (.inl rfl)
  · rw [Nat.mod_eq_of_lt (total_lt he hw hnarrow)]
    constructor
    · intro hsum
      exact .inr (hsum ▸ Nat.mod_lt _ (Nat.two_pow_pos _))
    · rintro (hwide | hsmall)
      · exact absurd hwide (Nat.ne_of_lt hnarrow)
      · exact (Nat.mod_eq_of_lt hsmall).symm

/-- A load from just below the stack. -/
theorem address_wraps_iff_below :
    let f := (Machine.initial (.ofBytes 0x10000 .x64 #[]) 0x800000).registers
    let o : MemoryOperand := ⟨.segment .ss, .gpr .sp .qword, .absent, 1, 0xfffffffffffffff8, 8⟩
    (Encoding.decode f.bitness 0x10000 [0x48, 0x8b, 0x44, 0x24, 0xf8]).References o ∧ o.HasWidth .qword ∧
      (f.address o).bits.toNat = f.total o % 2 ^ 64 := by
  intro f o
  have href : (Encoding.decode f.bitness 0x10000 [0x48, 0x8b, 0x44, 0x24, 0xf8]).References o :=
    .inl (by decide +kernel)
  have hwidth : o.HasWidth .qword := ⟨.sp, .inl rfl⟩
  exact ⟨href, hwidth, ((address_wraps_iff f 0x10000 _ o .qword href hwidth).1).2 (.inl (by decide +kernel))⟩

/-- The address of `lea rdx, [ecx-8]` does not wrap around at 32 bits. -/
theorem not_address_wraps_narrow :
    ¬ ∀ (f : RegisterFile) (ip : UInt64) (bytes : List UInt8) (o : MemoryOperand) (w : Width),
      (Encoding.decode f.bitness ip bytes).References o → o.HasWidth w →
        (f.address o).bits.toNat = f.total o % 2 ^ (8 * w.bytes) := by
  intro h
  let f := (Machine.initial (.ofBytes 0x10000 .x64 #[]) 0x800000).registers.set (.gpr .cx .qword) 0x10
  let o : MemoryOperand := ⟨.segment .ds, .gpr .cx .dword, .absent, 1, 0xfffffff8, 0⟩
  have hwraps := h f 0x10000 [0x67, 0x48, 0x8d, 0x51, 0xf8] o .dword (.inl (by decide +kernel)) ⟨.cx, .inl rfl⟩
  revert hwraps
  decide +kernel

end RegisterFile

/-! ## Spilled pointers that are overwritten -/

namespace Machine

variable {m : Machine} {i : Instruction} {o : MemoryOperand}

/-- An instruction without a rule ends a pointer that was spilled where one of its stores may go. -/
theorem based_load_step (hi : i.isForgetting = true) {size : Nat} (hstore : { o with size } ∈ i.stores)
    (halone : o.IsAlone) {x : UInt64} (hx : m.bitness.Same x (m.registers.address o).bits) :
    ((m.step i).load x m.bitness.pointerBytes).based = false := by
  have hmode : (m.forget i).bitness = m.bitness := by
    rw [bitness, registers_forget, RegisterFile.bitness_clobberAll]
    rfl
  have hends : (m.storesOf i).any (Memory.ends m.bitness (x &&& m.bitness.addressMask)) = true := by
    refine (ends_storesOf (Bitness.same_and_mask _ _)).2 ⟨_, hstore, ?_⟩
    rcases Nat.eq_zero_or_pos size with hzero | hpos
    · exact .inr (.inl hzero)
    · have hsum : m.registers.sumOf { o with size } = (m.registers.address o).bits :=
        RegisterFile.sumOf_eq_address (o := { o with size }) halone
      have hstart := (hx.symm.trans (Bitness.same_and_mask _ x).symm).add (.refl _ (0 : Nat).toUInt64)
      exact .inr (.inr ⟨0, hpos, 0, m.bitness.pointerBytes_pos, hsum ▸ hstart⟩)
  rw [step_eq_forget hi, ← hmode, load_pointer, hmode, slots_forget, hends, Bool.not_true, Bool.and_false]

theorem step_spill {r : Register} (hop : i.operation = .mov) (hoperands : i.operands = [.memory o, .register r]) :
    m.step i = m.store (m.registers.address o).bits o.size (m.registers.read r) :=
  m.step_mov hop hoperands

/--
**The two addresses agree.** The address of a store is known exactly if its
segment does not depend on the thread and its registers are general ones, the
instruction pointer or none, and it is the address then that an instruction
uses; no reference of a decoded instruction adds an index to the instruction
pointer. So a pointer that was spilled through a reference is unmarked after
an instruction without a rule that may write through the same reference.
-/
theorem knownAddress?_agrees :
    (∀ (f : RegisterFile) (o : MemoryOperand), (∃ a, f.knownAddress? o = some a) ↔ o.IsComputable) ∧
    (∀ (f : RegisterFile) (o : MemoryOperand) (a : UInt64), o.IsAlone → f.knownAddress? o = some a →
      a = (f.address o).bits) ∧
    (∀ (mode : Bitness) (ip : UInt64) (bytes : List UInt8) (o : MemoryOperand),
      (Encoding.decode mode ip bytes).References o → o.IsAlone) ∧
    ∀ (m : Machine) (spill other : Instruction) (o : MemoryOperand) (r : Register) (size : Nat),
      spill.operation = .mov → spill.operands = [.memory o, .register r] → o.IsAlone →
      other.isForgetting = true → { o with size } ∈ other.stores →
      ∀ x, m.bitness.Same x (m.registers.address o).bits →
        (((m.step spill).step other).load x m.bitness.pointerBytes).based = false := by
  refine ⟨fun f o => ?_, fun f o a halone ha => ?_, fun mode ip bytes o h => ?_, ?_⟩
  · constructor
    · rintro ⟨a, ha⟩
      exact (RegisterFile.knownAddress?_eq_some_iff.1 ha).1
    · intro h
      exact ⟨_, RegisterFile.knownAddress?_eq_some_iff.2 ⟨h, rfl⟩⟩
  · exact (RegisterFile.knownAddress?_eq_some_iff.1 ha).2.trans (RegisterFile.sumOf_eq_address halone)
  · obtain ⟨w, -, hencoded⟩ := Encoding.decode_references h
    exact hencoded.isAlone
  · intro m spill other o r size hop hoperands halone hother hstore x hx
    rw [step_spill hop hoperands]
    exact based_load_step (m := m.store _ _ _) hother hstore halone hx

/-- A vector that is stored over a spilled pointer ends it. -/
theorem knownAddress?_agrees_overwritten :
    let m := (initial (.ofBytes 0x10000 .x64 #[]) 0x800000).writeRegister (.gpr .cx .qword) (.onBase 0x1000)
    let spill := Encoding.decode .x64 0x10000 [0x48, 0x89, 0x4c, 0x24, 0x08]
    let other := Encoding.decode .x64 0x10005 [0x0f, 0x11, 0x44, 0x24, 0x08]
    ((m.step spill).load 0x800008 8).based = true ∧ (((m.step spill).step other).load 0x800008 8).based = false := by
  intro m spill other
  let o : MemoryOperand := ⟨.segment .ss, .gpr .sp .qword, .absent, 1, 8, 8⟩
  have hspill : spill.operation = .mov ∧ spill.operands = [.memory o, .register (.gpr .cx .qword)] := by decide +kernel
  have hother : other.isForgetting = true ∧ { o with size := 16 } ∈ other.stores := by decide +kernel
  have hsame : m.bitness.Same 0x800008 (m.registers.address o).bits := by decide +kernel
  have hbased : (m.registers.read (.gpr .cx .qword)).based = true := by decide +kernel
  constructor
  · rw [step_spill hspill.1 hspill.2]
    exact (load_store_self hsame).2.trans hbased
  · exact knownAddress?_agrees.2.2.2 m spill other o (.gpr .cx .qword) 16 hspill.1 hspill.2 nofun hother.1 hother.2
      0x800008 hsame

end Machine

end KernelOffsets
