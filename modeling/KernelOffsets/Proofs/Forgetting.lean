/-
What an instruction without a rule of its own leaves behind. Its stores are
made one after the other at addresses that are all taken from the registers
before it, so the bytes that are zero and the spilled pointers that are ended
afterwards can be told from the stores alone (`Memory.getElem?_storeAll`,
`Memory.contains_storeAll`); `Machine.step_forgets` says so of the
instruction: it forgets what it may overwrite and nothing else.
-/
import KernelOffsets.Proofs.Spill
import KernelOffsets.Machine.Step
import KernelOffsets.Encoding.Decode

namespace KernelOffsets

/-! ## Addresses that are known -/

/-- Whether the machine knows what a register adds to an address: nothing, or a value that it holds. -/
def Register.IsHeld (r : Register) : Prop :=
  r = .absent ∨ ∃ g, r.gpr? = some g

/-- A reference whose address can be computed from the registers. -/
structure MemoryOperand.IsComputable (o : MemoryOperand) : Prop where
  segment : o.segment ≠ .segment .fs ∧ o.segment ≠ .segment .gs
  base : (∃ w, o.base = .instructionPointer w) ∨ o.base.IsHeld
  index : o.index.IsHeld

namespace RegisterFile

/-- The sum of a reference. What is not held adds nothing, and neither does the instruction pointer. -/
def sumOf (f : RegisterFile) (o : MemoryOperand) : UInt64 :=
  (o.displacement + (f.read o.base).bits + (f.read o.index).bits * o.scale) &&& f.bitness.addressMask

theorem known?_eq_some_iff {f : RegisterFile} {r : Register} {x : UInt64} :
    f.known? r = some x ↔ r.IsHeld ∧ x = (f.read r).bits := by
  cases r <;> simp [known?, Register.IsHeld, Register.gpr?, read, Value.plain, eq_comm]

/-- **The address of a reference is known** exactly if it is computable, and is its sum then. -/
theorem knownAddress?_eq_some_iff {f : RegisterFile} {o : MemoryOperand} {a : UInt64} :
    f.knownAddress? o = some a ↔ o.IsComputable ∧ a = f.sumOf o := by
  have hthread : o.segment.isThreadSegment = false ↔ o.segment ≠ .segment .fs ∧ o.segment ≠ .segment .gs := by
    unfold Register.isThreadSegment
    grind
  cases hsegment : o.segment.isThreadSegment with
  | true =>
    have hnone : f.knownAddress? o = none := by rw [knownAddress?, hsegment, if_pos rfl]
    rw [hnone]
    refine ⟨nofun, fun ⟨hcomputable, _⟩ => ?_⟩
    rw [hthread.2 hcomputable.segment] at hsegment
    cases hsegment
  | false =>
    have hiff : o.IsComputable ↔ ((∃ w, o.base = .instructionPointer w) ∨ o.base.IsHeld) ∧ o.index.IsHeld :=
      ⟨fun h => ⟨h.base, h.index⟩, fun ⟨hbase, hindex⟩ => ⟨hthread.1 hsegment, hbase, hindex⟩⟩
    rw [knownAddress?, hsegment, if_neg Bool.false_ne_true, hiff, sumOf]
    split
    · next w hbase =>
      simp only [Option.bind_eq_bind, Option.bind_some, Option.bind_eq_some_iff, known?_eq_some_iff, Option.pure_def,
        Option.some.injEq, hbase]
      constructor
      · rintro ⟨_, ⟨hindex, rfl⟩, rfl⟩
        exact ⟨⟨.inl ⟨w, rfl⟩, hindex⟩, rfl⟩
      · rintro ⟨⟨-, hindex⟩, rfl⟩
        exact ⟨_, ⟨hindex, rfl⟩, rfl⟩
    · next hbase =>
      simp only [Option.bind_eq_bind, Option.bind_eq_some_iff, known?_eq_some_iff, Option.pure_def,
        Option.some.injEq]
      constructor
      · rintro ⟨_, ⟨hheld, rfl⟩, _, ⟨hindex, rfl⟩, rfl⟩
        exact ⟨⟨.inr hheld, hindex⟩, rfl⟩
      · rintro ⟨⟨⟨w, hw⟩ | hheld, hindex⟩, rfl⟩
        · exact absurd hw (hbase w)
        · exact ⟨_, ⟨hheld, rfl⟩, _, ⟨hindex, rfl⟩, rfl⟩

theorem knownAddress?_eq_none_iff {f : RegisterFile} {o : MemoryOperand} :
    f.knownAddress? o = none ↔ ¬ o.IsComputable := by
  rw [Option.eq_none_iff_forall_ne_some]
  constructor
  · intro h hcomputable
    exact h _ (knownAddress?_eq_some_iff.2 ⟨hcomputable, rfl⟩)
  · intro h a ha
    exact h (knownAddress?_eq_some_iff.1 ha).1

end RegisterFile

/-! ## Stores one after the other -/

namespace Memory

variable {b : Bitness} {x : UInt64}

/-- Whether a store of unknown content writes a byte at an address. -/
def covers (b : Bitness) (x : UInt64) : Option UInt64 × Nat → Bool
  | (some a, n) => decide (∃ i < n, (a + i.toUInt64) &&& b.addressMask = x)
  | (none, _) => false

/-- Whether a store of unknown content ends a spill at an address. -/
def ends (b : Bitness) (x : UInt64) : Option UInt64 × Nat → Bool
  | (some a, n + 1) => decide (∃ i < b.pointerBytes - 1 + (n + 1),
      (a - (b.pointerBytes - 1).toUInt64 + i.toUInt64) &&& b.addressMask = x)
  | _ => true

theorem getElem?_writeBytes_zero (b : Bitness) (a x : UInt64) (n : Nat) (bytes : Std.HashMap UInt64 UInt8) :
    (writeBytes b a 0 n bytes)[x]? =
      if ∃ i < n, (a + i.toUInt64) &&& b.addressMask = x then some 0 else bytes[x]? := by
  induction n with
  | zero => simp [writeBytes]
  | succ n ih =>
    have hzero : wordByte 0 n = 0 := by simp [wordByte]
    rw [writeBytes_succ, Std.HashMap.getElem?_insert, ih, hzero]
    simp only [beq_iff_eq, Nat.lt_succ_iff_lt_or_eq, or_and_right, exists_or, exists_eq_left]
    grind

theorem getElem?_storeUnknown (m : Memory) (t : Option UInt64 × Nat) :
    (Machine.storeUnknown m b t).bytes[x]? = if covers b x t then some 0 else m.bytes[x]? := by
  obtain ⟨_ | a, _ | n⟩ := t
  · rfl
  · rfl
  · simp [Machine.storeUnknown, covers]
  · simp only [Machine.storeUnknown, covers, store, Value.bits_plain, getElem?_writeBytes_zero, decide_eq_true_eq]

theorem contains_storeUnknown (m : Memory) (t : Option UInt64 × Nat) :
    (Machine.storeUnknown m b t).slots.contains x = (m.slots.contains x && !ends b x t) := by
  obtain ⟨_ | a, _ | n⟩ := t
  · simp [Machine.storeUnknown, ends]
  · simp [Machine.storeUnknown, ends]
  · simp [Machine.storeUnknown, ends]
  · rw [Machine.storeUnknown, contains_store_window, Value.based_plain, Bool.false_and, Bool.false_or, ends]

/-- **The bytes after some stores** are zero wherever one of them writes. -/
theorem getElem?_storeAll (m : Memory) (ts : List (Option UInt64 × Nat)) :
    (ts.foldl (Machine.storeUnknown · b) m).bytes[x]? = if ts.any (covers b x) then some 0 else m.bytes[x]? := by
  induction ts generalizing m with
  | nil => rfl
  | cons t ts ih =>
    rw [List.foldl_cons, ih, getElem?_storeUnknown, List.any_cons]
    cases covers b x t <;> cases ts.any (covers b x) <;> rfl

/-- **The spills after some stores** are those that none of them ends. -/
theorem contains_storeAll (m : Memory) (ts : List (Option UInt64 × Nat)) :
    (ts.foldl (Machine.storeUnknown · b) m).slots.contains x = (m.slots.contains x && !ts.any (ends b x)) := by
  induction ts generalizing m with
  | nil => simp
  | cons t ts ih =>
    rw [List.foldl_cons, ih, contains_storeUnknown, List.any_cons, Bool.not_or, Bool.and_assoc]

end Memory

/-- A pointer at `x` shares a byte with the `n` bytes at `a`. -/
def Bitness.Overlaps (b : Bitness) (a : UInt64) (n : Nat) (x : UInt64) : Prop :=
  ∃ i < n, ∃ j < b.pointerBytes, b.Same (a + i.toUInt64) (x + j.toUInt64)

theorem Memory.ends_iff_overlaps {b : Bitness} {a x : UInt64} {n : Nat} (hx : x &&& b.addressMask = x) (hn : 0 < n) :
    ends b x (some a, n) = true ↔ b.Overlaps a n x := by
  obtain ⟨n, rfl⟩ := Nat.exists_eq_succ_of_ne_zero (Nat.ne_of_gt hn)
  rw [Bitness.Overlaps, ← b.meets_iff a (n + 1) x hn, ends, Bitness.meets, decide_eq_true_iff, decide_eq_true_iff]
  exact Bitness.exists_ahead_iff hx

/-! ## Registers -/

namespace RegisterFile

variable {f : RegisterFile} {g : Gpr}

/-- Nothing is known of a register, but that it was written. -/
structure IsForgotten (f : RegisterFile) (g : Gpr) : Prop where
  unmarked : (f.value g).based = false
  written : f.hasWritten g = true

theorem clobber_of_gpr? {r : Register} (h : r.gpr? = some g) : ∃ bits, f.clobber r = f.put g (.plain bits) := by
  cases r with
  | gpr g' w =>
    obtain rfl := Option.some.inj h
    cases w <;> exact ⟨_, rfl⟩
  | highByte b =>
    obtain rfl := Option.some.inj h
    exact ⟨_, rfl⟩
  | _ => cases h

theorem clobber_of_gpr?_eq_none {r : Register} (h : r.gpr? = none) : f.clobber r = f := by
  cases r with
  | gpr g w => cases h
  | highByte b => cases h
  | _ => rfl

theorem isForgotten_clobber {r : Register} (h : r.gpr? = some g) : (f.clobber r).IsForgotten g := by
  obtain ⟨bits, hput⟩ := clobber_of_gpr? (f := f) h
  rw [hput]
  exact ⟨by rw [value_put, if_pos rfl, Value.based_plain], by simp [hasWritten_put]⟩

theorem clobber_of_ne {r : Register} (h : r.gpr? ≠ some g) :
    (f.clobber r).value g = f.value g ∧ (f.clobber r).hasWritten g = f.hasWritten g := by
  cases hr : r.gpr? with
  | none => simp only [clobber_of_gpr?_eq_none hr, and_self]
  | some g' =>
    obtain ⟨bits, hput⟩ := clobber_of_gpr? (f := f) hr
    have hne : g' ≠ g := fun he => h (hr.trans (congrArg some he))
    rw [hput, value_put, if_neg hne, hasWritten_put, decide_eq_false hne, Bool.false_or]
    exact ⟨rfl, rfl⟩

theorem IsForgotten.clobber (h : f.IsForgotten g) (r : Register) : (f.clobber r).IsForgotten g := by
  by_cases hr : r.gpr? = some g
  · exact isForgotten_clobber hr
  · obtain ⟨hvalue, hwritten⟩ := clobber_of_ne (f := f) hr
    exact ⟨by rw [hvalue, h.unmarked], by rw [hwritten, h.written]⟩

theorem IsForgotten.clobberAll (h : f.IsForgotten g) (rs : List Register) :
    (rs.foldl RegisterFile.clobber f).IsForgotten g := by
  induction rs generalizing f with
  | nil => exact h
  | cons r rs ih => exact ih (h.clobber r)

theorem isForgotten_clobberAll {rs : List Register} (h : ∃ r ∈ rs, r.gpr? = some g) :
    (rs.foldl clobber f).IsForgotten g := by
  induction rs generalizing f with
  | nil =>
    obtain ⟨r, hr, -⟩ := h
    cases hr
  | cons r rs ih =>
    obtain ⟨r', hr', hg⟩ := h
    obtain rfl | hr' := List.mem_cons.1 hr'
    · exact (isForgotten_clobber hg).clobberAll rs
    · exact ih ⟨r', hr', hg⟩

theorem clobberAll_of_ne {rs : List Register} (h : ∀ r ∈ rs, r.gpr? ≠ some g) :
    (rs.foldl clobber f).value g = f.value g ∧ (rs.foldl clobber f).hasWritten g = f.hasWritten g := by
  induction rs generalizing f with
  | nil => exact ⟨rfl, rfl⟩
  | cons r rs ih =>
    obtain ⟨hvalue, hwritten⟩ := clobber_of_ne (f := f) (h r List.mem_cons_self)
    obtain ⟨hvalue', hwritten'⟩ := ih (f := f.clobber r) fun r' hr' => h r' (List.mem_cons_of_mem _ hr')
    exact ⟨hvalue'.trans hvalue, hwritten'.trans hwritten⟩

theorem bitness_clobberAll (f : RegisterFile) (rs : List Register) : (rs.foldl clobber f).bitness = f.bitness := by
  induction rs generalizing f with
  | nil => rfl
  | cons r rs ih => exact (ih (f.clobber r)).trans (bitness_write f r _)

end RegisterFile

/-! ## Instructions -/

/-- Whether the machine has a rule of its own for an operation. -/
def Operation.hasRule : Operation → Bool
  | .invalid | .unmodelled _ => false
  | _ => true

/-- Whether control goes to a called function or along a branch. -/
def Flow.isTransfer : Flow → Bool
  | .call | .indirectCall | .conditionalBranch | .unconditionalBranch | .indirectBranch => true
  | _ => false

/-- Whether an instruction makes what it may overwrite unknown: it has no rule, and neither calls nor branches. -/
def Instruction.isForgetting (i : Instruction) : Bool :=
  !i.operation.hasRule && !i.flow.isTransfer

namespace Machine

variable {m : Machine} {i : Instruction}

theorem step_eq_forget (h : i.isForgetting = true) : m.step i = m.forget i := by
  obtain ⟨hrule, htransfer⟩ := Bool.and_eq_true_iff.1 h
  have hother : m.step i = m.stepOther i := by
    unfold step
    cases hoperation : i.operation with
    | invalid | unmodelled name => rfl
    | _ => simp [hoperation, Operation.hasRule] at hrule
  rw [hother]
  unfold stepOther
  cases hflow : i.flow with
  | call | indirectCall | conditionalBranch | unconditionalBranch | indirectBranch =>
    simp [hflow, Flow.isTransfer] at htransfer
  | _ => rfl

theorem clobberAll_eq (m : Machine) (rs : List Register) :
    rs.foldl clobber m = { m with registers := rs.foldl RegisterFile.clobber m.registers } := by
  induction rs generalizing m with
  | nil => rfl
  | cons r rs ih => exact ih (m.clobber r)

theorem registers_forget (m : Machine) (i : Instruction) :
    (m.forget i).registers = i.changes.foldl RegisterFile.clobber m.registers := by
  rw [forget, clobberAll_eq]

theorem bytes_forget (m : Machine) (i : Instruction) (x : UInt64) :
    (m.forget i).memory.bytes[x]? =
      if (m.storesOf i).any (Memory.covers m.bitness x) then some 0 else m.memory.bytes[x]? := by
  rw [forget, clobberAll_eq]
  simp only [Memory.getElem?_storeAll]
  cases i.repeated <;> rfl

theorem slots_forget (m : Machine) (i : Instruction) (x : UInt64) :
    (m.forget i).memory.slots.contains x =
      (!i.repeated && m.memory.slots.contains x && !(m.storesOf i).any (Memory.ends m.bitness x)) := by
  rw [forget, clobberAll_eq]
  simp only [Memory.contains_storeAll]
  cases i.repeated <;> simp

/-- A pointer whose bytes and mark are as before is loaded as before. -/
theorem load_eq_of_bytes {m' : Machine} {x : UInt64} (himage : m'.image = m.image) (hmode : m'.bitness = m.bitness)
    (hbytes : ∀ j < m.bitness.pointerBytes, m'.memory.bytes[(x + j.toUInt64) &&& m.bitness.addressMask]? =
      m.memory.bytes[(x + j.toUInt64) &&& m.bitness.addressMask]?)
    (hslot : m'.memory.slots.contains (x &&& m.bitness.addressMask) =
      m.memory.slots.contains (x &&& m.bitness.addressMask)) :
    m'.load x m.bitness.pointerBytes = m.load x m.bitness.pointerBytes := by
  have hbackground : m'.background = m.background := by
    funext a
    rw [background, background, himage]
  have hword : m'.memory.wordAt m.bitness m.background x m.bitness.pointerBytes =
      m.memory.wordAt m.bitness m.background x m.bitness.pointerBytes :=
    Memory.wordAt_congr fun j hj => by rw [Memory.byteAt, Memory.byteAt, hbytes j hj]
  have hload := load_pointer m' x
  rw [hmode] at hload
  rw [hload, load_pointer, hbackground, hword, hslot]

/-- What an instruction forgets that may overwrite its registers and its stores, and what it keeps. -/
structure Forgets (m : Machine) (i : Instruction) (m' : Machine) : Prop where
  image : m'.image = m.image
  mode : m'.bitness = m.bitness
  /-- Of a register of which it may change any part nothing is known but that it was written. -/
  changed : ∀ r ∈ i.changes, ∀ g, r.gpr? = some g → m'.registers.IsForgotten g
  unchanged : ∀ g, (∀ r ∈ i.changes, r.gpr? ≠ some g) →
    m'.registers.value g = m.registers.value g ∧ m'.registers.hasWritten g = m.registers.hasWritten g
  /-- The addresses of its stores are those of the registers before it. -/
  zeroed : ∀ o ∈ i.stores, o.IsComputable → ∀ k < o.size,
    m'.memory.bytes[(m.registers.sumOf o + k.toUInt64) &&& m.bitness.addressMask]? = some 0
  ended : ∀ o ∈ i.stores, o.IsComputable → 0 < o.size → ∀ x, x &&& m.bitness.addressMask = x →
    m.bitness.Overlaps (m.registers.sumOf o) o.size x → m'.memory.slots.contains x = false
  /-- A store that goes to an unknown address or an unknown number of bytes ends all spills. -/
  untracked : (i.repeated = true ∨ ∃ o ∈ i.stores, ¬ o.IsComputable ∨ o.size = 0) →
    ∀ x, m'.memory.slots.contains x = false
  keptBytes : ∀ x, (∀ o ∈ i.stores, o.IsComputable → ∀ k < o.size,
      (m.registers.sumOf o + k.toUInt64) &&& m.bitness.addressMask ≠ x) →
    m'.memory.bytes[x]? = m.memory.bytes[x]?
  keptSlots : i.repeated = false → (∀ o ∈ i.stores, o.IsComputable ∧ 0 < o.size) →
    ∀ x, x &&& m.bitness.addressMask = x →
    (∀ o ∈ i.stores, ¬ m.bitness.Overlaps (m.registers.sumOf o) o.size x) →
    m'.memory.slots.contains x = m.memory.slots.contains x ∧
      m'.load x m.bitness.pointerBytes = m.load x m.bitness.pointerBytes

theorem covers_storesOf {x : UInt64} :
    (m.storesOf i).any (Memory.covers m.bitness x) = true ↔
      ∃ o ∈ i.stores, o.IsComputable ∧ ∃ k < o.size,
        (m.registers.sumOf o + k.toUInt64) &&& m.bitness.addressMask = x := by
  simp only [storesOf, List.any_map, List.any_eq_true, Function.comp_apply]
  refine exists_congr fun o => and_congr_right fun _ => ?_
  cases ha : m.registers.knownAddress? o with
  | none => simp [Memory.covers, RegisterFile.knownAddress?_eq_none_iff.1 ha]
  | some a =>
    obtain ⟨hcomputable, rfl⟩ := RegisterFile.knownAddress?_eq_some_iff.1 ha
    simp only [Memory.covers, decide_eq_true_eq, hcomputable, true_and]

theorem ends_storesOf {x : UInt64} (hx : x &&& m.bitness.addressMask = x) :
    (m.storesOf i).any (Memory.ends m.bitness x) = true ↔
      ∃ o ∈ i.stores, ¬ o.IsComputable ∨ o.size = 0 ∨ m.bitness.Overlaps (m.registers.sumOf o) o.size x := by
  simp only [storesOf, List.any_map, List.any_eq_true, Function.comp_apply]
  refine exists_congr fun o => and_congr_right fun _ => ?_
  cases ha : m.registers.knownAddress? o with
  | none => simp [Memory.ends, RegisterFile.knownAddress?_eq_none_iff.1 ha]
  | some a =>
    obtain ⟨hcomputable, rfl⟩ := RegisterFile.knownAddress?_eq_some_iff.1 ha
    rcases Nat.eq_zero_or_pos o.size with hzero | hpos
    · simp [hzero, Memory.ends]
    · rw [Memory.ends_iff_overlaps hx hpos]
      simp [hcomputable, Nat.ne_of_gt hpos]

theorem ends_of_untracked (h : ∃ o ∈ i.stores, ¬ o.IsComputable ∨ o.size = 0) (x : UInt64) :
    (m.storesOf i).any (Memory.ends m.bitness x) = true := by
  obtain ⟨o, ho, huntracked⟩ := h
  refine List.any_eq_true.2 ⟨_, List.mem_map_of_mem ho, ?_⟩
  rcases huntracked with hunknown | hzero
  · rw [RegisterFile.knownAddress?_eq_none_iff.2 hunknown]
    rfl
  · rw [hzero]
    cases m.registers.knownAddress? o <;> rfl

/--
**An instruction without a rule forgets what it may overwrite and nothing
else.** That goes for its registers, for the bytes at the addresses of its
stores by the registers before it, and for the pointers spilled there; and
for all spilled pointers if it cannot be told where it stores.
-/
theorem step_forgets (m : Machine) (i : Instruction) (h : i.isForgetting = true) : m.Forgets i (m.step i) := by
  have himage : (m.forget i).image = m.image := by rw [forget, clobberAll_eq]
  have hmode : (m.forget i).bitness = m.bitness := by
    rw [bitness, registers_forget, RegisterFile.bitness_clobberAll]
    rfl
  have hkept : ∀ x, (∀ o ∈ i.stores, o.IsComputable → ∀ k < o.size,
      (m.registers.sumOf o + k.toUInt64) &&& m.bitness.addressMask ≠ x) →
      (m.forget i).memory.bytes[x]? = m.memory.bytes[x]? := by
    intro x hx
    rw [bytes_forget, if_neg]
    rintro hcovers
    obtain ⟨o, ho, hcomputable, k, hk, he⟩ := covers_storesOf.1 hcovers
    exact hx o ho hcomputable k hk he
  rw [step_eq_forget h]
  constructor
  case image => exact himage
  case mode => exact hmode
  case keptBytes => exact hkept
  case changed =>
    intro r hr g hg
    rw [registers_forget]
    exact RegisterFile.isForgotten_clobberAll ⟨r, hr, hg⟩
  case unchanged =>
    intro g hg
    rw [registers_forget]
    exact RegisterFile.clobberAll_of_ne hg
  case zeroed =>
    intro o ho hcomputable k hk
    rw [bytes_forget, if_pos (covers_storesOf.2 ⟨o, ho, hcomputable, k, hk, rfl⟩)]
  case ended =>
    intro o ho hcomputable hpos x hx hoverlaps
    rw [slots_forget, (ends_storesOf hx).2 ⟨o, ho, .inr (.inr hoverlaps)⟩, Bool.not_true, Bool.and_false]
  case untracked =>
    rintro (hrepeated | huntracked) x
    · rw [slots_forget, hrepeated, Bool.not_true, Bool.false_and, Bool.false_and]
    · rw [slots_forget, ends_of_untracked huntracked, Bool.not_true, Bool.and_false]
  case keptSlots =>
    intro hrepeated htracked x hx hapart
    have hends : (m.storesOf i).any (Memory.ends m.bitness x) = false := by
      rw [Bool.eq_false_iff, Ne, ends_storesOf hx]
      rintro ⟨o, ho, hunknown | hzero | hoverlaps⟩
      · exact hunknown (htracked o ho).1
      · exact Nat.ne_of_gt (htracked o ho).2 hzero
      · exact hapart o ho hoverlaps
    have hslot : (m.forget i).memory.slots.contains x = m.memory.slots.contains x := by
      rw [slots_forget, hrepeated, hends, Bool.not_false, Bool.true_and, Bool.and_true]
    refine ⟨hslot, load_eq_of_bytes himage hmode (fun j hj => hkept _ ?_) (by rw [hx, hslot])⟩
    exact fun o ho _ k hk he => hapart o ho ⟨k, hk, j, hj, he⟩

/-- A string store moves its own address register, and ends the pointer that was spilled where it pointed before. -/
theorem step_forgets_stosq :
    let i := Encoding.decode .x64 0x10000 [0x48, 0xab]
    let m := ((initial (.ofBytes 0x10000 .x64 #[]) 0x800000).store 0x1000 8 (.onBase 0x5000)).writeRegister
      (.gpr .di .qword) (.onBase 0x1000)
    i.isForgetting = true ∧ m.memory.slots.contains 0x1000 = true ∧ (m.step i).memory.slots.contains 0x1000 = false ∧
      (m.step i).registers.IsForgotten .di ∧ (m.step i).registers.value .sp = m.registers.value .sp := by
  intro i m
  have hforgetting : i.isForgetting = true := by decide +kernel
  have hstores : i.stores = [⟨.segment .es, .gpr .di .qword, .absent, 1, 0, 8⟩] := by decide +kernel
  have hchanges : i.changes = [.gpr .di .qword] := by decide +kernel
  have hforgets := step_forgets m i hforgetting
  have hspilled : m.memory.slots.contains 0x1000 = true :=
    (Memory.contains_store (b := .x64) (by decide)).trans (by decide)
  refine ⟨hforgetting, hspilled, ?_, ?_, ?_⟩
  · refine hforgets.ended _ (hstores ▸ List.mem_singleton_self _) ⟨by decide, .inr (.inr ⟨.di, rfl⟩), .inl rfl⟩
      (by decide) 0x1000 (by decide) ⟨0, by decide, 0, by decide, ?_⟩
    decide
  · exact hforgets.changed (.gpr .di .qword) (hchanges ▸ List.mem_singleton_self _) .di rfl
  · refine (hforgets.unchanged .sp ?_).1
    rw [hchanges]
    decide

end Machine

end KernelOffsets
