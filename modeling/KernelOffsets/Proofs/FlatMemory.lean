/-
Memory as a flat array of bytes that remembers where its pointers come from.
A store replaces the bytes it covers and no other ones, and a pointer that is
loaded is marked exactly if the last store that touched one of its bytes was
that of a whole marked pointer at its own address (`Machine.load_flat`). All
addresses lie on a circle; nothing is assumed about where a store begins.
-/
import KernelOffsets.Proofs.Spill
import Mathlib.Data.List.Induction

namespace KernelOffsets

/-- A write to memory. -/
structure Store where
  address : UInt64
  size : Nat
  value : Value
  deriving DecidableEq, Repr

namespace Store

/-- The byte at `x` is the `j`-th one of the store. -/
def Covers (b : Bitness) (s : Store) (j : Nat) (x : UInt64) : Prop :=
  j < s.size ∧ b.Same x (s.address + j.toUInt64)

/-- Some byte of the pointer at `x` is one of the store. -/
def Touches (b : Bitness) (s : Store) (x : UInt64) : Prop :=
  ∃ i < b.pointerBytes, ∃ j < s.size, b.Same (x + i.toUInt64) (s.address + j.toUInt64)

/-- The store writes a whole marked pointer at `x`. -/
def Spills (b : Bitness) (s : Store) (x : UInt64) : Prop :=
  b.Same x s.address ∧ s.size = b.pointerBytes ∧ s.value.based = true

/-- The store writes a byte, and none of them twice. -/
def Fits (b : Bitness) (s : Store) : Prop :=
  0 < s.size ∧ s.size ≤ b.addresses

/-- Of some stores, one after the other, the last that touches the pointer at `x`. -/
def IsLast (b : Bitness) (stores : List Store) (x : UInt64) (s : Store) : Prop :=
  ∃ before after, stores = before ++ s :: after ∧ s.Touches b x ∧ ∀ t ∈ after, ¬ t.Touches b x

variable {b : Bitness} {s t : Store} {stores : List Store} {x y : UInt64} {j : Nat}

instance : Decidable (s.Covers b j x) := inferInstanceAs (Decidable (_ ∧ _))

instance : Decidable (s.Touches b x) := inferInstanceAs (Decidable (∃ i < _, ∃ j < _, _))

instance : Decidable (s.Spills b x) := inferInstanceAs (Decidable (_ ∧ _))

instance : Decidable (s.Fits b) := inferInstanceAs (Decidable (_ ∧ _))

theorem covers_iff_past (hs : s.size ≤ b.addresses) :
    s.Covers b j x ↔ j < s.size ∧ b.past s.address (x &&& b.addressMask) = j := by
  refine and_congr_right fun hj => ?_
  have hmasked : (x &&& b.addressMask) &&& b.addressMask = x &&& b.addressMask := Bitness.same_and_mask b x
  rw [← Bitness.ahead_eq_iff hmasked (Nat.lt_of_lt_of_le hj hs)]
  exact eq_comm

theorem touches_congr (h : b.Same x y) : s.Touches b x ↔ s.Touches b y := by
  have one : ∀ {x y : UInt64}, b.Same x y → s.Touches b x → s.Touches b y := by
    rintro x y h ⟨i, hi, j, hj, hsame⟩
    exact ⟨i, hi, j, hj, (h.symm.add (.refl b _)).trans hsame⟩
  exact ⟨one h, one h.symm⟩

theorem touches_iff_meets (hs : 0 < s.size) : s.Touches b x ↔ b.meets s.address s.size x = true := by
  rw [b.meets_iff s.address s.size x hs]
  constructor
  · rintro ⟨i, hi, j, hj, h⟩
    exact ⟨j, hj, i, hi, h.symm⟩
  · rintro ⟨j, hj, i, hi, h⟩
    exact ⟨i, hi, j, hj, h.symm⟩

theorem Spills.touches (h : s.Spills b x) : s.Touches b x :=
  ⟨0, b.pointerBytes_pos, 0, h.2.1 ▸ b.pointerBytes_pos, h.1.add (.refl b _)⟩

/-- With one more store, that one is the last if it touches the pointer at all. -/
theorem isLast_concat :
    IsLast b (stores ++ [s]) x t ↔ s.Touches b x ∧ t = s ∨ ¬ s.Touches b x ∧ IsLast b stores x t := by
  constructor
  · rintro ⟨before, after, hlist, ht, hafter⟩
    rcases List.eq_nil_or_concat after with rfl | ⟨init, last, rfl⟩
    · obtain ⟨-, hlast⟩ := List.append_inj' hlist rfl
      obtain rfl : s = t := by simpa using hlast
      exact .inl ⟨ht, rfl⟩
    · have hsplit : stores ++ [s] = (before ++ t :: init) ++ [last] := by simpa using hlist
      obtain ⟨rfl, hlast⟩ := List.append_inj' hsplit rfl
      obtain rfl : s = last := by simpa using hlast
      exact .inr ⟨hafter s (by simp), before, init, rfl, ht, fun u hu => hafter u (by simp [hu])⟩
  · rintro (⟨hs, rfl⟩ | ⟨hs, before, after, rfl, ht, hafter⟩)
    · exact ⟨stores, [], rfl, hs, nofun⟩
    · refine ⟨before, after ++ [s], by simp, ht, fun u hu => ?_⟩
      obtain hu | rfl : u ∈ after ∨ u = s := by simpa using hu
      · exact hafter u hu
      · exact hs

theorem not_isLast_nil : ¬ IsLast b [] x t := by
  rintro ⟨before, after, hlist, -⟩
  simp at hlist

end Store

/-! ## Words of a pointer -/

theorem lowBytes_pointerBytes (b : Bitness) (x : UInt64) :
    lowBytes b.pointerBytes x = x &&& b.addressMask := by
  cases b with
  | x86 => rfl
  | x64 => exact (Bitness.and_addressMask_x64 x).symm

namespace Memory

theorem eq_of_wordByte {u v : UInt64} (h : ∀ i < 8, wordByte u i = wordByte v i) : u = v :=
  Bitness.same_x64.1 (same_iff_wordByte.2 h)

theorem wordByte_and_addressMask_of_le {b : Bitness} {x : UInt64} {i : Nat} (hi : b.pointerBytes ≤ i) (h8 : i < 8) :
    wordByte (x &&& b.addressMask) i = 0 := by
  apply UInt8.toNat_inj.1
  apply Nat.eq_of_testBit_eq
  intro j
  have hout : ¬ 8 * i + j < 8 * b.pointerBytes := by omega
  rw [testBit_wordByte _ h8, Bitness.toNat_and_addressMask, Bitness.testBit_mod_addresses]
  simp [hout]

end Memory

namespace Machine

variable {m : Machine} {s : Store} {stores : List Store} {x : UInt64} {i j k : Nat}

/-- The byte at an address: the one last written there, or that of the image, or zero. -/
def byte (m : Machine) (x : UInt64) : UInt8 :=
  match m.memory.bytes[x &&& m.bitness.addressMask]? with
  | some byte => byte
  | none => (m.image.byte? (x &&& m.bitness.addressMask)).getD 0

/-- Whether a marked pointer was spilled at an address. -/
def IsSlot (m : Machine) (x : UInt64) : Prop :=
  m.memory.slots.contains (x &&& m.bitness.addressMask) = true

/-- Writes to memory. -/
def perform (m : Machine) (s : Store) : Machine :=
  m.store s.address s.size s.value

theorem byteAt_eq (m : Machine) (x : UInt64) :
    m.memory.byteAt m.background (x &&& m.bitness.addressMask) = m.byte x := by
  unfold Memory.byteAt byte background
  cases m.memory.bytes[x &&& m.bitness.addressMask]? <;> rfl

@[simp] theorem bitness_perform (m : Machine) (s : Store) : (m.perform s).bitness = m.bitness := rfl

@[simp] theorem bitness_performAll (m : Machine) (stores : List Store) :
    (stores.foldl perform m).bitness = m.bitness := by
  induction stores generalizing m with
  | nil => rfl
  | cons s stores ih => rw [List.foldl_cons, ih, bitness_perform]

/-! ## Bytes -/

theorem wordByte_load (hi : i < k) (hk : k ≤ 8) :
    Memory.wordByte (m.load x k).bits i = m.byte (x + i.toUInt64) := by
  rw [← byteAt_eq, load, Memory.load, Nat.min_eq_left hk]
  exact Memory.wordByte_wordAt hk hi

theorem wordByte_load_of_le (hi : k ≤ i) (hk : k ≤ 8) : Memory.wordByte (m.load x k).bits i = 0 := by
  rw [load, Memory.load, Nat.min_eq_left hk]
  exact Memory.wordByte_wordAt_of_le hk hi

theorem byte_perform_of_covers (hs : s.size ≤ m.bitness.addresses) (h : s.Covers m.bitness j x) :
    (m.perform s).byte x = Memory.wordByte s.value.bits j := by
  have hmasked := Bitness.same_and_mask m.bitness x
  obtain ⟨hj, hpast⟩ := (Store.covers_iff_past hs).1 h
  rw [← byteAt_eq]
  exact (Memory.byteAt_store hmasked hs).trans (by rw [hpast, if_pos hj])

theorem byte_perform_of_not_covers (hs : s.size ≤ m.bitness.addresses)
    (h : ∀ j, ¬ s.Covers m.bitness j x) : (m.perform s).byte x = m.byte x := by
  have hmasked := Bitness.same_and_mask m.bitness x
  rw [← byteAt_eq, ← byteAt_eq]
  refine (Memory.byteAt_store hmasked hs).trans (if_neg fun hlt => ?_)
  exact h _ ((Store.covers_iff_past hs).2 ⟨hlt, rfl⟩)

/-! ## Marks -/

theorem load_based_iff : (m.load x k).based = true ↔ k = m.bitness.pointerBytes ∧ m.IsSlot x := by
  simp only [load, Memory.load, IsSlot, Bool.and_eq_true, beq_iff_eq]

theorem isSlot_perform (hs : 0 < s.size) :
    (m.perform s).IsSlot x ↔ s.Spills m.bitness x ∨ m.IsSlot x ∧ ¬ s.Touches m.bitness x := by
  have hmasked := Bitness.same_and_mask m.bitness x
  have hcontains : (m.perform s).IsSlot x ↔ (m.memory.store m.bitness s.address s.size s.value).slots.contains
      (x &&& m.bitness.addressMask) = true := .rfl
  have hspills : s.Spills m.bitness x ↔ (s.value.based && s.size == m.bitness.pointerBytes &&
      x &&& m.bitness.addressMask == s.address &&& m.bitness.addressMask) = true := by
    simp only [Store.Spills, Bitness.Same, Bool.and_eq_true, beq_iff_eq]
    constructor
    · rintro ⟨h, hn, hv⟩
      exact ⟨⟨hv, hn⟩, h⟩
    · rintro ⟨⟨hv, hn⟩, h⟩
      exact ⟨h, hn, hv⟩
  rw [hcontains, Memory.contains_store hmasked, hspills, ← Store.touches_congr hmasked, Store.touches_iff_meets hs]
  split
  · next h => simp [h]
  · next h => simp [h, IsSlot]

/-- A pointer that is not touched is loaded as before. -/
theorem load_perform_of_not_touches (hs : s.Fits m.bitness) (h : ¬ s.Touches m.bitness x) :
    (m.perform s).load x m.bitness.pointerBytes = m.load x m.bitness.pointerBytes := by
  have hmasked := Bitness.same_and_mask m.bitness x
  rw [← load_congr (m := m.perform s) hmasked, ← load_congr (m := m) hmasked]
  rw [← Store.touches_congr hmasked, Store.touches_iff_meets hs.1, Bool.not_eq_true] at h
  exact load_store_of_not_meets hmasked h

/-- A marked pointer that was just spilled is loaded with its low bytes and its mark. -/
theorem load_perform_of_spills (h : s.Spills m.bitness x) :
    (m.perform s).load x m.bitness.pointerBytes = ⟨lowBytes m.bitness.pointerBytes s.value.bits, true⟩ := by
  obtain ⟨haddress, hsize, hmark⟩ := h
  obtain ⟨hbits, hbased⟩ := load_store_self (m := m) (v := s.value) haddress
  have hhigh : ∀ i, m.bitness.pointerBytes ≤ i →
      Memory.wordByte ((m.store s.address m.bitness.pointerBytes s.value).load x m.bitness.pointerBytes).bits i = 0 :=
    fun i hi => wordByte_load_of_le hi (Memory.pointerBytes_le_eight _)
  rw [perform, hsize]
  generalize (m.store s.address m.bitness.pointerBytes s.value).load x m.bitness.pointerBytes = u at *
  have hword : u.bits = lowBytes m.bitness.pointerBytes s.value.bits := by
    rw [lowBytes_pointerBytes]
    refine Memory.eq_of_wordByte fun i h8 => ?_
    by_cases hi : i < m.bitness.pointerBytes
    · exact Memory.same_iff_wordByte.1 (hbits.trans (Bitness.same_and_mask _ _).symm) i hi
    · have hi := Nat.le_of_not_lt hi
      rw [hhigh i hi, Memory.wordByte_and_addressMask_of_le hi h8]
  calc u = ⟨u.bits, u.based⟩ := rfl
    _ = ⟨lowBytes m.bitness.pointerBytes s.value.bits, true⟩ := by rw [hword, hbased, hmark]

/-- After any stores to an empty memory, the last one that touched a pointer tells whether it is marked. -/
theorem load_performAll (hempty : m.memory = .empty) (hfits : ∀ s ∈ stores, s.Fits m.bitness) :
    ((stores.foldl perform m).IsSlot x ↔ ∃ s, Store.IsLast m.bitness stores x s ∧ s.Spills m.bitness x) ∧
    ∀ s, Store.IsLast m.bitness stores x s → s.Spills m.bitness x →
      (stores.foldl perform m).load x m.bitness.pointerBytes =
        ⟨lowBytes m.bitness.pointerBytes s.value.bits, true⟩ := by
  induction stores using List.reverseRecOn with
  | nil =>
    refine ⟨?_, fun s hs => absurd hs Store.not_isLast_nil⟩
    simp [IsSlot, hempty, Memory.empty, Store.not_isLast_nil]
  | append_singleton stores s ih =>
    obtain ⟨ihmark, ihload⟩ := ih fun t ht => hfits t (by simp [ht])
    have hs : s.Fits m.bitness := hfits s (by simp)
    have hmode := bitness_performAll m stores
    simp only [List.foldl_append, List.foldl_cons, List.foldl_nil, Store.isLast_concat]
    refine ⟨?_, ?_⟩
    · rw [isSlot_perform hs.1, hmode, ihmark]
      constructor
      · rintro (h | ⟨⟨t, ht, h⟩, htouches⟩)
        · exact ⟨s, .inl ⟨h.touches, rfl⟩, h⟩
        · exact ⟨t, .inr ⟨htouches, ht⟩, h⟩
      · rintro ⟨t, ⟨-, rfl⟩ | ⟨htouches, ht⟩, h⟩
        · exact .inl h
        · exact .inr ⟨⟨t, ht, h⟩, htouches⟩
    · rintro t (⟨-, rfl⟩ | ⟨htouches, ht⟩) h
      · rw [← hmode] at h ⊢
        exact load_perform_of_spills h
      · rw [← ihload t ht h, ← hmode]
        rw [← hmode] at hs htouches
        exact load_perform_of_not_touches hs htouches

/-- **Memory is flat:** what is loaded after a store, byte by byte, and when it is marked; and when it is
marked after any number of stores to a memory to which nothing was written before. -/
theorem load_flat (m : Machine) :
    (∀ (s : Store) (x : UInt64) (k : Nat), s.Fits m.bitness → k ≤ 8 →
      (∀ i < k,
        (∀ j, s.Covers m.bitness j (x + i.toUInt64) →
          Memory.wordByte ((m.perform s).load x k).bits i = Memory.wordByte s.value.bits j) ∧
        ((∀ j, ¬ s.Covers m.bitness j (x + i.toUInt64)) →
          Memory.wordByte ((m.perform s).load x k).bits i = m.byte (x + i.toUInt64))) ∧
      (∀ i, k ≤ i → Memory.wordByte ((m.perform s).load x k).bits i = 0) ∧
      (((m.perform s).load x k).based = true ↔
        k = m.bitness.pointerBytes ∧ (s.Spills m.bitness x ∨ m.IsSlot x ∧ ¬ s.Touches m.bitness x))) ∧
    (m.memory = .empty → ∀ (stores : List Store) (x : UInt64), (∀ s ∈ stores, s.Fits m.bitness) →
      let v := (stores.foldl perform m).load x m.bitness.pointerBytes
      (v.based = true ↔ ∃ s, Store.IsLast m.bitness stores x s ∧ s.Spills m.bitness x) ∧
      ∀ s, Store.IsLast m.bitness stores x s → s.Spills m.bitness x →
        v = ⟨lowBytes m.bitness.pointerBytes s.value.bits, true⟩) := by
  refine ⟨fun s x k hs hk => ⟨fun i hi => ⟨fun j hj => ?_, fun hnone => ?_⟩, fun i hi => ?_, ?_⟩,
    fun hempty stores x hfits => ⟨?_, ?_⟩⟩
  · rw [wordByte_load hi hk]
    exact byte_perform_of_covers hs.2 hj
  · rw [wordByte_load hi hk]
    exact byte_perform_of_not_covers hs.2 hnone
  · exact wordByte_load_of_le hi hk
  · rw [load_based_iff, bitness_perform, isSlot_perform hs.1]
  · rw [← (load_performAll hempty hfits).1, load_based_iff, bitness_performAll]
    exact and_iff_right rfl
  · exact (load_performAll hempty hfits).2

/-- A pointer that lies across the top of the address space, and a store right behind its last byte. -/
theorem load_flat_acrossTop :
    let m := Machine.initial (.ofBytes 0x10000 .x86 #[]) 0x800000
    let spill : Store := ⟨0xfffffffe, 4, .onBase 0x12345678⟩
    let behind : Store := ⟨2, 1, .plain 0xff⟩
    (spill.Fits m.bitness ∧ spill.Covers m.bitness 3 (0 + (1 : Nat).toUInt64) ∧
      Memory.wordByte ((m.perform spill).load 0 2).bits 1 = 0x12) ∧
    m.memory = .empty ∧ (∀ s ∈ [spill, behind], s.Fits m.bitness) ∧
    Store.IsLast m.bitness [spill, behind] 0xfffffffe spill ∧ spill.Spills m.bitness 0xfffffffe ∧
    ([spill, behind].foldl perform m).load 0xfffffffe m.bitness.pointerBytes = ⟨0x12345678, true⟩ := by
  intro m spill behind
  have hspill : spill.Fits m.bitness := by decide
  have hcovers : spill.Covers m.bitness 3 (0 + (1 : Nat).toUInt64) := by decide
  have hbyte : Memory.wordByte spill.value.bits 3 = 0x12 := by decide
  have hfits : ∀ s ∈ [spill, behind], s.Fits m.bitness := by decide
  have hlast : Store.IsLast m.bitness [spill, behind] 0xfffffffe spill := ⟨[], [behind], rfl, by decide, by decide⟩
  have hmarked : spill.Spills m.bitness 0xfffffffe := by decide
  have hlow : lowBytes m.bitness.pointerBytes spill.value.bits = 0x12345678 := by decide
  refine ⟨⟨hspill, hcovers, ?_⟩, rfl, hfits, hlast, hmarked, ?_⟩
  · exact ((((load_flat m).1 spill 0 2 hspill (by decide)).1 1 (by decide)).1 3 hcovers).trans hbyte
  · rw [((load_flat m).2 rfl [spill, behind] 0xfffffffe hfits).2 spill hlast hmarked, hlow]

end Machine

end KernelOffsets
