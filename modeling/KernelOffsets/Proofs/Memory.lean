/-
What a store does to the memory of a machine: to its bytes
(`byteAt_store`) and to its spilled pointers (`contains_store`), as seen from
any address. Addresses lie on a circle, so distances between them are taken
there (`Bitness.past`), and a pointer is overwritten if its bytes meet those
of the store anywhere on the circle (`Bitness.meets`).
-/
import KernelOffsets.Machine.Memory
import KernelOffsets.Proofs.Words

namespace KernelOffsets

namespace Bitness

variable {b : Bitness} {a x : UInt64} {n : Nat}

/-- How far an address lies past another one on the circle of addresses. -/
def past (b : Bitness) (a x : UInt64) : Nat := ((x - a) &&& b.addressMask).toNat

/-- Whether a pointer at `x` shares a byte with the `n` bytes at `a`. -/
def meets (b : Bitness) (a : UInt64) (n : Nat) (x : UInt64) : Bool :=
  decide (b.past (a - (b.pointerBytes - 1).toUInt64) x < b.pointerBytes - 1 + n)

theorem add_zero_toUInt64 (a : UInt64) : a + (0 : Nat).toUInt64 = a := UInt64.add_zero a

theorem add_succ_toUInt64 (a : UInt64) (i : Nat) : a + (i + 1).toUInt64 = a + 1 + i.toUInt64 := by
  rw [Nat.toUInt64_eq, Nat.toUInt64_eq, UInt64.ofNat_add, UInt64.add_assoc, UInt64.add_comm 1]
  rfl

theorem addresses_dvd (b : Bitness) : b.addresses ∣ UInt64.size := by
  cases b <;> decide

theorem pointerBytes_lt_addresses (b : Bitness) : 2 * b.pointerBytes < b.addresses := by
  cases b <;> decide

theorem past_lt (b : Bitness) (a x : UInt64) : b.past a x < b.addresses := by
  rw [past, toNat_and_addressMask]
  exact Nat.mod_lt _ (Nat.succ_pos _)

theorem Same.past_eq {a' x' : UInt64} (ha : b.Same a a') (hx : b.Same x x') : b.past a x = b.past a' x' := by
  rw [past, past, hx.sub ha]

/-- Going `n` bytes ahead is going `n` bytes around the circle. -/
theorem past_add (b : Bitness) (a : UInt64) (n : Nat) : b.past a (a + n.toUInt64) = n % b.addresses := by
  rw [past, UInt64.add_comm, UInt64.add_sub_cancel, toNat_and_addressMask]
  exact Nat.mod_mod_of_dvd n b.addresses_dvd

theorem add_past (b : Bitness) (a x : UInt64) : b.Same (a + (b.past a x).toUInt64) x := by
  have h : (b.past a x).toUInt64 = (x - a) &&& b.addressMask := UInt64.ofNat_toNat
  rw [h]
  refine ((Same.refl b a).add (same_and_mask b (x - a))).trans ?_
  rw [UInt64.add_comm, UInt64.sub_add_cancel]
  exact .refl b x

/-- An address is `n` bytes ahead of another one if it lies that far past it. -/
theorem ahead_eq_iff (hx : x &&& b.addressMask = x) (hn : n < b.addresses) :
    (a + n.toUInt64) &&& b.addressMask = x ↔ b.past a x = n := by
  constructor
  · intro h
    have hs : b.Same (a + n.toUInt64) x := h.trans hx.symm
    rw [← (Same.refl b a).past_eq hs, past_add, Nat.mod_eq_of_lt hn]
  · intro h
    rw [← h]
    exact Eq.trans (add_past b a x) hx

/-- Some address of a range is `x` if and only if `x` lies within the range. -/
theorem exists_ahead_iff (hx : x &&& b.addressMask = x) :
    (∃ i < n, (a + i.toUInt64) &&& b.addressMask = x) ↔ b.past a x < n := by
  constructor
  · rintro ⟨i, hi, h⟩
    have hs : b.Same (a + i.toUInt64) x := h.trans hx.symm
    rw [← (Same.refl b a).past_eq hs, past_add]
    exact Nat.lt_of_le_of_lt (Nat.mod_le _ _) hi
  · intro h
    exact ⟨b.past a x, h, Eq.trans (add_past b a x) hx⟩

/-- A pointer meets a store exactly if one of its bytes is one of the store's. -/
theorem meets_iff (b : Bitness) (a : UInt64) (n : Nat) (x : UInt64) (hn : 0 < n) :
    b.meets a n x = true ↔ ∃ i < n, ∃ j < b.pointerBytes, b.Same (a + i.toUInt64) (x + j.toUInt64) := by
  have hw := b.pointerBytes_pos
  generalize hd : b.pointerBytes - 1 = d
  have hsum : ∀ i j : Nat, j ≤ d → (d - j + i).toUInt64 = d.toUInt64 + i.toUInt64 - j.toUInt64 := by
    intro i j hj
    have : d.toUInt64 + i.toUInt64 = (d - j + i).toUInt64 + j.toUInt64 := by
      simp only [Nat.toUInt64_eq, ← UInt64.ofNat_add]
      congr 1
      omega
    rw [this, UInt64.add_sub_cancel]
  simp only [meets, decide_eq_true_eq, hd]
  constructor
  · intro h
    generalize hp : b.past (a - d.toUInt64) x = p at h
    have hx : b.Same (a - d.toUInt64 + p.toUInt64) x := hp ▸ add_past b _ x
    refine ⟨p - d, by omega, d - p, by omega, ?_⟩
    have hj : a + (p - d).toUInt64 = a - d.toUInt64 + p.toUInt64 + (d - p).toUInt64 := by
      have := hsum (p - d) (d - p) (by omega)
      rw [show d - (d - p) + (p - d) = p by omega] at this
      rw [this, UInt64.add_assoc, UInt64.sub_add_cancel, ← UInt64.add_assoc, UInt64.sub_add_cancel]
    rw [hj]
    exact hx.add (.refl b _)
  · rintro ⟨i, hi, j, hj, h⟩
    have hx : b.Same (a - d.toUInt64 + (d - j + i).toUInt64) x := by
      rw [hsum i j (by omega)]
      have := h.sub (Same.refl b j.toUInt64)
      rw [UInt64.add_sub_cancel] at this
      refine Same.trans ?_ this
      have : a - d.toUInt64 + (d.toUInt64 + i.toUInt64 - j.toUInt64) = a + i.toUInt64 - j.toUInt64 := by
        grind
      rw [this]
      exact .refl b _
    rw [← (Same.refl b _).past_eq hx, past_add]
    exact Nat.lt_of_le_of_lt (Nat.mod_le _ _) (by omega)

/-- A pointer meets what is stored at its own address. -/
theorem meets_self (hn : 0 < n) (h : b.Same x a) : b.meets a n x = true :=
  (b.meets_iff a n x hn).2 ⟨0, hn, 0, b.pointerBytes_pos, h.symm.add (.refl b _)⟩

end Bitness

namespace Memory

variable {b : Bitness} {a x : UInt64} {n : Nat}

/-! ## Bytes -/

theorem writeBytes_succ (bits : UInt64) (bytes : Std.HashMap UInt64 UInt8) :
    writeBytes b a bits (n + 1) bytes =
      (writeBytes b a bits n bytes).insert ((a + n.toUInt64) &&& b.addressMask) (wordByte bits n) := by
  simp only [writeBytes, List.range_succ, List.foldl_append, List.foldl_cons, List.foldl_nil]

theorem getElem?_writeBytes {bits : UInt64} {bytes : Std.HashMap UInt64 UInt8}
    (hx : x &&& b.addressMask = x) (hn : n ≤ b.addresses) :
    (writeBytes b a bits n bytes)[x]? =
      if b.past a x < n then some (wordByte bits (b.past a x)) else bytes[x]? := by
  induction n with
  | zero => rfl
  | succ n ih =>
    have hlast := Bitness.ahead_eq_iff (a := a) hx (show n < b.addresses by omega)
    rw [writeBytes_succ, Std.HashMap.getElem?_insert, ih (by omega)]
    simp only [beq_iff_eq, hlast]
    grind

/-- An address holds a written byte after some more are written if it did before or is one of them. -/
theorem mem_writeBytes {bits : UInt64} {bytes : Std.HashMap UInt64 UInt8} :
    x ∈ writeBytes b a bits n bytes ↔ x ∈ bytes ∨ ∃ i < n, (a + i.toUInt64) &&& b.addressMask = x := by
  induction n with
  | zero => simp [writeBytes]
  | succ n ih =>
    rw [writeBytes_succ, Std.HashMap.mem_insert, ih]
    simp only [beq_iff_eq]
    constructor
    · rintro (h | h | ⟨i, hi, h⟩)
      · exact .inr ⟨n, by omega, h⟩
      · exact .inl h
      · exact .inr ⟨i, by omega, h⟩
    · rintro (h | ⟨i, hi, h⟩)
      · exact .inr (.inl h)
      · by_cases hlast : i = n
        · exact .inl (hlast ▸ h)
        · exact .inr (.inr ⟨i, by omega, h⟩)

theorem getElem?_writeBytes_of_ne {bits : UInt64} {bytes : Std.HashMap UInt64 UInt8}
    (h : ∀ i < n, (a + i.toUInt64) &&& b.addressMask ≠ x) : (writeBytes b a bits n bytes)[x]? = bytes[x]? := by
  induction n with
  | zero => rfl
  | succ n ih =>
    rw [writeBytes_succ, Std.HashMap.getElem?_insert, if_neg (by simpa using h n (Nat.lt_succ_self n))]
    exact ih fun i hi => h i (Nat.lt_succ_of_lt hi)

/-- What is written depends on what is there only where nothing is written. -/
theorem getElem?_writeBytes_congr {bits : UInt64} {bytes bytes' : Std.HashMap UInt64 UInt8}
    (h : ∀ x : UInt64, bytes[x]? = bytes'[x]?) (x : UInt64) :
    (writeBytes b a bits n bytes)[x]? = (writeBytes b a bits n bytes')[x]? := by
  induction n with
  | zero => exact h x
  | succ n ih => rw [writeBytes_succ, writeBytes_succ, Std.HashMap.getElem?_insert, Std.HashMap.getElem?_insert, ih]

/-- **The bytes after a store:** those of the word inside, the old ones elsewhere. -/
theorem byteAt_store {m : Memory} {v : Value} {bg : UInt64 → UInt8}
    (hx : x &&& b.addressMask = x) (hn : n ≤ b.addresses) :
    (m.store b a n v).byteAt bg x =
      if b.past a x < n then wordByte v.bits (b.past a x) else m.byteAt bg x := by
  simp only [byteAt, store, getElem?_writeBytes hx hn]
  split <;> rfl

/-! ## Spilled pointers -/

/-- Ending spills keeps those that start outside of a window of addresses. -/
theorem contains_endSpills (slots : Std.HashSet UInt64) (x : UInt64) :
    (endSpills b a n slots).contains x = (slots.contains x &&
      !decide (∃ i < b.pointerBytes - 1 + n,
        (a - (b.pointerBytes - 1).toUInt64 + i.toUInt64) &&& b.addressMask = x)) := by
  unfold endSpills
  generalize b.pointerBytes - 1 + n = k
  induction k with
  | zero => simp
  | succ k ih =>
    simp only [List.range_succ, List.foldl_append, List.foldl_cons, List.foldl_nil,
      Std.HashSet.contains_erase, ih]
    grind

/-- A spilled pointer is there after a store if it was before and is kept, or if it is stored. -/
theorem contains_store_window (m : Memory) (v : Value) (x : UInt64) :
    (m.store b a n v).slots.contains x =
      (v.based && (n == b.pointerBytes && a &&& b.addressMask == x) ||
        m.slots.contains x && !decide (∃ i < b.pointerBytes - 1 + n,
          (a - (b.pointerBytes - 1).toUInt64 + i.toUInt64) &&& b.addressMask = x)) := by
  rw [← contains_endSpills]
  simp only [store]
  split
  · next h =>
    obtain ⟨hv, hn⟩ := Bool.and_eq_true_iff.1 h
    simp only [Std.HashSet.contains_insert, hv, hn, Bool.true_and]
  · next h =>
    rw [← Bool.and_assoc, eq_false_of_ne_true h, Bool.false_and, Bool.false_or]

/-- **The spilled pointers after a store:** those that it does not meet, and a whole pointer it writes. -/
theorem contains_store {m : Memory} {v : Value} (hx : x &&& b.addressMask = x) :
    (m.store b a n v).slots.contains x =
      if v.based && n == b.pointerBytes && x == a &&& b.addressMask then true
      else m.slots.contains x && !b.meets a n x := by
  have heq : (a &&& b.addressMask == x) = (x == a &&& b.addressMask) := BEq.comm
  rw [contains_store_window, heq, ← Bool.and_assoc]
  simp only [Bitness.exists_ahead_iff hx, Bitness.meets]
  split
  · next h => rw [h, Bool.true_or]
  · next h => rw [eq_false_of_ne_true h, Bool.false_or]

theorem contains_store_of_not_meets {m : Memory} {v : Value} (hx : x &&& b.addressMask = x)
    (h : b.meets a n x = false) : (m.store b a n v).slots.contains x = m.slots.contains x := by
  rw [contains_store hx, h, if_neg]
  · exact Bool.and_true _
  · simp only [Bool.and_eq_true, beq_iff_eq]
    rintro ⟨⟨-, rfl⟩, rfl⟩
    have hmeets := Bitness.meets_self b.pointerBytes_pos (Bitness.same_and_mask b a)
    rw [h] at hmeets
    cases hmeets

/-! ## Words -/

theorem testBit_wordByte (w : UInt64) {i j : Nat} (hi : i < 8) :
    (wordByte w i).toNat.testBit j = (decide (j < 8) && w.toNat.testBit (8 * i + j)) := by
  have hs : (8 * i).toUInt64.toNat % 64 = 8 * i := by
    simp only [Nat.toUInt64_eq, UInt64.toNat_ofNat']
    omega
  simp only [wordByte, hi, if_true, UInt64.toNat_toUInt8, UInt64.toNat_shiftRight, hs]
  rw [Nat.testBit_mod_two_pow _ 8, Nat.testBit_shiftRight]

theorem testBit_join (low : UInt8) (high : UInt64) {k : Nat} (hk : k < 64) :
    (low.toUInt64 ||| (high <<< 8)).toNat.testBit k =
      (low.toNat.testBit k || (decide (8 ≤ k) && high.toNat.testBit (k - 8))) := by
  rw [UInt64.toNat_or, Nat.testBit_or, UInt64.toNat_shiftLeft, Nat.testBit_mod_two_pow, Nat.testBit_shiftLeft]
  simp [hk]

/-- A byte and what stands above it, as a number. -/
theorem toNat_join (low : UInt8) {high : UInt64} (h : high.toNat < 1 <<< 56) :
    (low.toUInt64 ||| (high <<< 8)).toNat = low.toNat + 256 * high.toNat := by
  rw [Nat.one_shiftLeft] at h
  have hlow := low.toNat_lt
  have height : (8 : UInt64).toNat % 64 = 8 := rfl
  have hshift : (high <<< 8).toNat = high.toNat <<< 8 := by
    rw [UInt64.toNat_shiftLeft, height]
    exact Nat.mod_eq_of_lt (by rw [Nat.shiftLeft_eq]; omega)
  rw [UInt64.toNat_or, hshift, UInt8.toNat_toUInt64, Nat.or_comm, ← Nat.shiftLeft_add_eq_or_of_lt hlow,
    Nat.shiftLeft_eq]
  omega

theorem testBit_byte_of_le (x : UInt8) {k : Nat} (hk : 8 ≤ k) : x.toNat.testBit k = false :=
  Nat.testBit_lt_two_pow (Nat.lt_of_lt_of_le x.toNat_lt (Nat.pow_le_pow_right (by decide) hk))

/-- The lowest byte of a word that is put together from a byte and the rest. -/
theorem wordByte_join_zero (low : UInt8) (high : UInt64) :
    wordByte (low.toUInt64 ||| (high <<< 8)) 0 = low := by
  apply UInt8.toNat_inj.1
  apply Nat.eq_of_testBit_eq
  intro j
  rw [testBit_wordByte _ (by decide)]
  by_cases hj : j < 8
  · rw [testBit_join _ _ (by omega)]
    simp [hj, Nat.not_le.2 hj]
  · simp [hj, testBit_byte_of_le low (Nat.le_of_not_lt hj)]

/-- The other bytes are those of the rest. -/
theorem wordByte_join_succ (low : UInt8) (high : UInt64) {i : Nat} (hi : i + 1 < 8) :
    wordByte (low.toUInt64 ||| (high <<< 8)) (i + 1) = wordByte high i := by
  apply UInt8.toNat_inj.1
  apply Nat.eq_of_testBit_eq
  intro j
  rw [testBit_wordByte _ hi, testBit_wordByte _ (by omega)]
  by_cases hj : j < 8
  · rw [testBit_join _ _ (by omega), testBit_byte_of_le low (by omega)]
    simp [show 8 * (i + 1) + j - 8 = 8 * i + j by omega, show 8 ≤ 8 * (i + 1) + j by omega]
  · simp [hj]

theorem pointerBytes_le_eight (b : Bitness) : b.pointerBytes ≤ 8 := by
  cases b <;> decide

/-- Words are the same address exactly if they agree in the bytes of a pointer. -/
theorem same_iff_wordByte {u v : UInt64} :
    b.Same u v ↔ ∀ i < b.pointerBytes, wordByte u i = wordByte v i := by
  have hw := pointerBytes_le_eight b
  rw [Bitness.same_iff_testBit]
  constructor
  · intro h i hi
    apply UInt8.toNat_inj.1
    apply Nat.eq_of_testBit_eq
    intro j
    rw [testBit_wordByte _ (by omega), testBit_wordByte _ (by omega)]
    by_cases hj : j < 8
    · rw [h (8 * i + j) (by omega)]
    · simp [hj]
  · intro h k hk
    have hbit := congrArg (fun byte : UInt8 => byte.toNat.testBit (k % 8)) (h (k / 8) (by omega))
    simpa [testBit_wordByte _ (show k / 8 < 8 by omega), Nat.mod_lt, Nat.div_add_mod] using hbit

/-! ## Loads -/

variable {m m' : Memory} {bg bg' : UInt64 → UInt8}

/-- A word that is read is made of the bytes at its address. -/
theorem wordByte_wordAt : ∀ {n : Nat} {a : UInt64} {i : Nat}, n ≤ 8 → i < n →
    wordByte (m.wordAt b bg a n) i = m.byteAt bg ((a + i.toUInt64) &&& b.addressMask)
  | n + 1, a, 0, _, _ => by
    rw [wordAt, wordByte_join_zero, Bitness.add_zero_toUInt64]
  | n + 1, a, i + 1, hn, hi => by
    rw [wordAt, wordByte_join_succ _ _ (by omega), wordByte_wordAt (by omega) (by omega),
      Bitness.add_succ_toUInt64]

/-- Above the bytes that are read a word is zero. -/
theorem wordByte_wordAt_of_le : ∀ {n : Nat} {a : UInt64} {i : Nat}, n ≤ 8 → n ≤ i →
    wordByte (m.wordAt b bg a n) i = 0
  | 0, _, i, _, _ => by simp [wordAt, wordByte]
  | n + 1, a, 0, _, hi => by omega
  | n + 1, a, i + 1, hn, hi => by
    by_cases h8 : i + 1 < 8
    · rw [wordAt, wordByte_join_succ _ _ h8, wordByte_wordAt_of_le (by omega) (by omega)]
    · simp only [wordByte, if_neg h8]

/-- Only the bytes that are read matter to a word. -/
theorem wordAt_congr : ∀ {n : Nat} {a a' : UInt64},
    (∀ i < n, m.byteAt bg ((a + i.toUInt64) &&& b.addressMask)
      = m'.byteAt bg' ((a' + i.toUInt64) &&& b.addressMask)) →
    m.wordAt b bg a n = m'.wordAt b bg' a' n
  | 0, _, _, _ => rfl
  | n + 1, a, a', h => by
    have h0 := h 0 (by omega)
    have ih : m.wordAt b bg (a + 1) n = m'.wordAt b bg' (a' + 1) n := by
      refine wordAt_congr fun i hi => ?_
      have hs := h (i + 1) (by omega)
      rwa [Bitness.add_succ_toUInt64, Bitness.add_succ_toUInt64] at hs
    rw [Bitness.add_zero_toUInt64, Bitness.add_zero_toUInt64] at h0
    rw [wordAt, wordAt, h0, ih]

/-- A pointer that a store does not meet reads as before. -/
theorem wordAt_store_of_not_meets {v : Value} (hn : 0 < n) (hs : n ≤ b.addresses) (h : b.meets a n x = false) :
    (m.store b a n v).wordAt b bg x b.pointerBytes = m.wordAt b bg x b.pointerBytes := by
  refine wordAt_congr fun j hj => ?_
  have hx : ((x + j.toUInt64) &&& b.addressMask) &&& b.addressMask = (x + j.toUInt64) &&& b.addressMask :=
    Bitness.same_and_mask b _
  rw [byteAt_store hx hs, if_neg]
  intro hlt
  obtain ⟨i, hi, he⟩ := (Bitness.exists_ahead_iff hx).2 hlt
  have := (Bitness.meets_iff b a n x hn).2 ⟨i, hi, j, hj, he⟩
  rw [h] at this
  cases this

/-- A pointer that was stored reads back. -/
theorem wordAt_store_self {v : Value} (hx : b.Same x a) :
    b.Same ((m.store b a b.pointerBytes v).wordAt b bg x b.pointerBytes) v.bits := by
  have hw := b.pointerBytes_lt_addresses
  refine same_iff_wordByte.2 fun i hi => ?_
  have he : (x + i.toUInt64) &&& b.addressMask = (a + i.toUInt64) &&& b.addressMask := hx.add (.refl b _)
  have hm : ((a + i.toUInt64) &&& b.addressMask) &&& b.addressMask = (a + i.toUInt64) &&& b.addressMask :=
    Bitness.same_and_mask b _
  have hp := (Bitness.ahead_eq_iff (a := a) hm (show i < b.addresses by omega)).1 rfl
  rw [wordByte_wordAt (pointerBytes_le_eight b) hi, he, byteAt_store hm (by omega), hp, if_pos hi]

end Memory

end KernelOffsets
