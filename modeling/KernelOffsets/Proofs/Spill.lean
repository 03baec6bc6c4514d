/-
Pointers in the memory of a machine. A pointer-sized load right after a store
either finds the pointer that was stored (`Machine.load_store_self`) or, if
the store met none of its bytes, the one that was there before
(`Machine.load_store_of_not_meets`), in both cases together with its mark.
-/
import KernelOffsets.Machine.Basic
import KernelOffsets.Proofs.Memory

namespace KernelOffsets

namespace Machine

variable {m : Machine} {a x : UInt64} {n : Nat} {v : Value}

@[simp] theorem background_store (m : Machine) (a : UInt64) (n : Nat) (v : Value) :
    (m.store a n v).background = m.background := rfl

/-- Addresses that are the same are loaded from alike. -/
theorem load_congr (h : m.bitness.Same a x) (n : Nat) : m.load a n = m.load x n := by
  have word : m.memory.wordAt m.bitness m.background a (min n 8)
      = m.memory.wordAt m.bitness m.background x (min n 8) := by
    refine Memory.wordAt_congr fun i _ => ?_
    rw [show _ = _ from h.add (.refl _ i.toUInt64)]
  simp only [load, Memory.load, word, show a &&& m.bitness.addressMask = x &&& m.bitness.addressMask from h]

theorem load_pointer (m : Machine) (x : UInt64) :
    m.load x m.bitness.pointerBytes =
      ⟨m.memory.wordAt m.bitness m.background x m.bitness.pointerBytes,
        m.memory.slots.contains (x &&& m.bitness.addressMask)⟩ := by
  simp [load, Memory.load, Nat.min_eq_left (Memory.pointerBytes_le_eight m.bitness)]

/-- A pointer that was stored is loaded again. -/
theorem load_store_self (h : m.bitness.Same x a) :
    let u := (m.store a m.bitness.pointerBytes v).load x m.bitness.pointerBytes
    m.bitness.Same u.bits v.bits ∧ u.based = v.based := by
  have hx := Bitness.same_and_mask m.bitness x
  have hmeets : m.bitness.meets a m.bitness.pointerBytes (x &&& m.bitness.addressMask) = true :=
    Bitness.meets_self m.bitness.pointerBytes_pos (hx.trans h)
  have load := load_pointer (m.store a m.bitness.pointerBytes v) x
  simp only [bitness_store] at load
  simp only [load]
  refine ⟨Memory.wordAt_store_self h, ?_⟩
  rw [store, Memory.contains_store hx, hmeets]
  cases v.based <;> simp [show x &&& m.bitness.addressMask = a &&& m.bitness.addressMask from h]

/-- In 64-bit code a pointer is loaded as it was stored. -/
theorem load_store_eight (h : m.bitness = .x64) : (m.store a 8 v).load a 8 = v := by
  have hself := load_store_self (v := v) (Bitness.Same.refl m.bitness a)
  rw [h] at hself
  obtain ⟨hbits, hbased⟩ := hself
  generalize hu : (m.store a 8 v).load a 8 = u
  rw [show Bitness.x64.pointerBytes = 8 from rfl, hu] at hbits hbased
  obtain ⟨bits, based⟩ := u
  obtain rfl : bits = v.bits := Bitness.same_x64.1 hbits
  obtain rfl : based = v.based := hbased
  rfl

/-- A pointer that a store does not meet is loaded as before. -/
theorem load_store_of_not_meets (hx : x &&& m.bitness.addressMask = x) (h : m.bitness.meets a n x = false) :
    (m.store a n v).load x m.bitness.pointerBytes = m.load x m.bitness.pointerBytes := by
  have hp := m.bitness.pointerBytes_pos
  have hn : n ≤ m.bitness.addresses := by
    have hlt := m.bitness.past_lt (a - (m.bitness.pointerBytes - 1).toUInt64) x
    simp only [Bitness.meets, decide_eq_false_iff_not, Nat.not_lt] at h
    omega
  have word : (m.store a n v).memory.wordAt m.bitness m.background x m.bitness.pointerBytes
      = m.memory.wordAt m.bitness m.background x m.bitness.pointerBytes := by
    rcases Nat.eq_zero_or_pos n with rfl | hpos
    · exact Memory.wordAt_congr fun _ _ => rfl
    · exact Memory.wordAt_store_of_not_meets hpos hn h
  have spilled : (m.store a n v).memory.slots.contains x = m.memory.slots.contains x :=
    Memory.contains_store_of_not_meets hx h
  have before := load_pointer m x
  have after := load_pointer (m.store a n v) x
  simp only [bitness_store, background_store, hx, word, spilled] at after
  rw [after, before, hx]

/-- A pointer that is marked after a store was not met by it, or is the pointer that was stored. -/
theorem store_based (hx : x &&& m.bitness.addressMask = x)
    (h : ((m.store a n v).load x m.bitness.pointerBytes).based = true) :
    (m.bitness.meets a n x = false ∧
      (m.store a n v).load x m.bitness.pointerBytes = m.load x m.bitness.pointerBytes) ∨
    (v.based = true ∧ n = m.bitness.pointerBytes ∧ x = a &&& m.bitness.addressMask) := by
  by_cases hself : v.based = true ∧ n = m.bitness.pointerBytes ∧ x = a &&& m.bitness.addressMask
  · exact .inr hself
  · have hmeets : m.bitness.meets a n x = false := by
      have hload := load_pointer (m.store a n v) x
      simp only [bitness_store] at hload
      simp only [hload, hx] at h
      rw [store, Memory.contains_store hx, if_neg] at h
      · simp only [Bool.and_eq_true, Bool.not_eq_true'] at h
        exact h.2
      · simp only [Bool.and_eq_true, beq_iff_eq]
        rintro ⟨⟨hv, hn⟩, hxa⟩
        exact hself ⟨hv, hn, hxa⟩
    exact .inl ⟨hmeets, load_store_of_not_meets hx hmeets⟩

/-- A pointer that is still marked after a store of something else is the one that was there before. -/
theorem load_store_of_based (hx : x &&& m.bitness.addressMask = x)
    (hv : (v.based && n == m.bitness.pointerBytes) = false)
    (h : ((m.store a n v).load x m.bitness.pointerBytes).based = true) :
    (m.store a n v).load x m.bitness.pointerBytes = m.load x m.bitness.pointerBytes := by
  obtain ⟨-, hkeep⟩ | ⟨hbased, hn, -⟩ := store_based hx h
  · exact hkeep
  · rw [hbased, beq_iff_eq.2 hn] at hv
    cases hv

end Machine

end KernelOffsets
