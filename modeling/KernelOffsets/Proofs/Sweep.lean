/-
Where the instructions of a sweep stand. Decoding takes bytes from the front
and looks at no others (`Encoding.exists_taken`), so the instructions of a
sweep stand one behind the other at growing distances from the first one
(`Encoding.isSpread_sweep`), and in ascending order where the code does not
pass the end of the address space (`Encoding.ascending_sweep`).
-/
import KernelOffsets.ControlFlow.Block
import Mathlib.Data.List.Chain

namespace KernelOffsets

/-! ## The bytes of one instruction -/

namespace Encoding

variable {mode : Bitness} {ip : UInt64} {bytes : List UInt8}

@[simp] theorem ip_instruction (e : Encoding) (ip : UInt64) (n : Nat) : (e.instruction ip n).ip = ip := by
  unfold instruction
  dsimp only
  split <;> rfl

@[simp] theorem length_instruction (e : Encoding) (ip : UInt64) (n : Nat) : (e.instruction ip n).length = n := by
  unfold instruction
  dsimp only
  split <;> rfl

@[simp] theorem ip_decode (mode : Bitness) (ip : UInt64) (bytes : List UInt8) : (decode mode ip bytes).ip = ip := by
  unfold decode
  dsimp only
  split
  · rfl
  · rfl
  · exact ip_instruction _ _ _

theorem decode_of_read_eq_none (h : read mode (bytes.take maxLength) = none) :
    decode mode ip bytes = .undecodable mode ip (bytes.take maxLength).length := by
  simp only [decode, h]

theorem decode_of_read_eq_some {taken rest : List UInt8} {encoding : Option Encoding}
    (hwindow : bytes.take maxLength = taken ++ rest) (h : read mode (taken ++ rest) = some (encoding, rest)) :
    decode mode ip bytes =
      (encoding.map (·.instruction ip taken.length)).getD (.undecodable mode ip taken.length) := by
  simp only [decode, hwindow, h]
  cases encoding <;> simp

theorem read_nil (mode : Bitness) : read mode [] = none := rfl

/-- **Decoding looks only at the bytes of the instruction**, and at the number of bytes behind it. -/
theorem exists_taken (mode : Bitness) (ip : UInt64) (bytes : List UInt8) :
    ∃ taken rest, bytes = taken ++ rest ∧ (decode mode ip bytes).length = taken.length ∧
      (bytes ≠ [] → taken ≠ []) ∧
      ∀ other : List UInt8, other.length = rest.length → decode mode ip (taken ++ other) = decode mode ip bytes := by
  have hsplit : bytes.take maxLength ++ bytes.drop maxLength = bytes := List.take_append_drop ..
  cases h : read mode (bytes.take maxLength) with
  | none =>
    refine ⟨bytes.take maxLength, bytes.drop maxLength, hsplit.symm, ?_, ?_, ?_⟩
    · rw [decode_of_read_eq_none h]
      rfl
    · intro hne htake
      rcases List.take_eq_nil_iff.1 htake with hmax | hnil
      · exact absurd hmax (by decide)
      · exact hne hnil
    · intro other hother
      have hwindow : (bytes.take maxLength ++ other).take maxLength = bytes.take maxLength := by
        rw [List.length_drop] at hother
        rw [List.take_append, List.take_take, Nat.min_self, List.append_right_eq_self, List.take_eq_nil_iff,
          ← List.length_eq_zero_iff, List.length_take]
        omega
      have hother : read mode ((bytes.take maxLength ++ other).take maxLength) = none := by rw [hwindow, h]
      rw [decode_of_read_eq_none h, decode_of_read_eq_none hother, hwindow]
  | some p =>
    obtain ⟨encoding, rest⟩ := p
    obtain ⟨taken, hwindow, htaken⟩ := stable_read mode _ _ _ h
    have hbytes : bytes = taken ++ (rest ++ bytes.drop maxLength) := by
      rw [← List.append_assoc, ← hwindow, hsplit]
    have hfits : taken.length ≤ maxLength := by
      have hlength := congrArg List.length hwindow
      rw [List.length_take, List.length_append] at hlength
      omega
    have hdecode : decode mode ip bytes = _ := decode_of_read_eq_some hwindow (htaken rest)
    refine ⟨taken, _, hbytes, ?_, ?_, ?_⟩
    · rw [hdecode]
      cases encoding
      · rfl
      · exact length_instruction _ _ _
    · rintro - rfl
      have hnone := htaken []
      rw [List.append_nil, read_nil] at hnone
      cases hnone
    · intro other hother
      have hwindow' : (taken ++ other).take maxLength = taken ++ other.take (maxLength - taken.length) := by
        rw [List.take_append, List.take_of_length_le hfits]
      rw [hdecode, decode_of_read_eq_some hwindow' (htaken _)]

variable {other : List UInt8}

theorem length_decode_le (mode : Bitness) (ip : UInt64) (bytes : List UInt8) :
    (decode mode ip bytes).length ≤ bytes.length := by
  obtain ⟨taken, rest, hbytes, hlength, -, -⟩ := exists_taken mode ip bytes
  rw [hlength, hbytes, List.length_append]
  omega

theorem length_decode_pos (mode : Bitness) (ip : UInt64) (h : bytes ≠ []) : 0 < (decode mode ip bytes).length := by
  obtain ⟨taken, rest, -, hlength, htaken, -⟩ := exists_taken mode ip bytes
  rw [hlength]
  exact List.length_pos_iff.2 (htaken h)

/-- Bytes of the same number that begin with the bytes of an instruction hold this instruction. -/
theorem decode_congr (hlength : bytes.length = other.length)
    (htake : bytes.take (decode mode ip bytes).length = other.take (decode mode ip bytes).length) :
    decode mode ip other = decode mode ip bytes := by
  obtain ⟨taken, rest, hbytes, htaken, -, hother⟩ := exists_taken mode ip bytes
  rw [htaken] at htake
  have hfront : other.take taken.length = taken := by rw [← htake, hbytes, List.take_left]
  have hsplit : taken ++ other.drop taken.length = other := by
    conv => rhs; rw [← List.take_append_drop taken.length other, hfront]
  have hrest : (other.drop taken.length).length = rest.length := by
    rw [List.length_drop, ← hlength, hbytes, List.length_append]
    omega
  rw [← hsplit]
  exact hother _ hrest

/-! ## The instructions of a sweep -/

theorem sweep_of_ne_nil (h : bytes ≠ []) :
    sweep mode ip bytes = decode mode ip bytes ::
      sweep mode (decode mode ip bytes).nextIp (bytes.drop (decode mode ip bytes).length) := by
  cases bytes with
  | nil => exact absurd rfl h
  | cons b rest =>
    obtain ⟨n, hn⟩ : ∃ n, (decode mode ip (b :: rest)).length = n + 1 :=
      ⟨_, (Nat.succ_pred_eq_of_pos (length_decode_pos mode ip h)).symm⟩
    rw [sweep_cons, hn]
    rfl

/-- Induction along a sweep: what is true of the bytes after an instruction is true of those from it on. -/
theorem sweep_induction (mode : Bitness) {motive : UInt64 → List UInt8 → Prop} (nil : ∀ ip, motive ip [])
    (cons : ∀ ip bytes, bytes ≠ [] →
      motive (decode mode ip bytes).nextIp (bytes.drop (decode mode ip bytes).length) → motive ip bytes)
    (ip : UInt64) (bytes : List UInt8) : motive ip bytes := by
  induction hn : bytes.length using Nat.strongRecOn generalizing ip bytes with
  | ind n ih =>
    subst hn
    by_cases h : bytes = []
    · subst h
      exact nil ip
    · have hpos := length_decode_pos mode ip h
      have hbytes := List.length_pos_iff.2 h
      refine cons ip bytes h (ih _ ?_ _ _ rfl)
      rw [List.length_drop]
      omega

theorem length_sweep_le (mode : Bitness) (ip : UInt64) (bytes : List UInt8) :
    (sweep mode ip bytes).length ≤ bytes.length := by
  induction ip, bytes using sweep_induction mode with
  | nil ip => simp
  | cons ip bytes hne ih =>
    have hpos := length_decode_pos mode ip hne
    have hbytes := List.length_pos_iff.2 hne
    rw [List.length_drop] at ih
    rw [sweep_of_ne_nil hne, List.length_cons]
    omega

theorem nextIp_decode (mode : Bitness) (ip : UInt64) (bytes : List UInt8) :
    (decode mode ip bytes).nextIp = ip + (decode mode ip bytes).length.toUInt64 := by
  rw [Instruction.nextIp, ip_decode]

theorem add_toUInt64_add (a : UInt64) (m n : Nat) : a + m.toUInt64 + n.toUInt64 = a + (m + n).toUInt64 := by
  simp only [Nat.toUInt64_eq, UInt64.ofNat_add, UInt64.add_assoc]

theorem toNat_add_toUInt64 (a : UInt64) (n : Nat) : (a + n.toUInt64).toNat = (a.toNat + n) % UInt64.size := by
  simp [Nat.toUInt64_eq, UInt64.toNat_add]

/-- **Every instruction of a sweep** is decoded from the bytes at its distance from the first one. -/
theorem exists_offset {i : Instruction} (h : i ∈ sweep mode ip bytes) :
    ∃ n < bytes.length, i = decode mode (ip + n.toUInt64) (bytes.drop n) := by
  revert h
  induction ip, bytes using sweep_induction mode with
  | nil ip =>
    intro h
    rw [sweep_nil] at h
    cases h
  | cons ip bytes hne ih =>
    intro h
    rw [sweep_of_ne_nil hne] at h
    rcases List.mem_cons.1 h with rfl | h
    · refine ⟨0, List.length_pos_iff.2 hne, ?_⟩
      simp
    · obtain ⟨n, hn, rfl⟩ := ih h
      rw [List.length_drop] at hn
      refine ⟨(decode mode ip bytes).length + n, by omega, ?_⟩
      rw [List.drop_drop, nextIp_decode, add_toUInt64_add]

/-- **The instructions of a sweep** stand at growing distances from the first one. -/
theorem pairwise_sweep (mode : Bitness) (ip : UInt64) (bytes : List UInt8) :
    (sweep mode ip bytes).Pairwise fun i j =>
      ∃ m n, m < n ∧ n < bytes.length ∧ i.ip = ip + m.toUInt64 ∧ j.ip = ip + n.toUInt64 := by
  induction ip, bytes using sweep_induction mode with
  | nil ip => simp
  | cons ip bytes hne ih =>
    have hpos := length_decode_pos mode ip hne
    rw [sweep_of_ne_nil hne, List.pairwise_cons]
    constructor
    · intro j hj
      obtain ⟨n, hn, rfl⟩ := exists_offset hj
      rw [List.length_drop] at hn
      refine ⟨0, (decode mode ip bytes).length + n, by omega, by omega, by simp, ?_⟩
      rw [ip_decode, nextIp_decode, add_toUInt64_add]
    · refine ih.imp fun {i j} hij => ?_
      obtain ⟨m, n, hmn, hn, hi, hj⟩ := hij
      rw [List.length_drop] at hn
      refine ⟨(decode mode ip bytes).length + m, (decode mode ip bytes).length + n, by omega, by omega, ?_, ?_⟩
      · rw [hi, nextIp_decode, add_toUInt64_add]
      · rw [hj, nextIp_decode, add_toUInt64_add]

end Encoding

/-! ## Listings -/

/-- Instructions that stand one behind the other from the start of a range on, at different addresses. -/
structure IsListing (range : CodeRange) (l : List Instruction) : Prop where
  first : ∀ i ∈ l.head?, i.ip = range.start
  consecutive : l.IsChain fun i j => j.ip = i.nextIp
  distinct : l.Pairwise fun i j => i.ip ≠ j.ip

/--
A listing in the order of the distance from its start. Its range holds all of
its addresses, or none where it passes the end of the address space; behind
its end can stand its start and nothing else of it.
-/
structure IsSpread (range : CodeRange) (l : List Instruction) : Prop extends IsListing range l where
  rising : l.Pairwise fun i j => i.ip - range.start < j.ip - range.start
  inside : (∀ i ∈ l, range.contains i.ip = true) ∨ ∀ a, range.contains a = false
  ending : ∀ i ∈ l.getLast?, ∀ j ∈ l, j.ip = i.nextIp → j.ip = range.start

/-- The addresses of some code. -/
def CodeRange.of (entry : UInt64) (code : List UInt8) : CodeRange :=
  ⟨entry, entry + code.length.toUInt64⟩

namespace Encoding

variable {mode : Bitness} {entry : UInt64} {code : List UInt8}

theorem toNat_toUInt64 {n : Nat} (h : n < UInt64.size) : n.toUInt64.toNat = n := by
  rw [Nat.toUInt64_eq, UInt64.toNat_ofNat', Nat.mod_eq_of_lt h]

theorem add_toUInt64_sub (a : UInt64) (n : Nat) : a + n.toUInt64 - a = n.toUInt64 := by
  rw [UInt64.add_comm, UInt64.add_sub_cancel]

theorem ip_of_head?_sweep (mode : Bitness) (ip : UInt64) (bytes : List UInt8) :
    ∀ i ∈ (sweep mode ip bytes).head?, i.ip = ip := by
  intro i hi
  by_cases hne : bytes = []
  · subst hne
    rw [sweep_nil] at hi
    cases hi
  · rw [sweep_of_ne_nil hne] at hi
    cases hi
    exact ip_decode mode ip bytes

theorem isListing_sweep (mode : Bitness) (entry : UInt64) (h : code.length ≤ UInt64.size) :
    IsListing (.of entry code) (sweep mode entry code) := by
  refine ⟨ip_of_head?_sweep mode entry code, ?_, ?_⟩
  · clear h
    induction entry, code using sweep_induction mode with
    | nil ip => simp
    | cons ip bytes hne ih =>
      rw [sweep_of_ne_nil hne, List.isChain_cons]
      exact ⟨ip_of_head?_sweep mode _ _, ih⟩
  · refine (pairwise_sweep mode entry code).imp fun {i j} hij heq => ?_
    obtain ⟨m, n, hmn, hn, hi, hj⟩ := hij
    have hsame : m.toUInt64 = n.toUInt64 := by
      rw [← add_toUInt64_sub entry m, ← hi, heq, hj, add_toUInt64_sub]
    have hnat := congrArg UInt64.toNat hsame
    rw [toNat_toUInt64 (by omega), toNat_toUInt64 (by omega)] at hnat
    omega

theorem nextIp_of_getLast?_sweep (mode : Bitness) (ip : UInt64) (bytes : List UInt8) :
    ∀ i ∈ (sweep mode ip bytes).getLast?, i.nextIp = ip + bytes.length.toUInt64 := by
  induction ip, bytes using sweep_induction mode with
  | nil ip =>
    intro i hi
    rw [sweep_nil] at hi
    cases hi
  | cons ip bytes hne ih =>
    intro i hi
    have hle := length_decode_le mode ip bytes
    rw [sweep_of_ne_nil hne, List.getLast?_cons] at hi
    cases hlast : (sweep mode (decode mode ip bytes).nextIp
        (bytes.drop (decode mode ip bytes).length)).getLast? with
    | some j =>
      have hj := ih j hlast
      rw [hlast] at hi
      cases hi
      rw [Option.getD_some, hj, nextIp_decode, add_toUInt64_add, List.length_drop, Nat.add_sub_of_le hle]
    | none =>
      have hdrop : bytes.drop (decode mode ip bytes).length = [] := by
        by_contra hne'
        rw [sweep_of_ne_nil hne', List.getLast?_cons] at hlast
        cases hlast
      rw [hlast] at hi
      cases hi
      rw [Option.getD_none, nextIp_decode, Nat.le_antisymm hle (List.drop_eq_nil_iff.1 hdrop)]

theorem contains_add {n : Nat} (h : entry.toNat + code.length < UInt64.size) (hn : n < code.length) :
    (CodeRange.of entry code).contains (entry + n.toUInt64) = true := by
  simp only [CodeRange.contains, CodeRange.of, Bool.and_eq_true, decide_eq_true_eq, UInt64.le_iff_toNat_le,
    UInt64.lt_iff_toNat_lt, toNat_add_toUInt64]
  rw [Nat.mod_eq_of_lt (by omega), Nat.mod_eq_of_lt (by omega)]
  omega

theorem contains_eq_false (h : UInt64.size ≤ entry.toNat + code.length) (hsize : code.length ≤ UInt64.size)
    (a : UInt64) : (CodeRange.of entry code).contains a = false := by
  have hentry : entry.toNat < UInt64.size := entry.toNat_lt
  have hstop : (entry.toNat + code.length) % UInt64.size = entry.toNat + code.length - UInt64.size := by
    rw [Nat.mod_eq_sub_mod h, Nat.mod_eq_of_lt (by omega)]
  simp only [CodeRange.contains, CodeRange.of, Bool.and_eq_false_iff, decide_eq_false_iff_not,
    UInt64.le_iff_toNat_le, UInt64.lt_iff_toNat_lt, toNat_add_toUInt64, hstop]
  omega

/-- The range of code that does not pass the end of the address space holds every instruction of it. -/
theorem inside_sweep (mode : Bitness) (h : entry.toNat + code.length < UInt64.size) :
    ∀ i ∈ sweep mode entry code, (CodeRange.of entry code).contains i.ip = true := by
  intro i hi
  obtain ⟨n, hn, rfl⟩ := exists_offset hi
  rw [ip_decode]
  exact contains_add h hn

/-- **A sweep is a listing** of code that fits into the address space. -/
theorem isSpread_sweep (mode : Bitness) (entry : UInt64) (h : code.length ≤ UInt64.size) :
    IsSpread (.of entry code) (sweep mode entry code) := by
  refine ⟨isListing_sweep mode entry h, ?_, ?_, ?_⟩
  · refine (pairwise_sweep mode entry code).imp fun {i j} hij => ?_
    obtain ⟨m, n, hmn, hn, hi, hj⟩ := hij
    show i.ip - entry < j.ip - entry
    rw [hi, hj, add_toUInt64_sub, add_toUInt64_sub, UInt64.lt_iff_toNat_lt, toNat_toUInt64 (by omega),
      toNat_toUInt64 (by omega)]
    exact hmn
  · by_cases hfits : entry.toNat + code.length < UInt64.size
    · exact .inl (inside_sweep mode hfits)
    · exact .inr (contains_eq_false (Nat.le_of_not_lt hfits) h)
  · intro i hi j hj hnext
    obtain ⟨n, hn, rfl⟩ := exists_offset hj
    rw [nextIp_of_getLast?_sweep mode entry code i hi] at hnext
    rw [ip_decode] at hnext ⊢
    have hdistance : n.toUInt64 = code.length.toUInt64 := by
      rw [← add_toUInt64_sub entry n, hnext, add_toUInt64_sub]
    -- Only the whole address space is as long as nothing.
    have hnat := congrArg UInt64.toNat hdistance
    rw [toNat_toUInt64 (by omega), Nat.toUInt64_eq, UInt64.toNat_ofNat'] at hnat
    have hzero : n = 0 := by
      simp only [UInt64.size] at h hn
      omega
    subst hzero
    simp [CodeRange.of]

/-- Code that does not pass the end of the address space is listed in the order of the addresses. -/
theorem ascending_sweep (mode : Bitness) (h : entry.toNat + code.length ≤ UInt64.size) :
    (sweep mode entry code).Pairwise fun i j => i.ip < j.ip := by
  refine (pairwise_sweep mode entry code).imp fun {i j} hij => ?_
  obtain ⟨m, n, hmn, hn, hi, hj⟩ := hij
  rw [hi, hj, UInt64.lt_iff_toNat_lt, toNat_add_toUInt64, toNat_add_toUInt64, Nat.mod_eq_of_lt (by omega),
    Nat.mod_eq_of_lt (by omega)]
  omega

end Encoding

end KernelOffsets
