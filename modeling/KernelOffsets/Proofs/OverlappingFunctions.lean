/-
What an image makes of the functions that it is given. It drops the empty ones
and puts the others in the order of their starts, but it does not look for
common addresses: the stored functions are apart exactly if the given ones are
(`Image.Stores.apart_iff`). A lookup finds a function only if no other one
starts between its start and the address (`Image.Stores.found_iff`), so that of
functions in each other some addresses are lost
(`Image.not_apart_nested`).
-/
import KernelOffsets.Proofs.LoadedImages
import Mathlib.Data.List.Nodup
import Mathlib.Data.List.Pairwise

namespace KernelOffsets

/-- No address lies in both extents. -/
def Extent.Apart (e f : Extent) : Prop := ∀ r, e.Covers r → ¬ f.Covers r

theorem Extent.Apart.symm {e f : Extent} (h : e.Apart f) : f.Apart e := fun r hf he => h r he hf

theorem Extent.Covers.nonempty {e : Extent} {r : Nat} (h : e.Covers r) : e.start < e.stop :=
  UInt32.lt_iff_toNat_lt.2 (Nat.lt_of_le_of_lt h.1 h.2)

/-- The extents that are not empty. -/
def Extent.nonempties (l : List Extent) : List Extent := l.filter fun e => e.start < e.stop

namespace Image

open PortableExecutable

variable {i : Image} {given : List Extent} {file : Bytes} {v : MemoryView} {base : UInt64}

/-- What an image stores of the functions that it is given, and which of them it finds. -/
structure Stores (i : Image) (given : List Extent) : Prop where
  perm : i.extents.Perm (Extent.nonempties given)
  nonempty : ∀ e ∈ i.extents, e.start < e.stop
  ordered : i.extents.Pairwise fun e f => e.start ≤ f.start
  apart_iff : i.extents.Pairwise Extent.Apart ↔ (Extent.nonempties given).Pairwise Extent.Apart
  found_iff : ((Extent.nonempties given).map (·.start)).Nodup → ∀ a r, i.rva? a = some r → r < UInt32.size →
    (i.functionAt? a ≠ none ↔ ∃ e ∈ given, e.Covers r ∧
      ∀ f ∈ given, f.start < f.stop → f.start.toNat ≤ r → f.start ≤ e.start)
  found : (Extent.nonempties given).Pairwise Extent.Apart → ∀ a r e, i.rva? a = some r → e ∈ given → e.Covers r →
    i.functionAt? a = some (i.base + e.start.toUInt64, i.base + e.stop.toUInt64)

theorem areApart_of_pairwise (hordered : i.extents.Pairwise fun e f => e.start ≤ f.start)
    (hnonempty : ∀ e ∈ i.extents, e.start < e.stop) (h : i.extents.Pairwise Extent.Apart) : AreApart i.extents where
  ordered := hordered
  nonempty := hnonempty
  apart e he f hf r her hfr := by
    by_contra hne
    have hsymm : Std.Symm Extent.Apart := ⟨fun _ _ => Extent.Apart.symm⟩
    exact h.forall he hf hne r her hfr

/-- Of extents with different starts, the one that starts last at or before an address is the only one looked at. -/
theorem filter_preceding?_ne_none_iff {l : List Extent} {rva : UInt32} (hordered : l.Pairwise fun e f => e.start ≤ f.start)
    (hstarts : (l.map (·.start)).Nodup) :
    (preceding? l rva).filter (·.contains rva) ≠ none ↔
      ∃ e ∈ l, e.Covers rva.toNat ∧ ∀ f ∈ l, f.start ≤ rva → f.start ≤ e.start := by
  rw [Option.ne_none_iff_exists']
  simp only [Option.filter_eq_some_iff, Extent.contains_iff]
  rcases preceding?_cases hordered rva with ⟨hnone, hbehind⟩ | ⟨p, hp, hsome, hle, hlast⟩
  · rw [hnone]
    refine ⟨fun ⟨_, hnot, _⟩ => absurd hnot.symm (Option.some_ne_none _), ?_⟩
    rintro ⟨e, he, hcovers, -⟩
    exact absurd (UInt32.le_iff_toNat_le.2 hcovers.1) (UInt32.not_le.2 (hbehind e he))
  · rw [hsome]
    constructor
    · rintro ⟨e, heq, hcovers⟩
      obtain rfl := Option.some.inj heq
      exact ⟨p, hp, hcovers, hlast⟩
    · rintro ⟨e, he, hcovers, hmost⟩
      have hstart := UInt32.le_antisymm (hlast e he (UInt32.le_iff_toNat_le.2 hcovers.1)) (hmost p hp hle)
      obtain rfl := List.inj_on_of_nodup_map hstarts he hp hstart
      exact ⟨e, rfl, hcovers⟩

theorem stores_withExtents (i : Image) (given : List Extent) : Stores (i.withExtents given) given := by
  have hperm : (i.withExtents given).extents.Perm (Extent.nonempties given) := List.mergeSort_perm _ _
  have hnonempty : ∀ e ∈ (i.withExtents given).extents, e.start < e.stop := fun e he => (mem_withExtents_iff.1 he).2
  have hordered := ordered_withExtents i given
  have hapart : (i.withExtents given).extents.Pairwise Extent.Apart ↔ (Extent.nonempties given).Pairwise Extent.Apart :=
    hperm.pairwise_iff Extent.Apart.symm
  refine ⟨hperm, hnonempty, hordered, hapart, fun hstarts a r hr hlt => ?_, fun hgiven a r e hr he hcovers => ?_⟩
  · have hrva : r.toUInt32.toNat = r := by rw [toNat_toUInt32, Nat.mod_eq_of_lt hlt]
    rw [Ne, functionAt?_eq_none_iff, extent?_of_rva? hr]
    refine (filter_preceding?_ne_none_iff hordered ((hperm.map _).nodup_iff.2 hstarts)).trans ?_
    simp only [mem_withExtents_iff, UInt32.le_iff_toNat_le (b := r.toUInt32), hrva]
    constructor
    · rintro ⟨e, ⟨he, -⟩, hcovers, hlast⟩
      exact ⟨e, he, hcovers, fun f hf hlt => hlast f ⟨hf, hlt⟩⟩
    · rintro ⟨e, he, hcovers, hlast⟩
      exact ⟨e, ⟨he, hcovers.nonempty⟩, hcovers, fun f hf => hlast f hf.1 hf.2⟩
  · have hlt : r < UInt32.size := Nat.lt_trans hcovers.2 e.stop.toNat_lt
    have hrva : r.toUInt32.toNat = r := by rw [toNat_toUInt32, Nat.mod_eq_of_lt hlt]
    have hfound : (i.withExtents given).extent? a = some e := by
      rw [extent?_of_rva? hr,
        (areApart_of_pairwise hordered hnonempty (hapart.2 hgiven)).filter_preceding?_eq_some_iff, hrva]
      exact ⟨mem_withExtents_iff.2 ⟨he, hcovers.nonempty⟩, hcovers⟩
    rw [functionAt?, hfound]
    rfl

/-! ## Reading images -/

theorem result_bind_eq_ok_iff {α β : Type} {x : Logged α} {g : α → Logged β} {b : β} :
    (x >>= g).result = .ok b ↔ ∃ a, x.result = .ok a ∧ (g a).result = .ok b := by
  rw [Logged.result_bind]
  exact bind_eq_ok_iff

theorem result_require_eq_ok_iff {α : Type} {x : Option α} {e : Failure} {a : α} :
    (Logged.require x e).result = .ok a ↔ x = some a := by
  cases x <;> simp [Logged.require]

theorem mapError_eq_ok_iff {ε α : Type} {x : Except ε α} {g : ε → Failure} {a : α} :
    x.mapError g = .ok a ↔ x = .ok a := by
  cases x <;> simp [Except.mapError]

theorem exists_of_ofFile (h : (ofFile file).result = .ok i) :
    ∃ f o base b data, PortableExecutable.read file = .ok f ∧ f.header.optional = some o ∧
      i = (ofBytes base b data).withExtents (findExtents b data (o.directory? exceptionIndex)).2 := by
  simp only [ofFile, result_bind_eq_ok_iff, Logged.result_ofExcept, mapError_eq_ok_iff, result_require_eq_ok_iff,
    result_ofMapped, Except.ok.injEq] at h
  obtain ⟨f, hread, o, ho, -, -, rfl⟩ := h
  exact ⟨f, o, _, _, _, hread, ho, rfl⟩

theorem exists_of_ofView (h : (ofView v base).result = .ok i) :
    ∃ headers header o b data, v.read 1 base headerBytes = .ok headers ∧ readHeader headers = .ok header ∧
      header.optional = some o ∧
      i = (ofBytes base b data).withExtents (findExtents b data (o.directory? exceptionIndex)).2 := by
  simp only [ofView, result_bind_eq_ok_iff, Logged.result_ofExcept, mapError_eq_ok_iff, result_require_eq_ok_iff,
    result_ofMapped, Except.ok.injEq] at h
  obtain ⟨headers, hread, header, hheader, b, -, o, ho, data, -, -, -, rfl⟩ := h
  exact ⟨headers, header, o, b, data, hread, hheader, ho, rfl⟩

/--
**What is stored and found of functions.** An image of bytes has no functions.
Whatever list of functions it is given, and whatever unwind data a file or a
view has, the ones that are not empty are stored in the order of their starts.
They are apart exactly if the given ones are, and then every address in one of
them is found. In any case, if no two start at the same address, one is found
exactly where the last that starts at or before the address reaches it.
-/
theorem stores_functions (base : UInt64) (b : Bitness) (data file : Bytes) (v : MemoryView) (i : Image)
    (given : List Extent) :
    Stores (ofBytes base b data) [] ∧
    Stores (i.withExtents given) given ∧
    ((ofFile file).result = .ok i →
      ∃ f o, PortableExecutable.read file = .ok f ∧ f.header.optional = some o ∧
        Stores i (findExtents i.bitness i.data (o.directory? exceptionIndex)).2) ∧
    ((ofView v base).result = .ok i →
      ∃ headers header o, v.read 1 base headerBytes = .ok headers ∧ readHeader headers = .ok header ∧
        header.optional = some o ∧ Stores i (findExtents i.bitness i.data (o.directory? exceptionIndex)).2) := by
  refine ⟨?_, stores_withExtents i given, fun h => ?_, fun h => ?_⟩
  · have hnone := stores_withExtents (ofBytes base b data) []
    simpa [withExtents, ofBytes] using hnone
  · obtain ⟨f, o, base, b, data, hread, ho, rfl⟩ := exists_of_ofFile h
    exact ⟨f, o, hread, ho, stores_withExtents _ _⟩
  · obtain ⟨headers, header, o, b, data, hread, hheader, ho, rfl⟩ := exists_of_ofView h
    exact ⟨headers, header, o, hread, hheader, ho, stores_withExtents _ _⟩

/-- Two functions side by side and an empty one between them, and a file of headers only. -/
theorem stores_functions_sideBySide :
    let given : List Extent := [⟨0x30, 0x38⟩, ⟨0x28, 0x20⟩, ⟨0x10, 0x20⟩]
    let i := (ofBytes 0x10000 .x64 (.replicate 0x40 0)).withExtents given
    let file := plainFile 0x100 0xe8 ⟨0, 0⟩ [] []
    i.functionAt? 0x10018 = some (0x10010, 0x10020) ∧ i.functionAt? 0x10020 = none ∧
      (∃ i, (ofFile file).result = .ok i ∧ i.extents.Pairwise fun e f => e.start ≤ f.start) ∧
      ∃ v i, (ofView v 0x10000).result = .ok i ∧ i.extents.Pairwise fun e f => e.start ≤ f.start := by
  intro given i file
  let o : OptionalHeader := ⟨magic64, 0x140000000, 0x200, 0x100, 0xe8, [none, none, none, none]⟩
  let v : MemoryView := .ofRegions [(0x10000, mapFile file o [])] fun _ => false
  have hread : PortableExecutable.read file = .ok ⟨⟨machine64, 0, 0xe8, 0, some o⟩, [], []⟩ := by decide +kernel
  have hstores := fun i => stores_functions 0x10000 .x64 #[] file v i given
  obtain ⟨-, hgiven, -⟩ := hstores (ofBytes 0x10000 .x64 (.replicate 0x40 0))
  refine ⟨?_, ?_, ?_, ?_⟩
  · have hapart : (Extent.nonempties given).Pairwise Extent.Apart := by
      have hkept : Extent.nonempties given = [⟨0x30, 0x38⟩, ⟨0x10, 0x20⟩] := by decide
      rw [hkept, List.pairwise_pair]
      rintro r ⟨hle, -⟩ ⟨-, hlt⟩
      exact absurd (Nat.lt_of_le_of_lt hle hlt) (by decide)
    exact hgiven.found hapart 0x10018 0x18 ⟨0x10, 0x20⟩ (rva?_eq_some_iff.2 ⟨by decide, by decide⟩) (by decide)
      (by decide)
  · by_contra hfound
    obtain ⟨e, he, hcovers, -⟩ := (hgiven.found_iff (by decide) 0x10020 0x20
      (rva?_eq_some_iff.2 ⟨by decide, by decide⟩) (by decide)).1 hfound
    simp only [given, List.mem_cons, List.not_mem_nil, or_false] at he
    rcases he with rfl | rfl | rfl <;> exact absurd hcovers (by decide)
  · obtain ⟨-, -, hfile, -⟩ := hstores _
    obtain ⟨f, o, -, -, stores⟩ := hfile (result_ofFile hread rfl)
    exact ⟨_, result_ofFile hread rfl, stores.ordered⟩
  · have hkept : KeepsHeaders file 0x40 o [] := by
      intro j hj
      have hsize : file.size = 0xe8 := by decide +kernel
      have hlength : o.length = 0x90 := rfl
      refine ⟨?_, nofun⟩
      unfold IsHeaderByte at hj
      rw [hsize]
      show j < min (min 0xe8 0xe8) (min 0x100 0x1000)
      omega
    have hholds := MemoryView.holds_ofRegions 0x10000 (mapFile file o []) (by rw [size_mapFile]; decide)
    have hresult := ofView_of_holds hread rfl (by decide +kernel) (.inl ⟨rfl, rfl⟩) hkept hholds
    obtain ⟨-, -, -, hview⟩ := hstores _
    obtain ⟨headers, header, o, -, -, -, stores⟩ := hview hresult
    exact ⟨_, _, hresult, stores.ordered⟩

/-- Of two functions, one in the other, the outer one is not found behind the end of the inner one. -/
theorem not_apart_nested :
    let given : List Extent := [⟨16, 128⟩, ⟨32, 48⟩]
    let i := (ofBytes 0x10000 .x64 (.replicate 256 0)).withExtents given
    (given.map (·.start)).Nodup ∧ ¬ i.extents.Pairwise Extent.Apart ∧
      i.rva? 0x10050 = some 0x50 ∧ (∃ e ∈ given, e.Covers 0x50) ∧ i.functionAt? 0x10050 = none := by
  intro given i
  have stores := stores_withExtents (ofBytes 0x10000 .x64 (.replicate 256 0)) given
  have hkept : Extent.nonempties given = given := by decide
  have hsize : i.size = 256 := Array.size_replicate
  have hrva : i.rva? 0x10050 = some 0x50 := rva?_eq_some_iff.2 ⟨by decide, hsize ▸ by decide⟩
  have hstarts : (given.map (·.start)).Nodup := by decide
  refine ⟨hstarts, ?_, hrva, ⟨⟨16, 128⟩, by decide, by decide⟩, ?_⟩
  · rw [stores.apart_iff, hkept, List.pairwise_pair]
    exact fun h => h 32 (by decide) (by decide)
  · by_contra hfound
    obtain ⟨e, he, hcovers, hlast⟩ := (stores.found_iff (hkept.symm ▸ hstarts) _ _ hrva (by decide)).1 hfound
    have hinner := hlast ⟨32, 48⟩ (by decide) (by decide) (by decide)
    simp only [given, List.mem_cons, List.not_mem_nil, or_false] at he
    rcases he with rfl | rfl
    · exact absurd hinner (by decide)
    · exact absurd hcovers (by decide)

end Image

end KernelOffsets
