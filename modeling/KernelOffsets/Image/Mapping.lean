/-
Mapping a file the way the loader does: the headers first, then the sections
in the order of their table, each cut at the end of the file and at the end
of the image. Where sections overlap, the later one wins. Bytes are copied
slice by slice; that no slice is out of range is `isSome_mapFile?`.
-/
import KernelOffsets.Image.Unwind

namespace KernelOffsets.Image

open PortableExecutable (Bytes File Section OptionalHeader magic64 exceptionIndex)

/-- Writes bytes over an array from a position on; what does not fit is dropped. -/
def overlay (data : Bytes) (start : Nat) (bytes : List UInt8) : Bytes :=
  match bytes with
  | [] => data
  | b :: rest => overlay (data.setIfInBounds start b) (start + 1) rest

@[simp] theorem size_overlay (data : Bytes) (start : Nat) (bytes : List UInt8) :
    (overlay data start bytes).size = data.size := by
  induction bytes generalizing data start with
  | nil => rfl
  | cons b rest ih => simp [overlay, ih]

/-- Inside the written range the new bytes are read, everywhere else the old ones. -/
theorem getElem?_overlay (data : Bytes) (start : Nat) (bytes : List UInt8) (i : Nat) :
    (overlay data start bytes)[i]? =
      if start ≤ i ∧ i < start + bytes.length ∧ i < data.size then bytes[i - start]? else data[i]? := by
  induction bytes generalizing data start with
  | nil =>
    have h : ¬(start ≤ i ∧ i < start + ([] : List UInt8).length ∧ i < data.size) := by
      simp only [List.length_nil]; omega
    rw [if_neg h]; rfl
  | cons b rest ih =>
    rw [overlay, ih, Array.size_setIfInBounds, Array.getElem?_setIfInBounds, List.length_cons]
    rcases Nat.lt_trichotomy i start with h | h | h
    · rw [if_neg (by omega), if_neg (by omega), if_neg (by omega)]
    · subst h
      rw [if_neg (by omega), if_pos rfl]
      by_cases hi : i < data.size
      · rw [if_pos hi, if_pos ⟨by omega, by omega, hi⟩, Nat.sub_self]; rfl
      · rw [if_neg hi, if_neg (by omega), Array.getElem?_eq_none (by omega)]
    · have hs : i - start = i - (start + 1) + 1 := by omega
      rw [if_neg (show ¬start = i by omega), hs, List.getElem?_cons_succ]
      by_cases hc : start + 1 ≤ i ∧ i < start + 1 + rest.length ∧ i < data.size
      · rw [if_pos hc, if_pos (by omega)]
      · rw [if_neg hc, if_neg (by omega)]

/-! ## Slices -/

/-- The bytes of a slice; `none` if it is out of range. -/
def slice? (bytes : Bytes) (start len : Nat) : Option (List UInt8) :=
  if start + len ≤ bytes.size then some (bytes.extract start (start + len)).toList else none

/-- Copies a slice of a file over a slice of an image; `none` if one of them is out of range. -/
def copySlice? (file : Bytes) (source : Nat) (data : Bytes) (target len : Nat) : Option Bytes :=
  match slice? file source len with
  | some bytes => if target + len ≤ data.size then some (overlay data target bytes) else none
  | none => none

theorem copySlice?_of_le {file data : Bytes} {source target len : Nat} (hfile : source + len ≤ file.size)
    (hdata : target + len ≤ data.size) :
    copySlice? file source data target len =
      some (overlay data target (file.extract source (source + len)).toList) := by
  rw [copySlice?, slice?, if_pos hfile]
  exact if_pos hdata

/-- After a copy the target reads as the source, and everything else as before. -/
theorem copySlice?_eq (file : Bytes) (source : Nat) (data : Bytes) (target len : Nat)
    (hfile : source + len ≤ file.size) (hdata : target + len ≤ data.size) :
    ∃ data', copySlice? file source data target len = some data' ∧ data'.size = data.size ∧
      ∀ i, data'[i]? = if target ≤ i ∧ i < target + len then file[source + (i - target)]? else data[i]? := by
  refine ⟨_, copySlice?_of_le hfile hdata, size_overlay .., fun i => ?_⟩
  have hlength : (file.extract source (source + len)).toList.length = len := by
    simp only [Array.length_toList, Array.size_extract]
    omega
  rw [getElem?_overlay, hlength]
  by_cases hi : target ≤ i ∧ i < target + len
  · rw [if_pos ⟨hi.1, hi.2, by omega⟩, if_pos hi, Array.getElem?_toList, Array.getElem?_extract,
      if_pos (by omega)]
  · rw [if_neg (by omega), if_neg hi]

/-! ## Sections -/

/-- The number of bytes that a section asks to be mapped. -/
def mappedSize (s : Section) : Nat :=
  if s.virtualSize = 0 then s.rawSize else min s.rawSize s.virtualSize

/-- Maps a section, cut at the end of the file and at the end of the image. -/
def mapSection? (file data : Bytes) (s : Section) : Option Bytes :=
  if file.size ≤ s.rawAt ∨ data.size ≤ s.rva then some data
  else
    copySlice? file s.rawAt data s.rva
      (min (min (mappedSize s) (file.size - s.rawAt)) (data.size - s.rva))

/-- The bytes of a mapped file; `none` if a slice is out of range, which no file leads to. -/
def mapFile? (file : Bytes) (o : OptionalHeader) (sections : List Section) : Option Bytes :=
  (copySlice? file 0 (Array.replicate o.sizeOfImage 0) 0 (min (min o.sizeOfHeaders file.size) o.sizeOfImage)).bind
    fun headers => sections.foldlM (mapSection? file) headers

/-- The offset lies in what a section maps of a file. -/
def Maps (file : Bytes) (s : Section) (offset : Nat) : Prop :=
  s.rawAt < file.size ∧ s.rva ≤ offset ∧ offset < s.rva + min (mappedSize s) (file.size - s.rawAt)

instance (file : Bytes) (s : Section) (offset : Nat) : Decidable (Maps file s offset) :=
  inferInstanceAs (Decidable (_ ∧ _))

theorem mapSection?_eq (file data : Bytes) (s : Section) :
    ∃ data', mapSection? file data s = some data' ∧ data'.size = data.size ∧
      ∀ i < data.size, data'[i]? = if Maps file s i then file[s.rawAt + (i - s.rva)]? else data[i]? := by
  unfold mapSection?
  by_cases hskip : file.size ≤ s.rawAt ∨ data.size ≤ s.rva
  · rw [if_pos hskip]
    refine ⟨data, rfl, rfl, fun i hi => ?_⟩
    rw [if_neg]
    rintro ⟨hraw, hrva, -⟩
    omega
  · rw [if_neg hskip]
    obtain ⟨data', hcopy, hsize, hbytes⟩ := copySlice?_eq file s.rawAt data s.rva
      (min (min (mappedSize s) (file.size - s.rawAt)) (data.size - s.rva)) (by omega) (by omega)
    refine ⟨data', hcopy, hsize, fun i hi => ?_⟩
    rw [hbytes]
    by_cases hmaps : Maps file s i
    · rw [if_pos hmaps]
      unfold Maps at hmaps
      rw [if_pos (by omega)]
    · rw [if_neg hmaps]
      unfold Maps at hmaps
      rw [if_neg (by omega)]

theorem exists_mapSections? (file : Bytes) (sections : List Section) (data : Bytes) :
    ∃ data', sections.foldlM (mapSection? file) data = some data' ∧ data'.size = data.size := by
  induction sections generalizing data with
  | nil => exact ⟨data, rfl, rfl⟩
  | cons s rest ih =>
    obtain ⟨mapped, hmap, hsize, -⟩ := mapSection?_eq file data s
    obtain ⟨data', hrest, hsize'⟩ := ih mapped
    refine ⟨data', ?_, hsize'.trans hsize⟩
    rw [List.foldlM_cons, hmap]
    exact hrest

theorem exists_mapFile? (file : Bytes) (o : OptionalHeader) (sections : List Section) :
    ∃ data, mapFile? file o sections = some data ∧ data.size = o.sizeOfImage := by
  obtain ⟨headers, hcopy, hsize, -⟩ := copySlice?_eq file 0 (Array.replicate o.sizeOfImage 0) 0
    (min (min o.sizeOfHeaders file.size) o.sizeOfImage) (by omega) (by simp only [Array.size_replicate]; omega)
  obtain ⟨data, hmap, hsize'⟩ := exists_mapSections? file sections headers
  refine ⟨data, ?_, by simp [hsize', hsize]⟩
  rw [mapFile?, hcopy]
  exact hmap

theorem isSome_mapFile? (file : Bytes) (o : OptionalHeader) (sections : List Section) :
    (mapFile? file o sections).isSome := by
  obtain ⟨data, hmap, -⟩ := exists_mapFile? file o sections
  rw [hmap]
  rfl

/-- The bytes of a mapped file. -/
def mapFile (file : Bytes) (o : OptionalHeader) (sections : List Section) : Bytes :=
  (mapFile? file o sections).get (isSome_mapFile? file o sections)

theorem mapFile?_eq (file : Bytes) (o : OptionalHeader) (sections : List Section) :
    mapFile? file o sections = some (mapFile file o sections) :=
  (Option.some_get _).symm

theorem size_mapFile (file : Bytes) (o : OptionalHeader) (sections : List Section) :
    (mapFile file o sections).size = o.sizeOfImage := by
  obtain ⟨data, hmap, hsize⟩ := exists_mapFile? file o sections
  rw [mapFile?_eq] at hmap
  rw [Option.some.inj hmap, hsize]

/-- The mode of a file, by the width of its addresses. -/
def fileBitness (o : OptionalHeader) : Bitness :=
  if o.magic = magic64 then .x64 else .x86

/-- The image of a file at its preferred base address. -/
def ofFile (file : Bytes) : Logged Image := do
  let f ← Logged.ofExcept ((PortableExecutable.read file).mapError .malformedFile)
  let o ← Logged.require f.header.optional (.invalidImage "missing optional header")
  let b := fileBitness o
  let base := f.imageBase.toUInt64
  Logged.note (.mapped b base o.sizeOfImage f.sections.length)
  ofMapped base b (mapFile file o f.sections) (o.directory? exceptionIndex)

end KernelOffsets.Image
