/-
Every byte of a mapped file. A section writes over what was mapped before, so
that the last one that maps an offset decides its byte
(`getElem?_mapSections?`), and where no section does the headers are seen, or
zero. The main result is `Image.ofFile_bytes`.
-/
import KernelOffsets.Image.Mapping
import Mathlib.Data.List.Basic

namespace KernelOffsets.Image

open PortableExecutable

variable {file data data' : Bytes} {f : File} {o : OptionalHeader} {s : Section} {sections : List Section} {n : Nat}

/-- The last section, in the order of the table, that maps an offset. -/
def lastMapping? (file : Bytes) (sections : List Section) (offset : Nat) : Option Section :=
  sections.reverse.find? fun s => Maps file s offset

/-- The byte of a mapped file at an offset: that of the last section that maps it, or else of the headers, or zero. -/
def mappedByte? (file : Bytes) (o : OptionalHeader) (sections : List Section) (offset : Nat) : Option UInt8 :=
  match lastMapping? file sections offset with
  | some s => file[s.rawAt + (offset - s.rva)]?
  | none => if offset < min o.sizeOfHeaders file.size then file[offset]? else some 0

theorem lastMapping?_cons (offset : Nat) :
    lastMapping? file (s :: sections) offset =
      (lastMapping? file sections offset).or (if Maps file s offset then some s else none) := by
  rw [lastMapping?, List.reverse_cons, List.find?_append, lastMapping?, List.find?_singleton]
  simp only [decide_eq_true_eq]

theorem lastMapping?_eq_none_iff : lastMapping? file sections n = none ↔ ∀ s ∈ sections, ¬ Maps file s n := by
  simp [lastMapping?]

theorem getElem?_mapSections? (h : sections.foldlM (mapSection? file) data = some data') (hn : n < data.size) :
    data'[n]? = match lastMapping? file sections n with
      | some s => file[s.rawAt + (n - s.rva)]?
      | none => data[n]? := by
  induction sections generalizing data with
  | nil =>
    cases h
    rfl
  | cons s sections ih =>
    obtain ⟨mapped, hmapped, hsize, hbytes⟩ := mapSection?_eq file data s
    rw [List.foldlM_cons, hmapped] at h
    rw [ih h (by omega), lastMapping?_cons, hbytes n hn]
    cases lastMapping? file sections n with
    | some t => rfl
    | none => by_cases hmaps : Maps file s n <;> simp [hmaps]

theorem getElem?_mapFile (hn : n < o.sizeOfImage) :
    (mapFile file o sections)[n]? = mappedByte? file o sections n := by
  obtain ⟨headers, hcopy, hsize, hbytes⟩ := copySlice?_eq file 0 (Array.replicate o.sizeOfImage 0) 0
    (min (min o.sizeOfHeaders file.size) o.sizeOfImage) (by omega) (by simp only [Array.size_replicate]; omega)
  have hmap := mapFile?_eq file o sections
  rw [mapFile?, hcopy, Option.bind_some] at hmap
  rw [Array.size_replicate] at hsize
  rw [getElem?_mapSections? hmap (by omega), mappedByte?]
  cases lastMapping? file sections n with
  | some s => rfl
  | none =>
    rw [hbytes]
    by_cases hheaders : n < min o.sizeOfHeaders file.size
    · rw [if_pos (by omega), if_pos hheaders, Nat.sub_zero, Nat.zero_add]
    · rw [if_neg (by omega), if_neg hheaders, Array.getElem?_replicate, if_pos hn]

theorem result_ofFile (hread : PortableExecutable.read file = .ok f) (ho : f.header.optional = some o) :
    (ofFile file).result = .ok ((ofBytes f.imageBase.toUInt64 (fileBitness o) (mapFile file o f.sections)).withExtents
      (findExtents (fileBitness o) (mapFile file o f.sections) (o.directory? exceptionIndex)).2) := by
  simp [ofFile, hread, ho, Except.mapError, Except.bind, Logged.require]

/-- **Every byte of a mapped file.** A file that is read and has an optional header is mapped, with all slices in
range, to as many bytes as its headers say: those of the last section that maps them, or else of the headers, or
zero. -/
theorem ofFile_bytes (hread : PortableExecutable.read file = .ok f) (ho : f.header.optional = some o) :
    ∃ i, (ofFile file).result = .ok i ∧ mapFile? file o f.sections = some i.data ∧ i.size = o.sizeOfImage ∧
      ∀ offset < o.sizeOfImage, i.data[offset]? = mappedByte? file o f.sections offset :=
  ⟨_, result_ofFile hread ho, mapFile?_eq .., size_mapFile .., fun _ hoffset => getElem?_mapFile hoffset⟩

/-! ## A file with little in it -/

/-- The lowest bytes of a number, the lowest one first. -/
def littleEndian : Nat → Nat → List UInt8
  | 0, _ => []
  | count + 1, n => n.toUInt8 :: littleEndian count (n / 0x100)

/-- An entry of the section table, without a name. -/
def sectionEntry (s : Section) : List UInt8 :=
  littleEndian 8 0 ++ littleEndian 4 s.virtualSize ++ littleEndian 4 s.rva ++ littleEndian 4 s.rawSize ++
    littleEndian 4 s.rawAt ++ littleEndian 16 0

/-- A file for 64-bit code: headers with a directory of unwind data, a section table, and some bytes behind it. -/
def plainFile (sizeOfImage sizeOfHeaders : Nat) (unwind : Directory) (sections : List Section) (rest : List UInt8) :
    Bytes :=
  let start := littleEndian 0x3c 0 ++ littleEndian 4 0x40
  let machine := littleEndian 4 0 ++ littleEndian 2 machine64 ++ littleEndian 2 sections.length ++
    littleEndian 12 0 ++ littleEndian 2 144 ++ littleEndian 2 0
  let optional := littleEndian 2 magic64 ++ littleEndian 22 0 ++ littleEndian 8 0x140000000 ++ littleEndian 4 0 ++
    littleEndian 4 0x200 ++ littleEndian 16 0 ++ littleEndian 4 sizeOfImage ++ littleEndian 4 sizeOfHeaders ++
    littleEndian 44 0 ++ littleEndian 4 4 ++ littleEndian 24 0 ++ littleEndian 4 unwind.rva ++
    littleEndian 4 unwind.size
  (start ++ machine ++ optional ++ sections.flatMap sectionEntry ++ rest).toArray

/-- Two sections that overlap each other and the headers and reach past the end of the file, and one that reaches
past the end of the image. -/
theorem ofFile_bytes_overlapping :
    let sections : List Section := [⟨0, 0x10, 0x20, 0x160⟩, ⟨8, 0x18, 0x1000, 0x168⟩, ⟨0, 0x58, 0x10, 0x160⟩]
    let file := plainFile 0x60 0x50 ⟨0, 0⟩ sections ((List.range 0x10).map fun n => (n + 0xa0).toUInt8)
    let o : OptionalHeader := ⟨magic64, 0x140000000, 0x200, 0x60, 0x50, [none, none, none, none]⟩
    PortableExecutable.read file = .ok ⟨⟨machine64, 3, 0xe8, 0, some o⟩, sections, []⟩ ∧
    ∃ i, (ofFile file).result = .ok i ∧ i.size = 0x60 ∧ i.data[0x17]? = some 0xa7 ∧ i.data[0x18]? = some 0xa8 ∧
      i.data[0x20]? = some 0 ∧ i.data[0x44]? = some 0x64 ∧ i.data[0x50]? = some 0 ∧ i.data[0x5f]? = some 0xa7 := by
  intro sections file o
  have hread : PortableExecutable.read file = .ok ⟨⟨machine64, 3, 0xe8, 0, some o⟩, sections, []⟩ := by
    decide +kernel
  obtain ⟨i, hi, -, hsize, hbytes⟩ := ofFile_bytes hread rfl
  have hbyte {offset : Nat} {byte : UInt8} (hoffset : offset < 0x60)
      (h : mappedByte? file o sections offset = some byte) : i.data[offset]? = some byte :=
    (hbytes offset hoffset).trans h
  exact ⟨hread, i, hi, hsize, hbyte (by decide) (by decide +kernel), hbyte (by decide) (by decide +kernel),
    hbyte (by decide) (by decide +kernel), hbyte (by decide) (by decide +kernel),
    hbyte (by decide) (by decide +kernel), hbyte (by decide) (by decide +kernel)⟩

end KernelOffsets.Image
