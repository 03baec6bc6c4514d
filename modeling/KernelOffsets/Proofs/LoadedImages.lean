/-
The same image from a file and from memory. The headers are read from bytes at
known places only (`IsHeaderByte`), so that any copy of these bytes gives the
same headers (`Copies.readHeader_eq`), and mapping a file copies them where no
section is mapped over them (`KeepsHeaders.copies_mapFile`). What is read then
is the mapped file at another base address, where lookups answer the same
(`answersAlike_movedTo`). The main result is `Image.ofView_ofFile`.
-/
import KernelOffsets.Image.Capture
import KernelOffsets.Proofs.FileMapping
import KernelOffsets.Proofs.FunctionExtents
import KernelOffsets.Proofs.Sweep

namespace KernelOffsets

/-! ## Reading a copy -/

theorem bind_eq_ok_iff {ε α β : Type} {x : Except ε α} {g : α → Except ε β} {b : β} :
    x >>= g = .ok b ↔ ∃ a, x = .ok a ∧ g a = .ok b := by
  cases x with
  | error e => exact ⟨nofun, fun ⟨a, ha, _⟩ => nomatch ha⟩
  | ok a => exact ⟨fun h => ⟨a, rfl, h⟩, fun ⟨_, ha, h⟩ => Except.ok.inj ha ▸ h⟩

theorem mapM_congr {ε α β : Type} {g g' : α → Except ε β} {l : List α} (h : ∀ a ∈ l, g a = g' a) :
    l.mapM g = l.mapM g' := by
  induction l with
  | nil => rfl
  | cons a l ih =>
    rw [List.mapM_cons, List.mapM_cons, h a List.mem_cons_self, ih fun b hb => h b (List.mem_cons_of_mem a hb)]

theorem length_mapM {ε α β : Type} {g : α → Except ε β} {l : List α} {r : List β} (h : l.mapM g = .ok r) :
    r.length = l.length := by
  induction l generalizing r with
  | nil =>
    cases h
    rfl
  | cons a l ih =>
    rw [List.mapM_cons] at h
    obtain ⟨b, -, h⟩ := bind_eq_ok_iff.1 h
    obtain ⟨rest, hrest, h⟩ := bind_eq_ok_iff.1 h
    cases h
    simp [ih hrest]

namespace PortableExecutable

variable {file copy : Bytes} {P : Nat → Prop} {offset n start count magic size : Nat} {fault : FileFault}
  {directories : List (Option Directory)} {o : OptionalHeader} {h : Header} {f : File}

/-- A copy has the bytes of a file at certain places. -/
def Copies (P : Nat → Prop) (file copy : Bytes) : Prop :=
  ∀ j, P j → ∃ byte, file[j]? = some byte ∧ copy[j]? = some byte

theorem Copies.number?_eq (hcopy : Copies P file copy) (hn : 0 < n) (hP : ∀ j, offset ≤ j → j < offset + n → P j) :
    copy.number? offset n = file.number? offset n := by
  obtain ⟨last, hlast, hlast'⟩ := hcopy (offset + n - 1) (hP _ (by omega) (by omega))
  obtain ⟨hfile, -⟩ := Array.getElem?_eq_some_iff.1 hlast
  obtain ⟨hsize, -⟩ := Array.getElem?_eq_some_iff.1 hlast'
  have hbytes : copy.extract offset (offset + n) = file.extract offset (offset + n) := by
    refine Array.ext_getElem? fun k => ?_
    rw [Array.getElem?_extract, Array.getElem?_extract]
    by_cases hk : k < n
    · obtain ⟨byte, hf, hc⟩ := hcopy (offset + k) (hP _ (by omega) (by omega))
      rw [if_pos (by omega), if_pos (by omega), hf, hc]
    · rw [if_neg (by omega), if_neg (by omega)]
  rw [Bytes.number?, Bytes.number?, if_pos (by omega), if_pos (by omega), hbytes]

theorem Copies.require_eq (hcopy : Copies P file copy) (hn : 0 < n)
    (hP : ∀ j, offset ≤ j → j < offset + n → P j) : require copy offset n fault = require file offset n fault := by
  rw [require, require, hcopy.number?_eq hn hP]

/-! ## The bytes of the headers -/

/-- The shape of an optional header. -/
def OptionalHeader.shape (o : OptionalHeader) : OptionalShape :=
  if o.magic = magic32 then shape32 else shape64

/-- The length of an optional header with its directories. -/
def OptionalHeader.length (o : OptionalHeader) : Nat :=
  o.shape.directoryCountAt + 4 + 8 * o.directories.length

/-- The bytes that the headers are read from: the signature at the front and the offset at 0x3c, and at that offset
the second signature, the header of the machine, and the optional header with its directories. -/
def IsHeaderByte (start : Nat) (o : OptionalHeader) (j : Nat) : Prop :=
  j < 2 ∨ (0x3c ≤ j ∧ j < 0x40) ∨ (start ≤ j ∧ j < start + 24 + o.length)

theorem shapeOf_cases {shape : OptionalShape} (hshape : shapeOf magic = .ok shape) :
    (magic = magic32 ∧ shape = shape32) ∨ (magic = magic64 ∧ shape = shape64) := by
  unfold shapeOf at hshape
  split at hshape
  · next h => exact .inl ⟨h, (Except.ok.inj hshape).symm⟩
  · split at hshape
    · next h => exact .inr ⟨h, (Except.ok.inj hshape).symm⟩
    · cases hshape

theorem length_readDirectories (hread : readDirectories file offset count = .ok directories) :
    directories.length = count := by
  rw [readDirectories] at hread
  split at hread
  · cases hread
  · rw [length_mapM hread, List.length_range]

theorem Copies.readDirectories_eq (hcopy : Copies P file copy)
    (hP : ∀ j, offset ≤ j → j < offset + 8 * count → P j) :
    readDirectories copy offset count = readDirectories file offset count := by
  rw [readDirectories, readDirectories]
  refine if_congr Iff.rfl rfl (mapM_congr fun i hi => ?_)
  have hlt := List.mem_range.1 hi
  rw [readDirectory, readDirectory, hcopy.require_eq (by decide) fun j _ _ => hP j (by omega) (by omega),
    hcopy.require_eq (by decide) fun j _ _ => hP j (by omega) (by omega)]

/-- An optional header is read from its own bytes only. -/
theorem Copies.readOptional_eq (hcopy : Copies P file copy) (hread : readOptional file offset = .ok o)
    (hP : ∀ j, offset ≤ j → j < offset + o.length → P j) : readOptional copy offset = .ok o := by
  simp only [readOptional, bind_eq_ok_iff] at hread ⊢
  obtain ⟨magic, hmagic, shape, hshape, count, hcount, base, hbase, alignment, halignment, image, himage, headers,
    hheaders, directories, hdirectories, heq⟩ := hread
  obtain rfl := (Except.ok.inj heq).symm
  have hlength : OptionalHeader.length ⟨magic, base, alignment, image, headers, directories⟩ =
      shape.directoryCountAt + 4 + 8 * count := by
    rw [OptionalHeader.length, OptionalHeader.shape, length_readDirectories hdirectories]
    rcases shapeOf_cases hshape with ⟨rfl, rfl⟩ | ⟨rfl, rfl⟩ <;> rfl
  have hfixed : 92 ≤ shape.directoryCountAt ∧ shape.imageBaseAt + shape.imageBaseBytes ≤ 32 ∧
      0 < shape.imageBaseBytes := by
    rcases shapeOf_cases hshape with ⟨-, rfl⟩ | ⟨-, rfl⟩ <;> decide
  rw [hlength] at hP
  have hfield {place n value : Nat} (hvalue : require file place n .unreadable = .ok value) (hn : 0 < n)
      (hwithin : offset ≤ place ∧ place + n ≤ offset + shape.directoryCountAt + 4) :
      require copy place n .unreadable = .ok value := by
    rwa [hcopy.require_eq hn fun j _ _ => hP j (by omega) (by omega)]
  refine ⟨magic, hfield hmagic (by decide) (by omega), shape, hshape, count, hfield hcount (by decide) (by omega), base,
    hfield hbase hfixed.2.2 (by omega), alignment, hfield halignment (by decide) (by omega), image,
    hfield himage (by decide) (by omega), headers, hfield hheaders (by decide) (by omega), directories, ?_, heq⟩
  rwa [hcopy.readDirectories_eq fun j _ _ => hP j (by omega) (by omega)]

theorem Copies.readSized_eq (hcopy : Copies P file copy) (hread : readSized file offset size = .ok (some o))
    (hP : ∀ j, offset ≤ j → j < offset + o.length → P j) : readSized copy offset size = .ok (some o) := by
  rw [readSized] at hread ⊢
  split at hread
  · cases hread
  · next hsize =>
    rw [if_neg hsize]
    cases hoptional : readOptional file offset with
    | error e =>
      rw [hoptional] at hread
      cases hread
    | ok o' =>
      rw [hoptional] at hread
      obtain rfl := Option.some.inj (Except.ok.inj hread)
      rw [hcopy.readOptional_eq hoptional hP]
      rfl

/-- The headers are read from their own bytes only. -/
theorem Copies.readHeader_eq (hcopy : Copies (IsHeaderByte start o) file copy) (hread : readHeader file = .ok h)
    (ho : h.optional = some o) (hstart : file.number? 0x3c 4 = some start) : readHeader copy = .ok h := by
  have hP (j : Nat) (hj : start ≤ j) (hlt : j < start + 24 + o.length) : IsHeaderByte start o j := .inr (.inr ⟨hj, hlt⟩)
  simp only [readHeader, bind_eq_ok_iff] at hread ⊢
  obtain ⟨front, hfront, start', hstart', sign, hsign, machine, hmachine, sections, hsections, symbols, hsymbols,
    symbolCount, hsymbolCount, size, hsize, flags, hflags, optional, hoptional, heq⟩ := hread
  obtain rfl := (Except.ok.inj heq).symm
  obtain rfl : optional = some o := ho
  obtain rfl : start = start' := by
    rw [require, hstart] at hstart'
    exact Except.ok.inj hstart'
  have hfield {place n value : Nat} {fault : FileFault} (hvalue : require file place n fault = .ok value) (hn : 0 < n)
      (hwithin : start ≤ place ∧ place + n ≤ start + 24) : require copy place n fault = .ok value := by
    rwa [hcopy.require_eq hn fun j _ _ => hP j (by omega) (by omega)]
  have hfront' : require copy 0 2 .malformed = .ok front := by
    rwa [hcopy.require_eq (by decide) fun j _ _ => .inl (by omega)]
  have hplace : require copy 0x3c 4 .malformed = .ok start := by
    rwa [hcopy.require_eq (by decide) fun j _ _ => .inr (.inl (by omega))]
  have hoptional' := hcopy.readSized_eq hoptional fun j _ _ => hP j (by omega) (by omega)
  exact ⟨front, hfront', start, hplace, sign, hfield hsign (by decide) (by omega), machine,
    hfield hmachine (by decide) (by omega), sections, hfield hsections (by decide) (by omega), symbols,
    hfield hsymbols (by decide) (by omega), symbolCount, hfield hsymbolCount (by decide) (by omega), size,
    hfield hsize (by decide) (by omega), flags, hfield hflags (by decide) (by omega), some o, hoptional', heq⟩

theorem readHeader_of_read (hread : read file = .ok f) : readHeader file = .ok f.header := by
  obtain ⟨header, hheader, hread⟩ := bind_eq_ok_iff.1 hread
  obtain ⟨sections, -, hread⟩ := bind_eq_ok_iff.1 hread
  have hf : f.header = header := by
    cases ho : header.optional with
    | none =>
      rw [ho] at hread
      cases hread
      rfl
    | some o =>
      simp only [ho] at hread
      obtain ⟨-, -, hread⟩ := bind_eq_ok_iff.1 hread
      obtain ⟨-, -, hread⟩ := bind_eq_ok_iff.1 hread
      by_cases hmachine : header.machine = machine64
      · rw [if_pos hmachine] at hread
        obtain ⟨-, -, hread⟩ := bind_eq_ok_iff.1 hread
        cases hread
        rfl
      · rw [if_neg hmachine] at hread
        cases hread
        rfl
  rw [hheader, hf]

end PortableExecutable

/-! ## The same bytes elsewhere -/

open Encoding (add_toUInt64_sub toNat_add_toUInt64 toNat_toUInt64)

/-- All reads of a view succeed, and from an address on they find some bytes. -/
structure MemoryView.Holds (v : MemoryView) (base : UInt64) (data : Array UInt8) : Prop where
  succeeds : ∀ n, v.fails n = false
  bytes : ∀ j < data.size, v.byte? (base + j.toUInt64) = data[j]?

theorem MemoryView.Holds.read {v : MemoryView} {base : UInt64} {data : Array UInt8} (h : v.Holds base data)
    (n len : Nat) :
    ∃ bytes, v.read n base len = .ok bytes ∧ bytes.size = len ∧
      ∀ j < len, j < data.size → bytes[j]? = data[j]? := by
  refine ⟨_, if_neg (by simp [h.succeeds]), Array.size_ofFn, fun j hj hdata => ?_⟩
  rw [Array.getElem?_ofFn, dif_pos hj, h.bytes j hdata, getElem?_pos data j hdata, Option.getD_some]

/-- A region holds its bytes if it does not reach past the last address. -/
theorem MemoryView.holds_ofRegions (base : UInt64) (data : Array UInt8) (h : base.toNat + data.size ≤ UInt64.size) :
    (ofRegions [(base, data)] fun _ => false).Holds base data where
  succeeds _ := rfl
  bytes j hj := by
    have hle : base ≤ base + j.toUInt64 := by
      rw [UInt64.le_iff_toNat_le, toNat_add_toUInt64, Nat.mod_eq_of_lt (by omega)]
      exact Nat.le_add_right ..
    simp only [ofRegions, List.findSome?_singleton]
    rw [if_pos hle, add_toUInt64_sub, toNat_toUInt64 (by omega)]

theorem MemoryView.Holds.read_size {v : MemoryView} {base : UInt64} {data : Array UInt8} (h : v.Holds base data)
    (n : Nat) : v.read n base data.size = .ok data := by
  obtain ⟨bytes, hread, hsize, hbytes⟩ := h.read n data.size
  rw [hread]
  refine congrArg _ (Array.ext_getElem? fun j => ?_)
  by_cases hj : j < data.size
  · exact hbytes j hj hj
  · rw [getElem?_neg _ _ (by omega), getElem?_neg _ _ (by omega)]

namespace Image

open PortableExecutable

variable {i : Image} {base a a' : UInt64} {r : Nat} {file : Bytes} {f : File} {o : OptionalHeader}
  {start : Nat} {v : MemoryView}

/-- The image at another base address. -/
def movedTo (i : Image) (base : UInt64) : Image := { i with base }

@[simp] theorem size_movedTo (i : Image) (base : UInt64) : (i.movedTo base).size = i.size := rfl

/-- A lookup at one address of an image answers as a lookup at an address of another one, up to the bases. -/
structure AnswersAlike (i i' : Image) (a a' : UInt64) : Prop where
  function : (i.functionAt? a).map (fun e => (e.1 - i.base, e.2 - i.base)) =
    (i'.functionAt? a').map fun e => (e.1 - i'.base, e.2 - i'.base)
  read : ∀ len, i.read? a len = i'.read? a' len
  code : ∀ window, (i.functionCode a window).toOption = (i'.functionCode a' window).toOption

theorem relative_functionAt? (i : Image) (a : UInt64) :
    (i.functionAt? a).map (fun e => (e.1 - i.base, e.2 - i.base)) =
      (i.extent? a).map fun e => (e.start.toUInt64, e.stop.toUInt64) := by
  rw [functionAt?, Option.map_map]
  congr 1
  funext e
  simp only [Function.comp_apply, UInt64.add_comm i.base, UInt64.add_sub_cancel]

theorem codeLength_eq (hr : i.rva? a = some r) (window : Nat) :
    i.codeLength a window = match i.extent? a with
      | some e => (e.stop.toUInt64 - r.toUInt64).toNat
      | none => window := by
  have ha : a = i.base + r.toUInt64 := by
    obtain ⟨ha, -⟩ := rva?_eq_some_iff.1 hr
    rw [← UInt64.toNat_inj, toNat_add_toUInt64, ← ha, Nat.mod_eq_of_lt a.toNat_lt]
  have hdistance (e : Extent) : i.base + e.stop.toUInt64 - a = e.stop.toUInt64 - r.toUInt64 := by
    rw [ha, UInt64.add_comm i.base r.toUInt64, UInt64.sub_eq_iff_eq_add, ← UInt64.add_assoc, UInt64.sub_add_cancel,
      UInt64.add_comm]
  rw [codeLength, functionAt?]
  cases i.extent? a with
  | none => rfl
  | some e => exact congrArg UInt64.toNat (hdistance e)

theorem answersAlike_movedTo (h : i.rva? a = (i.movedTo base).rva? a') : AnswersAlike i (i.movedTo base) a a' := by
  have hextent : (i.movedTo base).extent? a' = i.extent? a := by
    rw [extent?, extent?, h]
    rfl
  have hbytes : (i.movedTo base).bytesFrom? a' = i.bytesFrom? a := by
    rw [bytesFrom?, bytesFrom?, h]
    rfl
  refine ⟨?_, fun len => ?_, fun window => ?_⟩
  · rw [relative_functionAt?, relative_functionAt?, hextent]
  · rw [read?, read?, hbytes]
  · rw [functionCode, functionCode, hbytes]
    cases hr : i.rva? a with
    | none =>
      rw [bytesFrom?, hr]
      rfl
    | some r =>
      rw [codeLength_eq hr, codeLength_eq (h ▸ hr), hextent]
      cases i.bytesFrom? a <;> rfl

/-! ## Files and memory -/

/-- The machine and the optional header of a file are for addresses of the same width. -/
def IsConsistent (h : Header) (o : OptionalHeader) : Prop :=
  (h.machine = machine64 ∧ o.magic = magic64) ∨ (h.machine = machine32 ∧ o.magic = magic32)

theorem IsConsistent.machineBitness_eq {h : Header} (hconsistent : IsConsistent h o) :
    machineBitness h.machine = .ok (fileBitness o) := by
  rcases hconsistent with ⟨hmachine, hmagic⟩ | ⟨hmachine, hmagic⟩ <;>
    rw [machineBitness, fileBitness, hmachine, hmagic] <;> rfl

/-- The headers of a file are found again where it is mapped: they lie in what is mapped of them and in the page that
is read for headers, and no section is mapped over them. -/
def KeepsHeaders (file : Bytes) (start : Nat) (o : OptionalHeader) (sections : List Section) : Prop :=
  ∀ j, IsHeaderByte start o j →
    j < min (min o.sizeOfHeaders file.size) (min o.sizeOfImage headerBytes) ∧ ∀ s ∈ sections, ¬ Maps file s j

theorem KeepsHeaders.copies_mapFile {sections : List Section} (h : KeepsHeaders file start o sections) :
    Copies (IsHeaderByte start o) file (mapFile file o sections) := by
  intro j hj
  obtain ⟨hlt, hsections⟩ := h j hj
  have hfile : j < file.size := by omega
  refine ⟨file[j], getElem?_pos file j hfile, ?_⟩
  rw [getElem?_mapFile (by omega), mappedByte?, lastMapping?_eq_none_iff.2 hsections]
  exact (if_pos (by omega)).trans (getElem?_pos file j hfile)

theorem ofView_of_holds (hread : PortableExecutable.read file = .ok f) (ho : f.header.optional = some o)
    (hstart : file.number? 0x3c 4 = some start) (hconsistent : IsConsistent f.header o)
    (hkept : KeepsHeaders file start o f.sections) (hv : v.Holds base (mapFile file o f.sections)) :
    (ofView v base).result = .ok ((ofBytes base (fileBitness o) (mapFile file o f.sections)).withExtents
      (findExtents (fileBitness o) (mapFile file o f.sections) (o.directory? exceptionIndex)).2) := by
  obtain ⟨headers, hheaders, hsize, hbytes⟩ := hv.read 1 headerBytes
  have hcopy : Copies (IsHeaderByte start o) file headers := by
    intro j hj
    obtain ⟨hlt, -⟩ := hkept j hj
    obtain ⟨byte, hfile, hmapped⟩ := hkept.copies_mapFile j hj
    exact ⟨byte, hfile, (hbytes j (by omega) (by rw [size_mapFile]; omega)).trans hmapped⟩
  have hheader := hcopy.readHeader_eq (readHeader_of_read hread) ho hstart
  have hdata := hv.read_size 2
  rw [size_mapFile] at hdata
  simp [ofView, hheaders, hheader, hconsistent.machineBitness_eq, ho, hdata, Except.mapError, Except.bind,
    Logged.require]

/-- **A file and its mapped image are the same.** If the headers of a file are for one width of addresses and are
found again where the file is mapped, then from any view that holds the mapped bytes at any base the same image is
read, at that base; so lookups at the same relative address answer the same. -/
theorem ofView_ofFile (hread : PortableExecutable.read file = .ok f) (ho : f.header.optional = some o)
    (hstart : file.number? 0x3c 4 = some start) (hconsistent : IsConsistent f.header o)
    (hkept : KeepsHeaders file start o f.sections) :
    ∃ i, (ofFile file).result = .ok i ∧ ∀ v base, v.Holds base i.data →
      (ofView v base).result = .ok (i.movedTo base) ∧
        ∀ a a', i.rva? a = (i.movedTo base).rva? a' → AnswersAlike i (i.movedTo base) a a' :=
  ⟨_, result_ofFile hread ho, fun _ _ hv =>
    ⟨ofView_of_holds hread ho hstart hconsistent hkept hv, fun _ _ => answersAlike_movedTo⟩⟩

/-- A file with unwind data that is mapped right behind the headers, read at a kernel address. -/
theorem ofView_ofFile_kernel :
    let sections : List Section := [⟨0, 0x110, 12, 0x110⟩]
    let file := plainFile 0x120 0x110 ⟨0x110, 12⟩ sections
      (littleEndian 4 0x10 ++ littleEndian 4 0x20 ++ littleEndian 4 0)
    let o : OptionalHeader := ⟨magic64, 0x140000000, 0x200, 0x120, 0x110, [none, none, none, some ⟨0x110, 12⟩]⟩
    let f : File := ⟨⟨machine64, 1, 0xe8, 0, some o⟩, sections, []⟩
    PortableExecutable.read file = .ok f ∧ file.number? 0x3c 4 = some 0x40 ∧ IsConsistent f.header o ∧
    KeepsHeaders file 0x40 o sections ∧
    ∃ i v i', (ofFile file).result = .ok i ∧ i.rva? 0x140000018 = some 0x18 ∧ v.Holds 0xfffff80000000000 i.data ∧
      (ofView v 0xfffff80000000000).result = .ok i' ∧ AnswersAlike i i' 0x140000018 0xfffff80000000018 := by
  intro sections file o f
  have hread : PortableExecutable.read file = .ok f := by decide +kernel
  have hstart : file.number? 0x3c 4 = some 0x40 := by decide +kernel
  have hconsistent : IsConsistent f.header o := .inl ⟨rfl, rfl⟩
  have hkept : KeepsHeaders file 0x40 o sections := by
    intro j hj
    have hlt : j < 0xe8 := by
      have hlength : o.length = 0x90 := rfl
      unfold IsHeaderByte at hj
      omega
    have hsize : file.size = 0x11c := by decide +kernel
    refine ⟨?_, ?_⟩
    · rw [hsize]
      show j < min (min 0x110 0x11c) (min 0x120 0x1000)
      omega
    · intro s hs hmaps
      obtain rfl := List.mem_singleton.1 hs
      have hrva : 0x110 ≤ j := hmaps.2.1
      omega
  obtain ⟨i, hi, hview⟩ := ofView_ofFile hread rfl hstart hconsistent hkept
  have himage := Except.ok.inj (hi.symm.trans (result_ofFile hread rfl))
  have hsize : i.size = 0x120 := by
    rw [himage, size_withExtents, size_ofBytes, size_mapFile]
  have hholds := MemoryView.holds_ofRegions 0xfffff80000000000 i.data (by rw [← size, hsize]; decide)
  obtain ⟨hsame, halike⟩ := hview _ _ hholds
  have hrva : i.rva? 0x140000018 = some 0x18 := by
    rw [rva?_eq_some_iff, hsize, himage]
    decide
  have hrva' : (i.movedTo 0xfffff80000000000).rva? 0xfffff80000000018 = some 0x18 := by
    rw [rva?_eq_some_iff, size_movedTo, hsize]
    show UInt64.toNat 0xfffff80000000018 = UInt64.toNat 0xfffff80000000000 + 0x18 ∧ 0x18 < 0x120
    decide
  exact ⟨hread, hstart, hconsistent, hkept, i, _, _, hi, hrva, hholds, hsame, halike _ _ (hrva.trans hrva'.symm)⟩

end Image

end KernelOffsets
