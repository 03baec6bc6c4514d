/-
Which mode an image gets. A file is loaded in the mode of its optional header,
and a view of memory in the mode of the machine in its headers; a file may have
any machine. So both make the same of the same headers exactly if the two
fields are for addresses of the same width (`Image.ofFile_fits_iff`), and a file
for a foreign machine is loaded as code for this one
(`Image.not_fits_foreign`).
-/
import KernelOffsets.Proofs.OverlappingFunctions

namespace KernelOffsets

namespace PortableExecutable

variable {file : Bytes} {offset size : Nat} {h : Header} {o : OptionalHeader}

theorem magic_of_readOptional (hread : readOptional file offset = .ok o) : o.magic = magic32 ∨ o.magic = magic64 := by
  simp only [readOptional, bind_eq_ok_iff] at hread
  obtain ⟨magic, -, shape, hshape, count, -, base, -, alignment, -, image, -, headers, -, directories, -, heq⟩ := hread
  obtain rfl := (Except.ok.inj heq).symm
  exact (shapeOf_cases hshape).imp And.left And.left

theorem readOptional_of_readSized (hread : readSized file offset size = .ok (some o)) :
    readOptional file offset = .ok o := by
  rw [readSized] at hread
  split at hread
  · cases hread
  · cases hoptional : readOptional file offset with
    | error e =>
      rw [hoptional] at hread
      cases hread
    | ok o' =>
      rw [hoptional] at hread
      rw [Option.some.inj (Except.ok.inj hread)]

/-- An optional header that is read starts with one of the known numbers. -/
theorem magic_of_readHeader (hread : readHeader file = .ok h) (ho : h.optional = some o) :
    o.magic = magic32 ∨ o.magic = magic64 := by
  simp only [readHeader, bind_eq_ok_iff] at hread
  obtain ⟨-, -, start, -, -, -, machine, -, sections, -, symbols, -, symbolCount, -, size, -, -, -, optional, hoptional,
    heq⟩ := hread
  obtain rfl := (Except.ok.inj heq).symm
  obtain rfl : optional = some o := ho
  exact magic_of_readOptional (readOptional_of_readSized hoptional)

end PortableExecutable

namespace Image

open PortableExecutable

variable {i : Image} {base : UInt64} {file headers : Bytes} {f : File} {h : Header} {o : OptionalHeader}
  {v : MemoryView} {b : Bitness} {machine start : Nat}

/-- The machine is a known one, and the mode is its mode. -/
def Fits (machine : Nat) (b : Bitness) : Prop :=
  (machine = machine64 ∧ b = .x64) ∨ (machine = machine32 ∧ b = .x86)

theorem machineBitness_eq_ok_iff : machineBitness machine = .ok b ↔ Fits machine b := by
  unfold machineBitness Fits
  split
  · next h64 => cases b <;> simp [h64, machine64, machine32]
  · next h64 =>
    split
    · next h32 => cases b <;> simp [h32, machine64, machine32]
    · next h32 => simp [h64, h32]

theorem machineBitness_of_foreign (hforeign : ∀ b, ¬ Fits machine b) :
    machineBitness machine = .error (.invalidImage ("unsupported machine " ++ Text.hex0x machine)) := by
  rw [machineBitness, if_neg fun h => hforeign .x64 (.inl ⟨h, rfl⟩), if_neg fun h => hforeign .x86 (.inr ⟨h, rfl⟩)]

/-- The mode of an optional header is the one of the machine if both are for the same width of addresses. -/
theorem fits_fileBitness_iff (hmagic : o.magic = magic32 ∨ o.magic = magic64) :
    Fits h.machine (fileBitness o) ↔ IsConsistent h o := by
  unfold Fits fileBitness IsConsistent
  rcases hmagic with hmagic | hmagic <;> simp [hmagic, magic32, magic64]

theorem bitness_of_ofFile (hfile : (ofFile file).result = .ok i) :
    ∃ f o, PortableExecutable.read file = .ok f ∧ f.header.optional = some o ∧ i.bitness = fileBitness o := by
  simp only [ofFile, result_bind_eq_ok_iff, Logged.result_ofExcept, mapError_eq_ok_iff, result_require_eq_ok_iff,
    result_ofMapped, Except.ok.injEq] at hfile
  obtain ⟨f, hread, o, ho, -, -, rfl⟩ := hfile
  exact ⟨f, o, hread, ho, rfl⟩

/-- What a view is loaded as, by the machine in its headers. -/
theorem ofView_of_headers (hheaders : v.read 1 base headerBytes = .ok headers) (hread : readHeader headers = .ok h)
    (ho : h.optional = some o) (hfails : v.fails 2 = false) :
    (∃ i b, machineBitness h.machine = .ok b ∧ (ofView v base).result = .ok i ∧ i.bitness = b) ∨
      (∃ e, machineBitness h.machine = .error e ∧ (ofView v base).result = .error e) := by
  obtain ⟨data, hdata⟩ : ∃ data, v.read 2 base o.sizeOfImage = .ok data := ⟨_, if_neg (by simp [hfails])⟩
  cases hmachine : machineBitness h.machine with
  | error e =>
    right
    refine ⟨e, rfl, ?_⟩
    simp [ofView, hheaders, hread, hmachine, Except.mapError, Except.bind]
  | ok b =>
    left
    refine ⟨(ofBytes base b data).withExtents (findExtents b data (o.directory? exceptionIndex)).2, b, rfl, ?_, rfl⟩
    simp [ofView, hheaders, hread, hmachine, ho, hdata, Except.mapError, Except.bind, Logged.require]

/-- The headers of a file are found in memory that holds it, if they lie in the page that is read for headers. -/
theorem exists_headers_of_holds (hread : readHeader file = .ok h) (ho : h.optional = some o)
    (hstart : file.number? 0x3c 4 = some start)
    (hwithin : ∀ j, IsHeaderByte start o j → j < min file.size headerBytes) (hv : v.Holds base file) :
    ∃ headers, v.read 1 base headerBytes = .ok headers ∧ readHeader headers = .ok h := by
  obtain ⟨headers, hheaders, -, hbytes⟩ := hv.read 1 headerBytes
  refine ⟨headers, hheaders, Copies.readHeader_eq (fun j hj => ?_) hread ho hstart⟩
  have hlt := hwithin j hj
  have hfile : j < file.size := by omega
  have hbyte := getElem?_pos file j hfile
  exact ⟨file[j], hbyte, (hbytes j (by omega) hfile).trans hbyte⟩

/--
**The mode of a file is the one of its machine** exactly if the machine and the
optional header are for addresses of the same width, and exactly then the same
headers in memory are loaded in this mode too. For a machine that is not known
memory is refused.
-/
theorem ofFile_fits_iff (hfile : (ofFile file).result = .ok i) :
    ∃ f o, PortableExecutable.read file = .ok f ∧ f.header.optional = some o ∧ i.bitness = fileBitness o ∧
      (Fits f.header.machine i.bitness ↔ IsConsistent f.header o) ∧
      ∀ v base headers, v.read 1 base headerBytes = .ok headers → readHeader headers = .ok f.header →
        v.fails 2 = false →
        ((∃ i', (ofView v base).result = .ok i' ∧ i'.bitness = i.bitness) ↔ IsConsistent f.header o) ∧
        ((∀ b, ¬ Fits f.header.machine b) → (ofView v base).result =
          .error (.invalidImage ("unsupported machine " ++ Text.hex0x f.header.machine))) := by
  obtain ⟨f, o, hread, ho, hbitness⟩ := bitness_of_ofFile hfile
  have hmagic := magic_of_readHeader (readHeader_of_read hread) ho
  have hfits : Fits f.header.machine i.bitness ↔ IsConsistent f.header o := by
    rw [hbitness]
    exact fits_fileBitness_iff hmagic
  refine ⟨f, o, hread, ho, hbitness, hfits, fun v base headers hheaders hheader hfails => ⟨?_, fun hforeign => ?_⟩⟩
  · rw [← hfits, ← machineBitness_eq_ok_iff]
    rcases ofView_of_headers hheaders hheader ho hfails with ⟨i', b, hmachine, hview, rfl⟩ | ⟨e, hmachine, hview⟩
    · simp [hview, hmachine]
    · simp [hview, hmachine]
  · rcases ofView_of_headers hheaders hheader ho hfails with ⟨i', b, hmachine, -, -⟩ | ⟨e, hmachine, hview⟩
    · exact absurd (machineBitness_eq_ok_iff.1 hmachine) (hforeign b)
    · rw [hview, ← Except.error.inj (hmachine.symm.trans (machineBitness_of_foreign hforeign))]

/-- A file of headers only, with an optional header for 64-bit addresses and any machine. -/
def headersFor (machine : Nat) : Bytes :=
  overlay (plainFile 0x100 0xe8 ⟨0, 0⟩ [] []) 0x44 (littleEndian 2 machine)

/-- The optional header of such a file. -/
def wideHeader : OptionalHeader := ⟨magic64, 0x140000000, 0x200, 0x100, 0xe8, [none, none, none, none]⟩

/-- What is read from such a file. -/
def readFor (machine : Nat) : File := ⟨⟨machine, 0, 0xe8, 0, some wideHeader⟩, [], []⟩

/-- Memory that holds such a file. -/
def memoryFor (machine : Nat) : MemoryView := .ofRegions [(0x10000, headersFor machine)] fun _ => false

theorem size_headersFor (machine : Nat) : (headersFor machine).size = 0xe8 := by
  rw [headersFor, size_overlay]
  decide +kernel

theorem exists_headers_memoryFor (hread : PortableExecutable.read (headersFor machine) = .ok (readFor machine))
    (hstart : (headersFor machine).number? 0x3c 4 = some 0x40) :
    ∃ headers, (memoryFor machine).read 1 0x10000 headerBytes = .ok headers ∧
      readHeader headers = .ok (readFor machine).header := by
  have hholds := MemoryView.holds_ofRegions 0x10000 (headersFor machine) (by rw [size_headersFor]; decide)
  refine exists_headers_of_holds (readHeader_of_read hread) rfl hstart (fun j hj => ?_) hholds
  have hlength : wideHeader.length = 0x90 := rfl
  unfold IsHeaderByte at hj
  rw [size_headersFor]
  show j < min 0xe8 0x1000
  omega

/-- Headers for the known machine of their width are loaded alike, and for an unknown machine memory is refused. -/
theorem ofFile_fits_iff_known :
    (∃ i i', (ofFile (headersFor machine64)).result = .ok i ∧ Fits machine64 i.bitness ∧
      (ofView (memoryFor machine64) 0x10000).result = .ok i' ∧ i'.bitness = i.bitness) ∧
    (∃ i, (ofFile (headersFor 0x1c4)).result = .ok i) ∧
    (ofView (memoryFor 0x1c4) 0x10000).result = .error (.invalidImage "unsupported machine 0x1c4") := by
  have hknown : PortableExecutable.read (headersFor machine64) = .ok (readFor machine64) := by decide +kernel
  have hunknown : PortableExecutable.read (headersFor 0x1c4) = .ok (readFor 0x1c4) := by decide +kernel
  refine ⟨?_, ⟨_, result_ofFile hunknown rfl⟩, ?_⟩
  · obtain ⟨f, o, hread, ho, -, hfits, hmemory⟩ := ofFile_fits_iff (result_ofFile hknown rfl)
    obtain rfl := Except.ok.inj (hknown.symm.trans hread)
    obtain rfl := Option.some.inj ho
    obtain ⟨headers, hheaders, hheader⟩ := exists_headers_memoryFor hknown (by decide +kernel)
    have hconsistent : IsConsistent (readFor machine64).header wideHeader := .inl ⟨rfl, rfl⟩
    obtain ⟨i', hview, hsame⟩ := (hmemory _ _ _ hheaders hheader rfl).1.2 hconsistent
    exact ⟨_, i', result_ofFile hknown rfl, hfits.2 hconsistent, hview, hsame⟩
  · obtain ⟨f, o, hread, -, -, -, hmemory⟩ := ofFile_fits_iff (result_ofFile hunknown rfl)
    obtain rfl := Except.ok.inj (hunknown.symm.trans hread)
    obtain ⟨headers, hheaders, hheader⟩ := exists_headers_memoryFor hunknown (by decide +kernel)
    refine (hmemory _ _ _ hheaders hheader rfl).2 fun b hfits => ?_
    rcases hfits with ⟨hmachine, -⟩ | ⟨hmachine, -⟩ <;> exact absurd hmachine (by decide)

/-- A file for another machine is loaded as 64-bit code, though the same headers are refused in memory. -/
theorem not_fits_foreign :
    PortableExecutable.read (headersFor 0xaa64) = .ok (readFor 0xaa64) ∧ (readFor 0xaa64).header.machine = 0xaa64 ∧
    (∃ i, (ofFile (headersFor 0xaa64)).result = .ok i ∧ i.bitness = .x64 ∧ ∀ b, ¬ Fits 0xaa64 b) ∧
    (ofView (memoryFor 0xaa64) 0x10000).result = .error (.invalidImage "unsupported machine 0xaa64") := by
  have hread : PortableExecutable.read (headersFor 0xaa64) = .ok (readFor 0xaa64) := by decide +kernel
  have hforeign : ∀ b, ¬ Fits 0xaa64 b := by
    rintro b (⟨hmachine, -⟩ | ⟨hmachine, -⟩) <;> exact absurd hmachine (by decide)
  refine ⟨hread, rfl, ⟨_, result_ofFile hread rfl, rfl, hforeign⟩, ?_⟩
  obtain ⟨headers, hheaders, hheader⟩ := exists_headers_memoryFor hread (by decide +kernel)
  rcases ofView_of_headers hheaders hheader rfl rfl with ⟨i, b, hmachine, -⟩ | ⟨e, hmachine, hview⟩
  · exact absurd (machineBitness_eq_ok_iff.1 hmachine) (hforeign b)
  · rw [hview, Except.error.inj (hmachine.symm.trans (machineBitness_of_foreign hforeign))]
    rfl

end Image

end KernelOffsets
