/-
The section table: which part of the file is mapped where. A section whose
name is too long for its eight bytes has its name among the texts behind the
symbols, and that text has to be readable.
-/
import KernelOffsets.PortableExecutable.Header

namespace KernelOffsets.PortableExecutable

/-- A section, with its extent in the image and in the file. -/
structure Section where
  virtualSize : Nat
  rva : Nat
  rawSize : Nat
  rawAt : Nat
  deriving DecidableEq, Repr

/-! ## Long names -/

/-- The value of a decimal digit. -/
def decimalDigit? (b : UInt8) : Option Nat :=
  if 0x30 ≤ b ∧ b ≤ 0x39 then some (b.toNat - 0x30) else none

/-- The value of a digit to the base 64. -/
def base64Digit? (b : UInt8) : Option Nat :=
  if 0x41 ≤ b ∧ b ≤ 0x5a then some (b.toNat - 0x41)
  else if 0x61 ≤ b ∧ b ≤ 0x7a then some (b.toNat - 0x61 + 26)
  else if 0x30 ≤ b ∧ b ≤ 0x39 then some (b.toNat - 0x30 + 52)
  else if b = 0x2b then some 62
  else if b = 0x2f then some 63
  else none

/-- The number written with the digits of a base. -/
def digits? (base : Nat) (digit? : UInt8 → Option Nat) (bytes : List UInt8) : Option Nat :=
  bytes.foldlM (fun n b => (digit? b).map (n * base + ·)) 0

/-- A decimal number, which may have a plus sign. -/
def decimal? (bytes : List UInt8) : Option Nat :=
  let unsigned := match bytes with
    | 0x2b :: rest => rest
    | _ => bytes
  if unsigned.isEmpty then none else digits? 10 decimalDigit? unsigned

/-- The offset of the text that a short name refers to, behind the start of the texts. -/
def longNameOffset? (name : List UInt8) : Except FileFault (Option Nat) :=
  let readable (bytes : List UInt8) (number? : List UInt8 → Option Nat) : Except FileFault (Option Nat) :=
    if (String.fromUTF8? ⟨bytes.toArray⟩).isNone then .error .unreadable
    else match number? bytes with
      | some n => .ok (some n)
      | none => .error .malformed
  match name with
  | 0x2f :: 0x2f :: rest => readable (rest.takeWhile (· != 0)) (digits? 64 base64Digit?)
  | 0x2f :: rest => readable (rest.takeWhile (· != 0)) decimal?
  | _ => .ok none

/-! ## The table -/

/-- The size of an entry of the section table. -/
def sectionBytes : Nat := 40

/-- Reads an entry of the section table. -/
def readSection (file : Bytes) (stringsAt offset : Nat) : Except FileFault Section := do
  if file.size < offset + sectionBytes then .error .unreadable
  let virtualSize ← require file (offset + 8) 4 .unreadable
  let rva ← require file (offset + 12) 4 .unreadable
  let rawSize ← require file (offset + 16) 4 .unreadable
  let rawAt ← require file (offset + 20) 4 .unreadable
  match ← longNameOffset? (file.extract offset (offset + 8)).toList with
  | some n => if (file.text? (stringsAt + n)).isNone then .error .unreadable
  | none => pure ()
  return { virtualSize, rva, rawSize, rawAt }

/-- Reads the section table. -/
def readSections (file : Bytes) (h : Header) : Except FileFault (List Section) :=
  (List.range h.sectionCount).mapM fun i => readSection file h.stringsAt (h.sectionsAt + sectionBytes * i)

/-! ## From the image to the file -/

/-- A size filled up to whole pages. -/
def wholePages (n : Nat) : Nat := (n + 0xfff) / 0x1000 * 0x1000

/-- An offset filled up to the file alignment, which is meant to be a power of two. -/
def alignedUp (n alignment : Nat) : Nat :=
  ((n + alignment - 1).toUInt64 &&& ~~~ (alignment - 1).toUInt64).toNat

namespace Section

/-- The number of bytes behind the start of a section for which the file is asked. -/
def readSize (s : Section) (alignment : Nat) : Nat :=
  let filed := min (alignedUp (s.rawAt + s.rawSize) alignment) (wholePages s.rawSize)
  if s.virtualSize = 0 then filed else min filed (wholePages s.virtualSize)

/-- Whether the file is asked for a relative address through this section. -/
def covers (s : Section) (alignment rva : Nat) : Bool :=
  s.rva ≤ rva && rva < s.rva + s.readSize alignment

end Section

/-- The file offset of a relative address, by the first section that covers it. Sections start at whole disk blocks. -/
def offset? (sections : List Section) (alignment rva : Nat) : Option Nat :=
  (sections.find? (·.covers alignment rva)).map fun s => rva - s.rva + s.rawAt / 0x200 * 0x200

end KernelOffsets.PortableExecutable
