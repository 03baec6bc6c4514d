/-
The headers at the front of a portable executable: where they are, which
machine the code is for, and the optional header with its data directories.
-/
import KernelOffsets.Failure
import KernelOffsets.PortableExecutable.Bytes

namespace KernelOffsets.PortableExecutable

/-- The place of a table in the mapped image. -/
structure Directory where
  rva : Nat
  size : Nat
  deriving DecidableEq, Repr

/-- The part of the headers that describes the mapped image. -/
structure OptionalHeader where
  /-- The number that the header starts with. -/
  magic : Nat
  imageBase : Nat
  fileAlignment : Nat
  sizeOfImage : Nat
  sizeOfHeaders : Nat
  /-- A directory that is all zero is absent. -/
  directories : List (Option Directory)
  deriving DecidableEq, Repr

/-- The headers before the section table. -/
structure Header where
  machine : Nat
  sectionCount : Nat
  /-- The offset of the section table. -/
  sectionsAt : Nat
  /-- The offset of the texts for long section names. -/
  stringsAt : Nat
  optional : Option OptionalHeader
  deriving DecidableEq, Repr

/-- The numbers that an optional header can start with: for 32-bit and for 64-bit addresses. -/
def magic32 : Nat := 0x10b
def magic64 : Nat := 0x20b

/-- The machines that kernel images are built for. -/
def machine32 : Nat := 0x14c
def machine64 : Nat := 0x8664

/-- The largest number of data directories. -/
def maxDirectories : Nat := 16

/-- A number that has to lie in the file. -/
def require (file : Bytes) (offset n : Nat) (fault : FileFault) : Except FileFault Nat :=
  match file.number? offset n with
  | some value => .ok value
  | none => .error fault

/-- Reads the directory at an offset. -/
def readDirectory (file : Bytes) (offset : Nat) : Except FileFault (Option Directory) := do
  let rva ← require file offset 4 .unreadable
  let size ← require file (offset + 4) 4 .unreadable
  return if rva = 0 ∧ size = 0 then none else some ⟨rva, size⟩

/-- Where the fields of an optional header are that depend on the width of addresses. -/
structure OptionalShape where
  imageBaseAt : Nat
  imageBaseBytes : Nat
  directoryCountAt : Nat

/-- The shape of an optional header with 32-bit addresses. -/
def shape32 : OptionalShape := ⟨28, 4, 92⟩

/-- The shape of an optional header with 64-bit addresses. -/
def shape64 : OptionalShape := ⟨24, 8, 108⟩

/-- The shape of an optional header that starts with a number. -/
def shapeOf (magic : Nat) : Except FileFault OptionalShape :=
  if magic = magic32 then .ok shape32
  else if magic = magic64 then .ok shape64
  else .error (.badMagic magic.toUInt16)

/-- Reads a number of directories, one after the other. -/
def readDirectories (file : Bytes) (offset count : Nat) : Except FileFault (List (Option Directory)) :=
  if maxDirectories < count then .error .malformed
  else (List.range count).mapM fun i => readDirectory file (offset + 8 * i)

/-- Reads the optional header at an offset. Its fixed part is as long as its last field, the directory count, says. -/
def readOptional (file : Bytes) (offset : Nat) : Except FileFault OptionalHeader := do
  let magic ← require file offset 2 .unreadable
  let shape ← shapeOf magic
  let count ← require file (offset + shape.directoryCountAt) 4 .unreadable
  let imageBase ← require file (offset + shape.imageBaseAt) shape.imageBaseBytes .unreadable
  let fileAlignment ← require file (offset + 36) 4 .unreadable
  let sizeOfImage ← require file (offset + 56) 4 .unreadable
  let sizeOfHeaders ← require file (offset + 60) 4 .unreadable
  let directories ← readDirectories file (offset + shape.directoryCountAt + 4) count
  return { magic, imageBase, fileAlignment, sizeOfImage, sizeOfHeaders, directories }

/-- Reads the optional header at an offset if it has a size. -/
def readSized (file : Bytes) (offset size : Nat) : Except FileFault (Option OptionalHeader) :=
  if size = 0 then .ok none else (readOptional file offset).map some

/-- Reads all headers before the section table. The two signatures have to be there, but are not compared. -/
def readHeader (file : Bytes) : Except FileFault Header := do
  let _ ← require file 0 2 .malformed
  let start ← require file 0x3c 4 .malformed
  let _ ← require file start 4 .malformed
  let machine ← require file (start + 4) 2 .unreadable
  let sectionCount ← require file (start + 6) 2 .unreadable
  let symbolsAt ← require file (start + 12) 4 .unreadable
  let symbolCount ← require file (start + 16) 4 .unreadable
  let optionalSize ← require file (start + 20) 2 .unreadable
  let _ ← require file (start + 22) 2 .unreadable
  let optional ← readSized file (start + 24) optionalSize
  return {
    machine, sectionCount, optional
    sectionsAt := start + 24 + optionalSize
    stringsAt := symbolsAt + 18 * symbolCount }

/-- The directory of an index. -/
def OptionalHeader.directory? (o : OptionalHeader) (index : Nat) : Option Directory :=
  (o.directories[index]?).join

/-- The directories that are read here. -/
def exportIndex : Nat := 0
def importIndex : Nat := 1
def exceptionIndex : Nat := 3
def debugIndex : Nat := 6

end KernelOffsets.PortableExecutable
