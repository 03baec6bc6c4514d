/-
A portable executable as a whole. Besides the headers, sections and exports
that are used, the directories of imports, debug data and unwind data have to
be in order: each must lie in a section and in the file.
-/
import KernelOffsets.PortableExecutable.Export

namespace KernelOffsets.PortableExecutable

/-- A file that was read. -/
structure File where
  header : Header
  sections : List Section
  exports : List Export
  deriving DecidableEq, Repr

/-- A table of `bytes` bytes that has to be covered by a section and to lie in the file. -/
def checkTable (file : Bytes) (toOffset : Nat → Option Nat) (bytes : Nat) (d : Directory) :
    Except FileFault Unit :=
  match toOffset d.rva with
  | none => .error .malformed
  | some offset => if offset + bytes ≤ file.size then .ok () else .error .unreadable

/-- The size of an entry of the unwind data. -/
def unwindBytes : Nat := 12

/-- The unwind data has to consist of whole entries at an offset that is a multiple of four. -/
def checkUnwind (toOffset : Nat → Option Nat) (d : Directory) : Except FileFault Unit :=
  if d.size % unwindBytes ≠ 0 then .error .unreadable
  else match toOffset d.rva with
    | none => .error .malformed
    | some offset => if offset % 4 = 0 then .ok () else .error .unreadable

/-- Checks a directory if it is there. -/
def checkPresent (d : Option Directory) (check : Directory → Except FileFault Unit) :
    Except FileFault Unit :=
  match d with
  | some d => check d
  | none => .ok ()

/-- The sizes of the first entry of the imports and of the debug data. -/
def importBytes : Nat := 20
def debugBytes : Nat := 28

/-- Reads a file. -/
def read (file : Bytes) : Except FileFault File := do
  let header ← readHeader file
  let sections ← readSections file header
  match header.optional with
  | none => return { header, sections, exports := [] }
  | some o =>
    let toOffset := offset? sections o.fileAlignment
    let exports := match o.directory? exportIndex with
      | some d => exportsOf file toOffset d
      | none => []
    checkPresent (o.directory? importIndex) (checkTable file toOffset importBytes)
    checkPresent (o.directory? debugIndex) (checkTable file toOffset debugBytes)
    if header.machine = machine64 then
      checkPresent (o.directory? exceptionIndex) (checkUnwind toOffset)
    return { header, sections, exports }

/-- The preferred base address; zero without an optional header. -/
def File.imageBase (f : File) : Nat :=
  match f.header.optional with
  | some o => o.imageBase
  | none => 0

end KernelOffsets.PortableExecutable
