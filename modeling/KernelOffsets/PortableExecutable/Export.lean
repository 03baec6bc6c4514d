/-
Exported names. The export directory leads to three tables: pointers to
names, for each name the place of its address, and the addresses. A table is
read as far as the file goes. An address inside the directory is a text that
forwards to another module.
-/
import KernelOffsets.PortableExecutable.Section

namespace KernelOffsets.PortableExecutable

/-- An exported symbol; its name may be unreadable. -/
structure Export where
  name : Option String
  rva : Nat
  deriving DecidableEq, Repr

/-- What the directory says about the three tables. -/
structure ExportTables where
  addressCount : Nat
  nameCount : Nat
  addressesRva : Nat
  namesRva : Nat
  placesRva : Nat
  deriving DecidableEq, Repr

/-- The size of the export directory. -/
def exportDirectoryBytes : Nat := 40

/-- Reads the export directory at an offset. -/
def exportTables? (file : Bytes) (offset : Nat) : Option ExportTables := do
  if file.size < offset + exportDirectoryBytes then none
  else
    return {
      addressCount := ← file.number? (offset + 20) 4
      nameCount := ← file.number? (offset + 24) 4
      addressesRva := ← file.number? (offset + 28) 4
      namesRva := ← file.number? (offset + 32) 4
      placesRva := ← file.number? (offset + 36) 4 }

/-- The entries of a table as far as they lie in the file. -/
def entries (file : Bytes) (bytes : Nat) : Nat → Nat → List Nat
  | 0, _ => []
  | count + 1, offset =>
    match file.number? offset bytes with
    | some value => value :: entries file bytes count (offset + bytes)
    | none => []

/-- A table at a relative address; it is empty if no section covers the address. -/
def table (file : Bytes) (toOffset : Nat → Option Nat) (rva bytes count : Nat) : List Nat :=
  match toOffset rva with
  | some offset => entries file bytes count offset
  | none => []

/-- Whether a text forwards to a symbol: behind the first dot it names a symbol or, after `#`, a number. -/
def forwards (text : String) : Bool :=
  match (text.toUTF8.toList.dropWhile (· != 0x2e)).drop 1 with
  | [] => false
  | 0x23 :: digits =>
    match decimal? digits with
    | some n => n < UInt32.size
    | none => false
  | _ => true

/-- The exports that a directory leads to. -/
def exportsOf (file : Bytes) (toOffset : Nat → Option Nat) (d : Directory) : List Export :=
  match (toOffset d.rva).bind (exportTables? file) with
  | none => []
  | some t =>
    let names := table file toOffset t.namesRva 4 t.nameCount
    let places := table file toOffset t.placesRva 2 t.nameCount
    let addresses := (table file toOffset t.addressesRva 4 t.addressCount).toArray
    (names.zip places).filterMap fun (nameRva, place) => do
      let rva ← addresses[place]?
      let offset ← toOffset rva
      let forwarded := d.rva ≤ rva && rva < d.rva + d.size
      let name := (toOffset nameRva).bind file.text?
      if forwarded && !((file.text? offset).map forwards).getD false then none
      else some { name, rva }

end KernelOffsets.PortableExecutable
