/-
Function extents from unwind data: a table of records in the mapped image,
each with the relative start and end of a function. Only 64-bit images have
one.
-/
import KernelOffsets.Image.Basic
import KernelOffsets.Logged
import KernelOffsets.PortableExecutable.File

namespace KernelOffsets.Image

open PortableExecutable (Bytes Directory unwindBytes)

/-- The extent that a record of the unwind data describes. -/
def extentAt? (data : Bytes) (offset : Nat) : Option Extent := do
  return ⟨(← data.number? offset 4).toUInt32, (← data.number? (offset + 4) 4).toUInt32⟩

/-- The extents of a table of unwind data; `none` if the table is not inside the image. -/
def unwindExtents? (data : Bytes) (d : Directory) : Option (List Extent) :=
  if d.rva + d.size ≤ data.size then
    some ((List.range (d.size / unwindBytes)).filterMap fun i => extentAt? data (d.rva + unwindBytes * i))
  else none

/-- The extents of an image, with what is to report about them. -/
def findExtents (b : Bitness) (data : Bytes) (d : Option Directory) : List Event × List Extent :=
  match b, d with
  | .x64, some d =>
    match unwindExtents? data d with
    | some extents => ([], extents)
    | none => ([.extentsOutside d.rva d.size], [])
  | _, _ => ([], [])

/-- The image of mapped bytes, with the extents that its unwind data gives. -/
def ofMapped (base : UInt64) (b : Bitness) (data : Bytes) (d : Option Directory) : Logged Image := do
  let (events, extents) := findExtents b data d
  Logged.report events
  Logged.note (.extentsFound extents.length)
  return (Image.ofBytes base b data).withExtents extents

@[simp] theorem result_ofMapped (base : UInt64) (b : Bitness) (data : Bytes) (d : Option Directory) :
    (ofMapped base b data d).result = .ok ((ofBytes base b data).withExtents (findExtents b data d).2) := by
  simp [ofMapped, Except.bind]

end KernelOffsets.Image
