/-
A kernel image: its bytes as the loader lays them out from a base address on,
and the extents of those functions that have unwind data. Addresses are
absolute; the distance from the base is the relative address.
-/
import KernelOffsets.Bitness

namespace KernelOffsets

/-- The relative addresses of one function, from its start up to its end. -/
structure Extent where
  start : UInt32
  stop : UInt32
  deriving DecidableEq, Repr

/-- Whether a relative address lies in an extent. -/
def Extent.contains (e : Extent) (rva : UInt32) : Bool :=
  e.start ≤ rva && rva < e.stop

/-- Where a start is among ascending starts: at an index, or missing, with the index at which it would stand. -/
inductive Position where
  | found (index : Nat)
  | missing (index : Nat)
  deriving DecidableEq, Repr

/-- Searches a start among extents in the order of their starts. -/
def searchStart (extents : List Extent) (rva : UInt32) : Position :=
  let index := extents.findIdx (rva ≤ ·.start)
  match extents[index]? with
  | some e => if e.start = rva then .found index else .missing index
  | none => .missing index

/-- The last extent that starts at or before a relative address, by a search of its start. -/
def preceding? (extents : List Extent) (rva : UInt32) : Option Extent :=
  match searchStart extents rva with
  | .found index => extents[index]?
  | .missing 0 => none
  | .missing (index + 1) => extents[index]?

/-- A kernel image as it lies in memory. -/
structure Image where
  base : UInt64
  bitness : Bitness
  data : Array UInt8
  /-- In the order of their starts. -/
  extents : List Extent
  deriving DecidableEq, Repr

namespace Image

/-- Bytes at a base address, without function extents. -/
def ofBytes (base : UInt64) (bitness : Bitness) (data : Array UInt8) : Image :=
  ⟨base, bitness, data, []⟩

/-- Replaces the function extents; empty ones are left out. -/
def withExtents (i : Image) (extents : List Extent) : Image :=
  { i with
    extents := (extents.filter fun e => e.start < e.stop).mergeSort fun a b => a.start ≤ b.start }

/-- The number of bytes. -/
def size (i : Image) : Nat := i.data.size

/-- The address after the last byte. -/
def stop (i : Image) : UInt64 := i.base + i.size.toUInt64

/-- The relative address of an address inside the image. -/
def rva? (i : Image) (address : UInt64) : Option Nat :=
  if i.base ≤ address ∧ (address - i.base).toNat < i.size then
    some (address - i.base).toNat
  else none

/-- Whether an address lies in the image. -/
def contains (i : Image) (address : UInt64) : Bool :=
  (i.rva? address).isSome

/-- The byte at an address. -/
def byte? (i : Image) (address : UInt64) : Option UInt8 :=
  (i.rva? address).bind (i.data[·]?)

/-- The bytes from an address up to the end of the image. -/
def bytesFrom? (i : Image) (address : UInt64) : Option (List UInt8) :=
  (i.rva? address).map fun rva => (i.data.extract rva i.size).toList

/-- Exactly `len` bytes from an address on, if the image has as many. -/
def read? (i : Image) (address : UInt64) (len : Nat) : Option (List UInt8) :=
  match i.bytesFrom? address with
  | some bytes => if len ≤ bytes.length then some (bytes.take len) else none
  | none => none

/-- The extent that covers an address: the preceding one, if it reaches that far. -/
def extent? (i : Image) (address : UInt64) : Option Extent :=
  match i.rva? address with
  | some rva => (preceding? i.extents rva.toUInt32).filter (·.contains rva.toUInt32)
  | none => none

/-- The addresses of the function that covers an address: its start and the address after its end. -/
def functionAt? (i : Image) (address : UInt64) : Option (UInt64 × UInt64) :=
  (i.extent? address).map fun e => (i.base + e.start.toUInt64, i.base + e.stop.toUInt64)

@[simp] theorem size_ofBytes (base : UInt64) (b : Bitness) (data : Array UInt8) :
    (ofBytes base b data).size = data.size := rfl

@[simp] theorem size_withExtents (i : Image) (extents : List Extent) : (i.withExtents extents).size = i.size := rfl

theorem rva?_lt {i : Image} {address : UInt64} {n : Nat} (h : i.rva? address = some n) : n < i.size := by
  unfold rva? at h
  split at h
  · cases h; rename_i c; exact c.2
  · cases h

theorem length_bytesFrom? {i : Image} {address : UInt64} {n : Nat} (h : i.rva? address = some n) :
    (i.bytesFrom? address).map List.length = some (i.size - n) := by
  simp [bytesFrom?, h, size]

end Image

end KernelOffsets
