/-
The memory of a machine: the bytes written so far, over a background that is
never changed. Besides the bytes it remembers at which addresses a whole base
relative pointer was spilled; any later write that touches one of its bytes
ends that. Addresses wrap around at the end of the address space.
-/
import KernelOffsets.Value
import KernelOffsets.Bitness
import Std.Data.HashMap
import Std.Data.HashSet

namespace KernelOffsets

/-- The written bytes and the spilled pointers of a machine. -/
structure Memory where
  bytes : Std.HashMap UInt64 UInt8
  /-- The addresses of spilled base relative pointers. -/
  slots : Std.HashSet UInt64

namespace Memory

/-- A memory to which nothing was written. -/
def empty : Memory := ⟨∅, ∅⟩

/-- The byte at an address: the one last written, or the one of the background. -/
def byteAt (m : Memory) (background : UInt64 → UInt8) (address : UInt64) : UInt8 :=
  (m.bytes[address]?).getD (background address)

/-- The word made of `n` bytes from an address on, the lowest byte first. -/
def wordAt (m : Memory) (b : Bitness) (background : UInt64 → UInt8) (address : UInt64) : Nat → UInt64
  | 0 => 0
  | n + 1 =>
    (m.byteAt background (address &&& b.addressMask)).toUInt64
      ||| (m.wordAt b background (address + 1) n <<< 8)

/-- Reads `size` bytes, of which a word holds eight. Only a whole spilled pointer is base relative. -/
def load (m : Memory) (b : Bitness) (background : UInt64 → UInt8) (address : UInt64) (size : Nat) : Value where
  bits := m.wordAt b background address (min size 8)
  based := size == b.pointerBytes && m.slots.contains (address &&& b.addressMask)

/-- The `i`-th byte of a word; zero past its end. -/
def wordByte (bits : UInt64) (i : Nat) : UInt8 :=
  if i < 8 then (bits >>> (8 * i).toUInt64).toUInt8 else 0

/-- Writes the bytes of a word from an address on. -/
def writeBytes (b : Bitness) (address : UInt64) (bits : UInt64) (size : Nat)
    (bytes : Std.HashMap UInt64 UInt8) : Std.HashMap UInt64 UInt8 :=
  (List.range size).foldl
    (fun bytes i => bytes.insert ((address + i.toUInt64) &&& b.addressMask) (wordByte bits i)) bytes

/-- Ends all spills of which a byte lies in the `size` bytes from an address on. -/
def endSpills (b : Bitness) (address : UInt64) (size : Nat) (slots : Std.HashSet UInt64) : Std.HashSet UInt64 :=
  let first := address - (b.pointerBytes - 1).toUInt64
  (List.range (b.pointerBytes - 1 + size)).foldl
    (fun slots i => slots.erase ((first + i.toUInt64) &&& b.addressMask)) slots

/-- Writes `size` bytes of a value; past the eighth they are zero. -/
def store (m : Memory) (b : Bitness) (address : UInt64) (size : Nat) (v : Value) : Memory :=
  let slots := endSpills b address size m.slots
  { bytes := writeBytes b address v.bits size m.bytes
    slots := if v.based && size == b.pointerBytes then slots.insert (address &&& b.addressMask) else slots }

/-- Ends all spills and keeps the bytes. -/
def forgetSpills (m : Memory) : Memory :=
  { m with slots := ∅ }

@[simp] theorem bytes_forgetSpills (m : Memory) : m.forgetSpills.bytes = m.bytes := rfl

@[simp] theorem contains_forgetSpills (m : Memory) (a : UInt64) :
    m.forgetSpills.slots.contains a = false := by
  simp [forgetSpills]

end Memory

end KernelOffsets
