/-
Reading an image that is mapped already, out of a view of some memory. A view
may lack bytes, which then read as zero, and a read may fail as a whole. Two
reads are made: one page of headers, and then the whole image.
-/
import KernelOffsets.Image.Unwind

namespace KernelOffsets

/-- A view of memory. -/
structure MemoryView where
  /-- The bytes that can be read. -/
  byte? : UInt64 → Option UInt8
  /-- Whether a read fails as a whole; reads are counted from one. -/
  fails : Nat → Bool

namespace MemoryView

/-- A view of regions of memory. Where regions overlap, the first one wins. -/
def ofRegions (regions : List (UInt64 × Array UInt8)) (fails : Nat → Bool) : MemoryView where
  byte? address := regions.findSome? fun (start, bytes) =>
    if start ≤ address then bytes[(address - start).toNat]? else none
  fails := fails

/-- The `n`-th read: some bytes from an address on. -/
def read (v : MemoryView) (n : Nat) (address : UInt64) (len : Nat) : Except Failure (Array UInt8) :=
  if v.fails n then .error .unreadableMemory
  else .ok (Array.ofFn fun i : Fin len => (v.byte? (address + i.val.toUInt64)).getD 0)

end MemoryView

namespace Image

open PortableExecutable (machine32 machine64 readHeader exceptionIndex)

/-- The number of bytes in which the headers have to lie. -/
def headerBytes : Nat := 4096

/-- The mode of a machine. -/
def machineBitness (machine : Nat) : Except Failure Bitness :=
  if machine = machine64 then .ok .x64
  else if machine = machine32 then .ok .x86
  else .error (.invalidImage ("unsupported machine " ++ Text.hex0x machine))

/-- The image that is mapped at an address. -/
def ofView (v : MemoryView) (base : UInt64) : Logged Image := do
  let headers ← Logged.ofExcept (v.read 1 base headerBytes)
  let h ← Logged.ofExcept ((readHeader headers).mapError .malformedFile)
  let b ← Logged.ofExcept (machineBitness h.machine)
  let o ← Logged.require h.optional (.invalidImage "missing optional header")
  let data ← Logged.ofExcept (v.read 2 base o.sizeOfImage)
  Logged.note (.readImage b base data.size)
  ofMapped base b data (o.directory? exceptionIndex)

end Image

end KernelOffsets
