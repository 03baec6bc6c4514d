/-
The two processor modes a kernel image is built for, and the widths that
depend on the mode: the pointer width in bytes and the mask that keeps an
address inside the address space.
-/
namespace KernelOffsets

/-- The processor mode of an image. -/
inductive Bitness where
  | x86
  | x64
  deriving DecidableEq, Repr

namespace Bitness

/-- The mode's name as it stands in messages. -/
def name : Bitness → String
  | x86 => "x86"
  | x64 => "x64"

/-- The width of the mode in bits. -/
def bits : Bitness → Nat
  | x86 => 32
  | x64 => 64

/-- The width of a pointer in bytes. -/
def pointerBytes : Bitness → Nat
  | x86 => 4
  | x64 => 8

/-- The largest address, which is also the mask of a full width register. -/
def addressMask : Bitness → UInt64
  | x86 => 0xffffffff
  | x64 => 0xffffffffffffffff

theorem bits_eq (b : Bitness) : b.bits = 8 * b.pointerBytes := by
  cases b <;> rfl

theorem pointerBytes_pos (b : Bitness) : 0 < b.pointerBytes := by
  cases b <;> decide

theorem succ_toNat_addressMask (b : Bitness) : b.addressMask.toNat + 1 = 1 <<< b.bits := by
  cases b <;> decide

end Bitness

/-- One entry per processor mode. -/
structure PerBitness (α : Type) where
  x86 : α
  x64 : α

/-- The entry of a mode. -/
def PerBitness.get {α : Type} (t : PerBitness α) : Bitness → α
  | .x86 => t.x86
  | .x64 => t.x64

end KernelOffsets
