/-
Reading numbers and text out of a file. A number is stored with its lowest
byte first; a text ends at a zero byte or at the end of the file. Both are
`none` if they do not lie in the file.
-/
namespace KernelOffsets.PortableExecutable

/-- The bytes of a file. -/
abbrev Bytes := Array UInt8

namespace Bytes

/-- The number that some bytes stand for, the lowest byte first. -/
def numberOf : List UInt8 → Nat
  | [] => 0
  | b :: rest => b.toNat + 256 * numberOf rest

/-- The `n` bytes at an offset as a number. -/
def number? (file : Bytes) (offset n : Nat) : Option Nat :=
  if offset + n ≤ file.size then some (numberOf (file.extract offset (offset + n)).toList) else none

/-- The text at an offset, if it is well formed. -/
def text? (file : Bytes) (offset : Nat) : Option String :=
  if offset < file.size then
    String.fromUTF8? ⟨((file.extract offset file.size).toList.takeWhile (· != 0)).toArray⟩
  else none

theorem numberOf_lt (bytes : List UInt8) : numberOf bytes < 1 <<< (8 * bytes.length) := by
  rw [Nat.one_shiftLeft]
  induction bytes with
  | nil => simp [numberOf]
  | cons b rest ih =>
    have hb : b.toNat < 256 := b.toNat_lt
    rw [numberOf, List.length_cons, Nat.mul_succ, Nat.pow_add]
    omega

end Bytes

end KernelOffsets.PortableExecutable
