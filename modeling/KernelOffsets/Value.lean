/-
The values a register or a memory slot holds: a word, and a flag that tells
whether the word was made from the injected base by pointer arithmetic. The
flag follows the word through `Value.add` and `Value.sub`; everything else
makes plain values.
-/
namespace KernelOffsets

/-- A word together with its relation to the injected base. -/
structure Value where
  bits : UInt64
  /-- The word is the base plus something that does not depend on it. -/
  based : Bool
  deriving DecidableEq, Repr

namespace Value

/-- A word unrelated to the base. -/
def plain (bits : UInt64) : Value := ⟨bits, false⟩

/-- A word that stands for the base or points past it. -/
def onBase (bits : UInt64) : Value := ⟨bits, true⟩

@[simp] theorem bits_plain (x : UInt64) : (plain x).bits = x := rfl
@[simp] theorem based_plain (x : UInt64) : (plain x).based = false := rfl
@[simp] theorem bits_onBase (x : UInt64) : (onBase x).bits = x := rfl
@[simp] theorem based_onBase (x : UInt64) : (onBase x).based = true := rfl

/-- A sum is relative to the base if exactly one of its terms is. -/
def add (a b : Value) : Value :=
  ⟨a.bits + b.bits, a.based != b.based⟩

/-- A difference is relative to the base if only the minuend is. -/
def sub (a b : Value) : Value :=
  ⟨a.bits - b.bits, a.based && !b.based⟩

/-- Keeps the bits of a mask, and the flag. -/
def mask (v : Value) (m : UInt64) : Value :=
  ⟨v.bits &&& m, v.based⟩

@[simp] theorem bits_add (a b : Value) : (a.add b).bits = a.bits + b.bits := rfl
@[simp] theorem bits_sub (a b : Value) : (a.sub b).bits = a.bits - b.bits := rfl
@[simp] theorem bits_mask (v : Value) (m : UInt64) : (v.mask m).bits = v.bits &&& m := rfl
@[simp] theorem based_mask (v : Value) (m : UInt64) : (v.mask m).based = v.based := rfl

end Value

/-- The low `n` bytes of a word, all of it from eight bytes on. -/
def lowBytes (n : Nat) (x : UInt64) : UInt64 :=
  if 8 ≤ n then x else x &&& ((1 <<< (8 * n).toUInt64) - 1)

/-- The low `n` bytes of a word read as a signed number; other sizes than 1, 2 and 4 stay as they are. -/
def signExtend (n : Nat) (x : UInt64) : UInt64 :=
  match n with
  | 1 => x.toUInt8.toInt8.toInt64.toUInt64
  | 2 => x.toUInt16.toInt16.toInt64.toUInt64
  | 4 => x.toUInt32.toInt32.toInt64.toUInt64
  | _ => x

end KernelOffsets
