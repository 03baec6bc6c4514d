/-
The fields of the vector prefixes C5, C4 and 8F, which share a layout, and of
62, which has a mask besides. All of them hold the bits of a REX prefix,
inverted, and take the place of the prefixes that can be a part of an opcode.
-/
import KernelOffsets.Encoding.Prefixes

namespace KernelOffsets.Encoding.Prefixes

/-- Whether prefixes stand where none may stand before a vector prefix. -/
def clashes (p : Prefixes) : Bool :=
  p.operandSize || p.lock || p.repetition.isSome || p.rex.isSome

/-- The mandatory prefix that two bits stand for takes the place of those before. -/
def withMandatory (p : Prefixes) (byte : UInt8) : Prefixes :=
  { p with
    operandSize := byte &&& 3 == 1
    repetition := match byte &&& 3 with
      | 2 => some .whileEqual
      | 3 => some .whileNotEqual
      | _ => none }

/-- The register named by four inverted bits. -/
def extraOfByte (byte : UInt8) : Nat :=
  15 - (byte.toNat / 8) % 16

/-- The inverted high bits of a vector prefix, which 32-bit code does not have. -/
def rexOfInverted (mode : Bitness) (w : Bool) (byte : UInt8) : Rex :=
  match mode with
  | .x86 => ⟨w, false, false, false⟩
  | .x64 => ⟨w, byte &&& 0x80 == 0, byte &&& 0x40 == 0, byte &&& 0x20 == 0⟩

/-- The prefixes with the fields of C5, given the byte after it. -/
def ofShort (p : Prefixes) (byte : UInt8) : Prefixes :=
  { p.withMandatory byte with
    rex := some { rexOfInverted p.mode false byte with x := false, b := false }
    vector := some { length := (byte.toNat / 4) % 2, extra := extraOfByte byte } }

/-- The prefixes with the fields of C4 or 8F, given the two bytes after it. -/
def ofLong (p : Prefixes) (first second : UInt8) : Prefixes :=
  { p.withMandatory second with
    rex := some (rexOfInverted p.mode (second &&& 0x80 != 0) first)
    vector := some { length := (second.toNat / 4) % 2, extra := extraOfByte second } }

/-- The prefixes with the fields of 62, given the three bytes after it, where all fixed bits are right. -/
def ofMasked? (p : Prefixes) (first second third : UInt8) : Option Prefixes :=
  if first &&& 0x08 != 0 || second &&& 0x04 == 0 then none
  else some { p.withMandatory second with
    rex := some (rexOfInverted p.mode (second &&& 0x80 != 0) first)
    vector := some {
      length := (third.toNat / 32) % 4
      extra := extraOfByte second
      maskable := true
      opmask := third.toNat % 8
      zeroing := third &&& 0x80 != 0
      special := third &&& 0x10 != 0
      highReg := p.mode == .x64 && first &&& 0x10 == 0
      highIndex := third &&& 0x08 == 0 } }

end KernelOffsets.Encoding.Prefixes
