/-
Hexadecimal text: lower case digits, no leading zeros, and the same behind
`0x`.
-/
namespace KernelOffsets.Text

/-- The lower case hexadecimal digits of a number. -/
def hex (n : Nat) : String :=
  String.ofList (Nat.toDigits 16 n)

/-- The lower case hexadecimal digits of a number behind `0x`. -/
def hex0x (n : Nat) : String :=
  "0x" ++ hex n

/-- The lower case hexadecimal digits of a number, filled up with zeros to `width`. -/
def hexPadded (width n : Nat) : String :=
  let digits := Nat.toDigits 16 n
  String.ofList (List.replicate (width - digits.length) '0' ++ digits)

end KernelOffsets.Text
