/-
Text between double quotes, with escapes for what would not be seen: quotes
and backslashes, control characters, and all hidden characters.
-/
import KernelOffsets.Text.Hex
import KernelOffsets.Text.Hidden

namespace KernelOffsets.Text

/-- The escapes of one letter. -/
def letterEscapes : List (Char × String) :=
  [('\x00', "\\0"), ('\t', "\\t"), ('\r', "\\r"), ('\n', "\\n"), ('\\', "\\\\"), ('"', "\\\"")]

/-- Whether a character is written as a number. -/
def isNumbered (c : Char) : Bool :=
  c.toNat < 0x20 || c.toNat == 0x7f || (0x80 ≤ c.toNat && isHidden c)

/-- A character as it stands between quotes. -/
def quotedChar (c : Char) : String :=
  match letterEscapes.lookup c with
  | some escape => escape
  | none => if isNumbered c then "\\u\x7b" ++ hex c.toNat ++ "\x7d" else String.singleton c

/-- A text between quotes. -/
def quoted (cs : List Char) : String :=
  "\"" ++ String.join (cs.map quotedChar) ++ "\""

end KernelOffsets.Text
