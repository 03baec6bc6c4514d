/-
Symbol maps: texts with one symbol a line, written as an address, a type that
may be left out, and a name. Addresses are hexadecimal, behind `0x` or not,
and backticks between their digits do not count. Blank lines and lines that
start with `#` are skipped.
-/
import KernelOffsets.Symbols.Table
import KernelOffsets.Text.Blank
import KernelOffsets.Text.Quoted

namespace KernelOffsets

/-- Why a text is no number. -/
inductive NumberFault where
  | empty
  | invalidDigit
  /-- The number does not fit into 64 bits. -/
  | tooLarge
  deriving DecidableEq, Repr

/-- The wording of a number fault. -/
def NumberFault.message : NumberFault → String
  | empty => "cannot parse integer from empty string"
  | invalidDigit => "invalid digit found in string"
  | tooLarge => "number too large to fit in target type"

/-- Why a line is no symbol. -/
inductive LineFault where
  | fieldCount (count : Nat)
  | badAddress (field : List Char) (fault : NumberFault)
  deriving DecidableEq, Repr

/-- The wording of a line fault. -/
def LineFault.message : LineFault → String
  | fieldCount count => "expected 2 or 3 fields, got " ++ toString count
  | badAddress field fault => "bad address " ++ Text.quoted field ++ ": " ++ fault.message

/-- The first bad line of a map, counted from one, and what is wrong with it. -/
structure MapFault where
  line : Nat
  fault : LineFault
  deriving DecidableEq, Repr

namespace SymbolMap

/-- The value of a hexadecimal digit. -/
def digit? (c : Char) : Option Nat :=
  if '0' ≤ c ∧ c ≤ '9' then some (c.toNat - '0'.toNat)
  else if 'a' ≤ c ∧ c ≤ 'f' then some (c.toNat - 'a'.toNat + 10)
  else if 'A' ≤ c ∧ c ≤ 'F' then some (c.toNat - 'A'.toNat + 10)
  else none

/-- Reads digits behind a number already read; of two faults the one further left is reported. -/
def readDigits (n : Nat) : List Char → Except NumberFault Nat
  | [] => .ok n
  | c :: rest =>
    match digit? c with
    | none => .error .invalidDigit
    | some d => if n * 16 + d < UInt64.size then readDigits (n * 16 + d) rest else .error .tooLarge

/-- Reads a hexadecimal number, which may have a plus sign. -/
def readNumber : List Char → Except NumberFault Nat
  | [] => .error .empty
  | ['+'] => .error .invalidDigit
  | '+' :: digits => readDigits 0 digits
  | digits => readDigits 0 digits

/-- Removes two characters from the front of a text as often as they stand there. -/
def dropMarks (a b : Char) : List Char → List Char
  | x :: y :: rest => if x = a ∧ y = b then dropMarks a b rest else x :: y :: rest
  | rest => rest

/-- The digits of an address field. -/
def addressDigits (field : List Char) : List Char :=
  (dropMarks '0' 'X' (dropMarks '0' 'x' field)).filter (· != '\x60')

/-- Reads an address field. -/
def readAddress (field : List Char) : Except LineFault UInt64 :=
  match readNumber (addressDigits field) with
  | .ok n => .ok n.toUInt64
  | .error fault => .error (.badAddress field fault)

/-- Reads the words of a line that is not skipped. -/
def readWords : List (List Char) → Except LineFault (String × UInt64)
  | [address, name] | [address, _, name] => do
    return (String.ofList name, ← readAddress address)
  | words => .error (.fieldCount words.length)

/-- Whether a line is skipped: it is blank, or its first word starts with `#`. -/
def isSkipped (line : List Char) : Bool :=
  match line.dropWhile Text.isBlank with
  | [] => true
  | c :: _ => c == '#'

/-- Adds the symbols of lines to a table; the first of them has the number `n`. -/
def readLines (n : Nat) (t : SymbolTable) : List (List Char) → Except MapFault SymbolTable
  | [] => .ok t
  | line :: rest =>
    if isSkipped line then readLines (n + 1) t rest
    else match readWords (Text.words line) with
      | .ok (name, address) => readLines (n + 1) (t.insert name address) rest
      | .error fault => .error ⟨n, fault⟩

/-- Reads a symbol map. -/
def parse (text : String) : Except MapFault SymbolTable :=
  readLines 1 .empty (Text.lines text.toList)

end SymbolMap

end KernelOffsets
