/-
Rows of the opcode tables whose instructions are told apart by prefixes. A
row names an opcode, the prefixes and the middle field that select it, and its
form; `Entry.find?` looks a form up.
-/
import KernelOffsets.Encoding.Form

namespace KernelOffsets.Encoding

/-- The vector length that two length bits stand for. -/
def lengthOfBits : Nat → Option VectorWidth
  | 0 => some .xmm
  | 1 => some .ymm
  | 2 => some .zmm
  | _ => none

/-- Whether the prefix asks for rounding: the length bits then say how, and the vectors are of full length. -/
def Form.rounds (form : Form) (v : VectorFields) (f : Fields) : Bool :=
  v.special && f.isRegister && form.rounding != .never

/-- The vector length of a form, if the length bits stand for one. -/
def Form.length? (form : Form) (p : Prefixes) (f : Fields) : Option VectorWidth :=
  match p.vector with
  | none => some .xmm
  | some v => if form.rounds v f then some .zmm else lengthOfBits v.length

/-- Whether an operand byte names what has to be named. -/
def Place.accepts (place : Place) (f : Fields) : Bool :=
  match place with
  | either => true
  | register => f.isRegister
  | memory => !f.isRegister

/-- A row of an opcode table. -/
structure Entry where
  opcode : UInt8
  mandatory : Prefixes.Mandatory
  form : Form
  /-- The bit that asks for wide operands, where it matters. -/
  wide : Option Bool := none
  /-- The vector lengths that there are; none are listed where the length does not matter. -/
  lengths : List VectorWidth := []
  /-- The middle field of the operand byte, where it is a part of the opcode. -/
  digit : Option (Fin 8) := none
  /-- The low field of the operand byte, where it is a part of the opcode. -/
  last : Option (Fin 8) := none
  /-- The mode, where there is no such instruction in the other one. -/
  mode : Option Bitness := none
  deriving DecidableEq, Repr

namespace Entry

/-- Whether a value is the one asked for, if one is. -/
def allows {α : Type} [DecidableEq α] (asked : Option α) (a : α) : Bool :=
  asked.all (· == a)

/--
Whether a row has one of the vector lengths of an encoding. Length bits that
stand for no length are ignored where the length does not matter.
-/
def hasLength (e : Entry) (p : Prefixes) (f : Fields) : Bool :=
  match e.form.length? p f with
  | some length => e.lengths.isEmpty || e.lengths.contains length
  | none => e.lengths.isEmpty && !e.form.operands.any (·.followsLength)

/-- Whether a row is selected, whatever the operand byte names. -/
def fits (e : Entry) (p : Prefixes) (op : UInt8) (f : Fields) : Bool :=
  e.opcode == op && e.mandatory == p.mandatory && allows e.wide (p.rexBit (·.w))
    && allows e.digit f.mid && allows e.last f.low && allows e.mode p.mode && e.hasLength p f

/--
The form of an opcode with its operand byte. Of several rows the one counts
that fits what the operand byte names; a row that does not fit it is found all
the same, because its constants are part of the encoding.
-/
def find? (table : List Entry) (p : Prefixes) (op : UInt8) (f : Fields) : Option Form :=
  let fitting := table.filter (·.fits p op f)
  match fitting.find? fun e => e.form.place.accepts f with
  | some e => some e.form
  | none => fitting.head?.map (·.form)

/-! ## Rows -/

/-- A row without a mandatory prefix. -/
def plain (opcode : UInt8) (form : Form) : Entry :=
  { opcode, mandatory := .none, form }

/-- A row behind 66. -/
def with66 (opcode : UInt8) (form : Form) : Entry :=
  { opcode, mandatory := .operandSize, form := form.withPrefix }

/-- A row behind F3. -/
def withF3 (opcode : UInt8) (form : Form) : Entry :=
  { opcode, mandatory := .whileEqual, form := form.withPrefix }

/-- A row behind F2. -/
def withF2 (opcode : UInt8) (form : Form) : Entry :=
  { opcode, mandatory := .whileNotEqual, form := form.withPrefix }

section

variable (e : Entry)

/-- The same row, for narrow operands. -/
def narrow : Entry := { e with wide := some false }

/-- The same row, for wide operands. -/
def widened : Entry := { e with wide := some true }

/-- The same row, for some vector lengths. -/
def of (lengths : List VectorWidth) : Entry := { e with lengths }

/-- The same row, with a middle field as a part of the opcode. -/
def slash (digit : Fin 8) : Entry := { e with digit := some digit }

/-- The same row, with a low field as a part of the opcode. -/
def ending (last : Fin 8) : Entry := { e with last := some last }

/-- The same row, in 64-bit code only. -/
def only64 : Entry := { e with mode := some .x64 }

/-- The same row, in 32-bit code only. -/
def only32 : Entry := { e with mode := some .x86 }

end

/-- An instruction on a general register, under one name for 32 bits and another one for 64. -/
def byWidth (row : Form → Entry) (form : String → Form) (narrow wide : String) : List Entry :=
  [(row (form narrow)).narrow, (row (form narrow)).widened.only32, (row (form wide)).widened.only64]

end Entry

end KernelOffsets.Encoding
