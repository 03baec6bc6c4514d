/-
Instructions as assembly text: words for the prefixes, the mnemonic in lower
case, filled up to ten columns, then the operands. Numbers are hexadecimal
with a final `h`, with a zero in front if they start with a letter, and
without the `h` below ten. Memory shows its size where nothing else tells it.
-/
import KernelOffsets.Instruction.Basic
import KernelOffsets.Register.Name
import KernelOffsets.Text.Hex
import KernelOffsets.Value

namespace KernelOffsets.Assembly

/-- The column at which the operands start. -/
def operandColumn : Nat := 10

/-- Hexadecimal digits, which start with a digit below ten, and a final `h`. -/
def marked (digits : String) : String :=
  (if digits.front.isDigit then digits else "0" ++ digits) ++ "h"

/-- A number. -/
def number (n : Nat) : String :=
  if n < 10 then toString n else marked (Text.hex n)

/-- An instruction pointer of some width with all its digits. -/
def fullAddress (w : Width) (address : UInt64) : String :=
  marked (Text.hexPadded (2 * w.bytes) address.toNat)

/-- A register; byte registers past the eighth end in `b`. -/
def register : Register → String
  | .gpr g .byte => if g.number < 8 then g.byteName.toLower else g.stem.toLower ++ "b"
  | r => r.name.toLower

/-- The mnemonics that differ from the name of the operation. -/
def mnemonics : List (String × String) :=
  [("Pusha", "pushaw"), ("Pushad", "pusha"), ("Popa", "popaw"), ("Popad", "popa"),
   ("Pushf", "pushfw"), ("Pushfd", "pushf"), ("Pushfq", "pushf"),
   ("Popf", "popfw"), ("Popfd", "popf"), ("Popfq", "popf"),
   ("Iret", "iretw"), ("Iretd", "iret"), ("Reservednop", "nop"), ("INVALID", "(bad)")]

/-- The mnemonic of an operation. -/
def mnemonic (o : Operation) : String :=
  (mnemonics.lookup o.name).getD o.name.toLower

/-! ## Memory -/

/-- The word for a memory size; sizes without one are not shown. -/
def sizeWord : Nat → String
  | 1 => "byte "
  | 2 => "word "
  | 4 => "dword "
  | 8 => "qword "
  | 10 => "tword "
  | 16 => "oword "
  | 32 => "yword "
  | 64 => "zword "
  | _ => ""

/-- The width that a displacement is a number of. -/
def addressWidth (b : Bitness) (m : MemoryOperand) : Width :=
  match m.base, m.index with
  | .gpr _ w, _ => w
  | .instructionPointer w, _ => w
  | _, .gpr _ w => w
  | _, _ => b.pointerWidth

/-- The segment of a reference, if it is not the one that follows from its base. -/
def segment (b : Bitness) (m : MemoryOperand) : String :=
  match b, m.segment, m.base with
  | _, .segment .fs, _ => "fs:"
  | _, .segment .gs, _ => "gs:"
  | .x64, _, _ => ""
  | .x86, .segment .ss, .gpr .sp _ | .x86, .segment .ss, .gpr .bp _ => ""
  | .x86, .segment .ds, .gpr .sp _ | .x86, .segment .ds, .gpr .bp _ => "ds:"
  | .x86, .segment .ds, _ => ""
  | .x86, s, _ => register s ++ ":"

/-- The registers of a reference, with a plus between them. -/
def registersOf (m : MemoryOperand) : String :=
  let base := match m.base with
    | .absent | .instructionPointer _ => ""
    | r => register r
  let scale := if m.scale = 1 && base != "" then "" else "*" ++ toString m.scale.toNat
  let index := match m.index with
    | .absent => ""
    | r => register r ++ scale
  if base = "" || index = "" then base ++ index else base ++ "+" ++ index

/-- The displacement behind registers: with its sign, and left out if it is zero. -/
def signedDisplacement (w : Width) (displacement : UInt64) : String :=
  let n := (signExtend w.bytes displacement).toInt64.toInt
  if n = 0 then "" else (if n < 0 then "-" else "+") ++ number n.natAbs

/-- The word in front of an address that stands alone. -/
def addressWord (m : MemoryOperand) (address : Option Width) : String :=
  match m.base, address with
  | .instructionPointer .qword, _ => "rel "
  | .instructionPointer w, _ => sizeWord w.bytes ++ "rel "
  | _, some w => sizeWord w.bytes
  | _, none => ""

/-- A memory reference between brackets, where the segment is written if it matters. -/
def reference (b : Bitness) (m : MemoryOperand) (address : Option Width) (segmented : Bool) : String :=
  let registers := registersOf m
  let inner :=
    if registers = "" then number m.displacement.toNat
    else registers ++ signedDisplacement (addressWidth b m) m.displacement
  "[" ++ addressWord m address ++ (if segmented then segment b m else "") ++ inner ++ "]"

/-- The word in front of memory. -/
def memoryWord (m : MemoryOperand) : MemoryWord → String
  | .implied => ""
  | .size => sizeWord m.size
  | .far none => "far "
  | .far (some w) => sizeWord w.bytes ++ "far "

/-! ## Operands -/

/-- The words in front of a branch target. -/
def targetWords (w : Width) : Distance → String
  | .short => "short "
  | .near => "near " ++ if w = .word then "word " else ""
  | .implied => if w = .word then "word " else ""

/-- An operand. -/
def operand (i : Instruction) : Operand → String
  | .register r => register r
  | .immediate bits w => number (bits &&& w.mask).toNat
  | .memory m =>
    memoryWord m i.spelling.memory ++ reference i.bitness m i.spelling.address (i.operation != .lea)
  | .nearTarget target w => targetWords w i.spelling.distance ++ fullAddress w target
  | .farTarget selector offset w =>
    (if w = .word then "word " else "") ++ number selector.toNat ++ ":" ++ number offset.toNat

/-- The name of a way of rounding. -/
def rounding : Rounding → String
  | .nearest => "rn-sae"
  | .down => "rd-sae"
  | .up => "ru-sae"
  | .zero => "rz-sae"
  | .silent => "sae"

/-- A mark between braces. -/
def mark (s : String) : String := "\x7b" ++ s ++ "\x7d"

/-- What stands between two commas. -/
def term (i : Instruction) : Term → String
  | .plain o => operand i o
  | .destination o => "to " ++ operand i o
  | .masked o opmask zeroing =>
    operand i o ++ (if opmask = 0 then "" else mark ("k" ++ toString opmask)) ++ if zeroing then mark "z" else ""
  | .broadcast o count => operand i o ++ mark ("1to" ++ toString count)
  | .rounding r => mark (rounding r)

/-! ## Instructions -/

/-- The number of bits of a width. -/
def bits (w : Width) : String := toString (8 * w.bytes)

/-- A word in front of a mnemonic. -/
def word : Word → String
  | .operandSize w => "o" ++ bits w
  | .addressSize w => "a" ++ bits w
  | .segment s => s.name.toLower
  | .acquire => "xacquire"
  | .release => "xrelease"
  | .lock => "lock"
  | .noTrack => "notrack"
  | .bound => "bnd"
  | .repeated => "rep"
  | .whileEqual => "repe"
  | .whileNotEqual => "repne"

/-- The words and the mnemonic of an instruction. -/
def head (i : Instruction) : String :=
  " ".intercalate (i.spelling.words.map word ++ [i.spelling.mnemonic.getD (mnemonic i.operation)])

/-- The text of an instruction. -/
def text (i : Instruction) : String :=
  let name := head i
  match i.spelling.terms with
  | [] => name
  | terms =>
    let gap := max 1 (operandColumn - name.length)
    name ++ String.ofList (List.replicate gap ' ') ++ ",".intercalate (terms.map (term i))

end KernelOffsets.Assembly
