/-
The operand byte and the memory reference it stands for: base and index
registers, scale and displacement, in the 16-bit and in the 32- and 64-bit
forms. A reference relative to the instruction pointer keeps its displacement
until the address of the instruction is known.
-/
import KernelOffsets.Encoding.Prefixes
import KernelOffsets.Instruction.Basic

namespace KernelOffsets.Encoding

/-- The fields of an operand byte are written as literals. -/
instance neZero_four : @NeZero Nat Zero.ofOfNat0 4 := ⟨Nat.succ_ne_zero 3⟩

/-- The fields of an operand byte are written as literals. -/
instance neZero_eight : @NeZero Nat Zero.ofOfNat0 8 := ⟨Nat.succ_ne_zero 7⟩

/-- The three fields of an operand byte or of a scale-index-base byte. -/
structure Fields where
  top : Fin 4
  mid : Fin 8
  low : Fin 8
  deriving DecidableEq, Repr

namespace Fields

/-- The fields of a byte. -/
def ofByte (byte : UInt8) : Fields :=
  ⟨Fin.ofNat 4 (byte.toNat / 64), Fin.ofNat 8 (byte.toNat / 8), Fin.ofNat 8 byte.toNat⟩

/-- The byte with given fields. -/
def toByte (f : Fields) : UInt8 :=
  (f.top.val * 64 + f.mid.val * 8 + f.low.val).toUInt8

/-- Whether the operand byte names a register and not memory. -/
def isRegister (f : Fields) : Bool := f.top == 3

end Fields

/-- A three bit register number with its fourth bit. -/
def extended (n : Fin 8) (high : Bool) : Fin 16 :=
  Fin.ofNat 16 (n.val + if high then 8 else 0)

/-- A memory reference before the address of the instruction is known. -/
structure Reference where
  base : Register := .absent
  index : Register := .absent
  scale : UInt64 := 1
  /-- Extended to the address width; for a reference relative to the instruction pointer to all 64 bits. -/
  displacement : UInt64 := 0
  deriving DecidableEq, Repr

namespace Reference

/-- The base and index registers of the 16-bit forms. -/
def pair : Fin 8 → Register × Register
  | 0 => (.gpr .bx .word, .gpr .si .word)
  | 1 => (.gpr .bx .word, .gpr .di .word)
  | 2 => (.gpr .bp .word, .gpr .si .word)
  | 3 => (.gpr .bp .word, .gpr .di .word)
  | 4 => (.gpr .si .word, .absent)
  | 5 => (.gpr .di .word, .absent)
  | 6 => (.gpr .bp .word, .absent)
  | 7 => (.gpr .bx .word, .absent)

/-- A displacement of one byte, which counts units of some size. -/
def readShort (unit : UInt64) : Reader UInt64 := do
  return (← Reader.signed 1) * unit

/-- The reference of a 16-bit operand byte. -/
def read16 (f : Fields) (unit : UInt64) : Reader Reference := do
  let (base, index) := pair f.low
  match f.top with
  | 0 =>
    if f.low = 6 then
      return { displacement := ← Reader.little 2 }
    else
      return { base, index }
  | 1 => return { base, index, displacement := (← readShort unit) &&& Width.word.mask }
  | _ => return { base, index, displacement := ← Reader.little 2 }

/-- The displacement after an operand byte whose base is in place. -/
def readDisplacement (w : Width) (top : Fin 4) (noBase : Bool) (unit : UInt64) : Reader UInt64 := do
  match top with
  | 0 => if noBase then return (← Reader.signed 4) &&& w.mask else return 0
  | 1 => return (← readShort unit) &&& w.mask
  | _ => return (← Reader.signed 4) &&& w.mask

/-- The reference of a scale-index-base byte; `index` names the index register of a number. -/
def readScaled (p : Prefixes) (top : Fin 4) (index : Fin 16 → Register) (unit : UInt64) :
    Reader Reference := do
  let sib := Fields.ofByte (← Reader.byte)
  let w := p.addressWidth
  let noBase := top == 0 && sib.low == 5
  let displacement ← readDisplacement w top noBase unit
  return {
    base := if noBase then .absent else .gpr (.ofNumber (extended sib.low (p.rexBit (·.b)))) w
    index := index (extended sib.mid (p.rexBit (·.x)))
    scale := 1 <<< sib.top.val.toUInt64
    displacement }

/-- The index register of a general reference; the stack pointer cannot be one. -/
def generalIndex (w : Width) (n : Fin 16) : Register :=
  if n = 4 then .absent else .gpr (.ofNumber n) w

/-- The reference of a 32- or 64-bit operand byte. -/
def readWide (p : Prefixes) (f : Fields) (unit : UInt64) : Reader Reference := do
  let w := p.addressWidth
  if f.low = 4 then
    readScaled p f.top (generalIndex w) unit
  else if f.top = 0 && f.low = 5 then
    let displacement ← Reader.signed 4
    match p.mode with
    | .x64 => return { base := .instructionPointer w, displacement }
    | .x86 => return { displacement := displacement &&& w.mask }
  else
    let displacement ← readDisplacement w f.top false unit
    return { base := .gpr (.ofNumber (extended f.low (p.rexBit (·.b)))) w, displacement }

/-- The reference of an operand byte that names memory. -/
def read (p : Prefixes) (f : Fields) (unit : UInt64 := 1) : Reader Reference :=
  match p.addressWidth with
  | .word => read16 f unit
  | _ => readWide p f unit

/-- The segment that a reference goes through when no prefix names one. -/
def defaultSegment (r : Reference) : Segment :=
  match r.base with
  | .gpr .sp _ | .gpr .bp _ => .ss
  | _ => .ds

/-- The operand of a reference of `size` bytes in an instruction followed by the address `nextIp`. -/
def operand (r : Reference) (p : Prefixes) (nextIp : UInt64) (size : Nat) : MemoryOperand where
  segment := .segment (p.segment.getD r.defaultSegment)
  base := r.base
  index := r.index
  scale := r.scale
  displacement :=
    match r.base with
    | .instructionPointer w => (r.displacement + nextIp) &&& w.mask
    | _ => r.displacement
  size := size

end Reference

end KernelOffsets.Encoding
