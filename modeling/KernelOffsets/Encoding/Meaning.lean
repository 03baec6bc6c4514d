/-
From an encoding to an instruction: the operands, once the address of the
instruction is known, and the registers and the memory that may change.
-/
import KernelOffsets.Encoding.Basic

namespace KernelOffsets.Encoding

variable (e : Encoding)

/-! ## Registers -/

/-- The general register of a number; without REX the numbers four to seven are high bytes. -/
def generalRegister (n : Fin 16) (s : Size) : Register :=
  match s.width e.prefixes, e.prefixes.rex, n with
  | .byte, none, 4 => .highByte .ah
  | .byte, none, 5 => .highByte .ch
  | .byte, none, 6 => .highByte .dh
  | .byte, none, 7 => .highByte .bh
  | w, _, n => .gpr (.ofNumber n) w

/-- The register number in the middle field. -/
def middle : Fin 16 := extended e.fields.mid (e.prefixes.rexBit (·.r))

/-- The register number in the low field. -/
def low : Fin 16 := extended e.fields.low (e.prefixes.rexBit (·.b))

/-- The register number in the low bits of the opcode. -/
def opcodeLow : Fin 16 :=
  extended (Fin.ofNat 8 e.opcode.toNat) (e.prefixes.rexBit (·.b))

/-- The fields of the vector prefix; without one there are none. -/
def vectorFields : VectorFields :=
  e.prefixes.vector.getD { length := 0, extra := 0 }

/-- The register number in the vector prefix; 32-bit code has only the first eight registers. -/
def extraNumber : Nat :=
  match e.prefixes.mode with
  | .x86 => e.vectorFields.extra % 8
  | .x64 => e.vectorFields.extra

/-- A number with a fifth bit. -/
def withFifth (n : Nat) (high : Bool) : Nat :=
  n + if high then 16 else 0

/-- The vector length. -/
def vectorLength : VectorWidth :=
  (e.form.length? e.prefixes e.fields).getD .zmm

/-- A vector register. -/
def vectorRegister (l : Lanes) (n : Nat) : Register :=
  .vector (l.register e.vectorLength) n

/-- The number of the vector register in the low field, whose fifth bit is the one of an index. -/
def lowVector : Nat :=
  withFifth e.low.val (e.vectorFields.maskable && e.prefixes.rexBit (·.x))

/-- The segment register of a number. -/
def segmentRegister (n : Fin 8) : Register :=
  match n with
  | 0 => .segment .es
  | 1 => .segment .cs
  | 2 => .segment .ss
  | 3 => .segment .ds
  | 4 => .segment .fs
  | 5 => .segment .gs
  | _ => .absent

/-! ## Operands -/

/-- Whether one element in memory stands for all. -/
def broadcasts : Bool :=
  e.vectorFields.special && e.form.broadcast != 0 && !e.fields.isRegister

/-- The referenced memory, as the operand of a code. -/
def memoryOperand (nextIp : UInt64) (code : OperandCode) : Operand :=
  let bytes := if e.broadcasts then e.form.broadcast else code.memoryBytes e.prefixes e.vectorLength
  .memory (e.reference.operand e.prefixes nextIp bytes)

/-- A register, or the referenced memory. -/
def registerOr (nextIp : UInt64) (code : OperandCode) (r : Register) : Operand :=
  if e.fields.isRegister then .register r else e.memoryOperand nextIp code

/-- An operand, given the address after the instruction and the operand's constants. -/
def operand (nextIp : UInt64) (code : OperandCode) (constants : List UInt64) : Operand :=
  let p := e.prefixes
  match code, constants with
  | .rm s, _ | .rmAs s _, _ => e.registerOr nextIp code (e.generalRegister e.low s)
  | .rmSelector, _ => e.registerOr nextIp code (e.generalRegister e.low .operand)
  | .reg s, _ => .register (e.generalRegister e.middle s)
  | .base s, _ => .register (e.generalRegister e.low s)
  | .low s, _ => .register (e.generalRegister e.opcodeLow s)
  | .extra s, _ => .register (.gpr (.ofNumber (Fin.ofNat 16 e.extraNumber)) (s.width p))
  | .accumulator s, _ => .register (.gpr .ax (s.width p))
  | .fixed r, _ => .register r
  | .memory _, _ | .gather _ _, _ | .strided, _ => e.memoryOperand nextIp code
  | .offset s, [a] =>
    .memory (({ displacement := a } : Reference).operand p nextIp (s.width p).bytes)
  | .immediate encoded used, [c] =>
    .immediate (signExtend (encoded.width p).bytes c &&& (used.width p).mask) (used.width p)
  | .one, _ => .immediate 1 .byte
  | .near encoded target, [c] =>
    .nearTarget ((nextIp + signExtend (encoded.width p).bytes c) &&& (target.width p).mask) (target.width p)
  | .far, [offset, selector] => .farTarget selector offset p.operandWidth
  | .segment, _ => .register (segmentRegister e.fields.mid)
  | .control, _ => .register (.control e.middle.val)
  | .debug, _ => .register (.debug e.middle.val)
  | .floatStack, _ => .register (.floatStack e.fields.low.val)
  | .mmx, _ => .register (.mmx e.fields.mid.val)
  | .mmxRm, _ => e.registerOr nextIp code (.mmx e.fields.low.val)
  | .vector l, _ =>
    .register (e.vectorRegister l (withFifth e.middle.val e.vectorFields.highReg))
  | .vectorExtra l, _ =>
    .register (e.vectorRegister l (withFifth e.extraNumber e.vectorFields.highIndex))
  | .vectorRm l _, _ => e.registerOr nextIp code (e.vectorRegister l e.lowVector)
  | .vectorConstant l, [c] =>
    let n := c.toNat / 16
    .register (e.vectorRegister l (if p.mode == .x64 then n else n % 8))
  | .lowBits, _ => .immediate (e.constants.getLastD 0 &&& 0xf) .byte
  | .opmask, _ => .register (.opmask e.fields.mid.val)
  | .opmaskExtra, _ => .register (.opmask (e.extraNumber % 8))
  | .opmaskRm _, _ => e.registerOr nextIp code (.opmask e.fields.low.val)
  | .tile, _ => .register (.tile e.fields.mid.val)
  | .tileExtra, _ => .register (.tile (e.extraNumber % 8))
  | .tileRm, _ => .register (.tile e.fields.low.val)
  | _, _ => .register .absent

/-- The operands of a list of codes, each with its share of the constants. -/
def operandsOf (nextIp : UInt64) : List OperandCode → List UInt64 → List Operand
  | [], _ => []
  | code :: codes, constants =>
    let n := (code.constantBytes e.prefixes).length
    e.operand nextIp code (constants.take n) :: operandsOf nextIp codes (constants.drop n)

/-- The explicit operands, given the address after the instruction. -/
def operands (nextIp : UInt64) : List Operand :=
  e.operandsOf nextIp e.form.operands e.constants

/-! ## Changes -/

/-- Whether a repeat prefix repeats the instruction, and is not a part of its opcode. -/
def repeated : Bool :=
  e.prefixes.repetition.isSome && !e.form.mandatory

/-- In 64-bit code a write of 32 bits changes all 64. -/
def widened (r : Register) : Register :=
  match e.prefixes.mode, r with
  | .x64, .gpr g .dword => .gpr g .qword
  | _, r => r

/-- The number of stack slots that the nesting level of a stack frame asks for besides the first. -/
def nesting : Nat :=
  match e.constants with
  | [_, level] => level.toNat % 32
  | _ => 0

/-- The registers that an implied change concerns. -/
def impliedRegisters : Implied → List Register
  | .register g s => [.gpr g (s.width e.prefixes)]
  | .named r => [r]
  | .lowByte => [.gpr (.ofNumber e.low) .byte]
  | .count => if e.repeated then [.gpr .cx e.prefixes.addressWidth] else []
  | .mask => [.opmask e.vectorFields.opmask]
  | .stackPointer => [e.prefixes.mode.stackPointer]
  | .frame => if 1 < e.nesting then [e.prefixes.mode.wide .bp] else []
  | _ => []

/-- The `k`-th stack slot of some bytes below the stack pointer. -/
def slot (bytes k : Nat) : MemoryOperand where
  segment := .segment .ss
  base := e.prefixes.mode.stackPointer
  index := .absent
  scale := 1
  displacement := (0 - (k * bytes).toUInt64) &&& e.prefixes.mode.addressMask
  size := bytes

/-- Some bytes at the address in a register. -/
def addressed (s : Segment) (r : Register) (bytes : Nat) : MemoryOperand where
  segment := .segment s
  base := r
  index := .absent
  scale := 1
  displacement := 0
  size := bytes

/-- The memory that an implied change concerns. -/
def impliedStores : Implied → List MemoryOperand
  | .slots s n => (List.range n).map fun k => e.slot (s.width e.prefixes).bytes (k + 1)
  | .frame => (List.range (e.nesting + 1)).map fun k => e.slot e.prefixes.stackWidth.bytes (k + 1)
  | .destination s =>
    [addressed .es (.gpr .di e.prefixes.addressWidth) (if e.repeated then 0 else (s.width e.prefixes).bytes)]
  | .memory s g bytes =>
    [addressed (s.getD (e.prefixes.segment.getD .ds)) (.gpr g e.prefixes.addressWidth) bytes]
  | .target bytes =>
    [addressed .es (.gpr (.ofNumber e.middle) e.prefixes.addressWidth) bytes]
  | _ => []

/-- The registers among operands. -/
def registersOf (operands : List Operand) : List Register :=
  operands.filterMap fun
    | .register r => some r
    | _ => none

/-- The memory among operands. -/
def memoryOf (operands : List Operand) : List MemoryOperand :=
  operands.filterMap fun
    | .memory m => some m
    | _ => none

/-! ## Legality -/

/-- Whether an operand is memory. -/
def isMemory : Operand → Bool
  | .memory _ => true
  | _ => false

/-- Whether the first operand is memory. -/
def writesMemory (operands : List Operand) : Bool :=
  operands.head?.any isMemory

/-- The numbers of the vectors and tiles among operands, vectors of indices included. -/
def vectorNumbers (operands : List Operand) : List Nat :=
  operands.filterMap fun
    | .register (.vector _ n) | .register (.tile n) => some n
    | .memory m =>
      match m.index with
      | .vector _ n => some n
      | _ => none
    | _ => none

/-- Whether the registers differ that have to. -/
def areDistinct (operands : List Operand) : Bool :=
  match e.form.distinct, vectorNumbers operands with
  | .free, _ => true
  | .first, n :: rest => !rest.contains n
  | .all, numbers => numbers.eraseDups.length == numbers.length
  | .first, [] => true

/-- Whether the register that an operand code names in the operand byte exists. -/
def namesRegister (code : OperandCode) : Bool :=
  let p := e.prefixes
  let v := e.vectorFields
  match code with
  | .opmask => !p.rexBit (·.r) && !v.highReg
  | .tile => !p.rexBit (·.r)
  | .tileRm => !p.rexBit (·.b)
  | .tileExtra | .opmaskExtra => e.extraNumber < 8 && !v.highIndex
  | .reg _ | .extra _ => !v.highReg && !v.highIndex
  | .gather _ _ | .strided => e.fields.low == 4 && p.addressWidth != .word
  | _ => true

/-- Whether the fields of a vector prefix mean something to the form. -/
def usesFields (operands : List Operand) : Bool :=
  let v := e.vectorFields
  let codes := e.form.operands
  let gathers := codes.any fun | .gather _ _ => true | _ => false
  (codes.any (·.isExtra) || (v.extra == 0 && (gathers || !v.highIndex)))
    && (e.prefixes.mode == .x64 || !v.highIndex)
    && (v.opmask == 0 || e.form.masking != .never) && (v.opmask != 0 || e.form.masking != .required)
    && (!v.zeroing || (v.opmask != 0 && e.form.masking == .zeroing && !writesMemory operands))
    && (!v.special || e.broadcasts || e.form.rounds v e.fields)

/-- Whether the prefixes, the opcode and the operands go together. -/
def isLegal (operands : List Operand) : Bool :=
  !e.form.reserved && e.form.place.accepts e.fields
    && (!e.prefixes.lock || (e.form.lockable && writesMemory operands))
    && e.form.operands.all e.namesRegister
    && (e.prefixes.vector.isNone || e.usesFields operands)
    && e.areDistinct operands

/-- The number of bytes that a push or a pop moves. -/
def stackBytes : Nat :=
  match e.form.operation with
  | .push | .pop => e.prefixes.stackWidth.bytes
  | _ => 0

end KernelOffsets.Encoding
