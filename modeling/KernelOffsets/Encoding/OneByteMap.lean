/-
The forms of the opcodes of one byte. `OneByteMap.form?` answers for an
opcode, its operand byte and the prefixes before it; `none` stands for an
opcode that is not defined. Opcodes that are not defined take an operand byte
all the same, which `OneByteMap.hasFields` accounts for.
-/
import KernelOffsets.Encoding.FloatMap

namespace KernelOffsets.Encoding.OneByteMap

/-- The eight two operand instructions that fill the first quarter of the map. -/
def arithmetic : Fin 8 → Operation
  | 0 => .add
  | 1 => .or
  | 2 => .unmodelled "Adc"
  | 3 => .unmodelled "Sbb"
  | 4 => .and
  | 5 => .sub
  | 6 => .xor
  | 7 => .cmp

/-- A two operand instruction; a comparison changes nothing. -/
def arithmeticForm (n : Fin 8) (operands : List OperandCode) : Form :=
  let compares := arithmetic n == .cmp
  { operation := arithmetic n, operands, changed := if compares then 0 else 1, lockable := !compares }

/-- The same with a constant, beside which memory is written with its size. -/
def constantForm (n : Fin 8) (s encoded : Size) : Form :=
  (arithmeticForm n [.rm s, .immediate encoded s]).sized

/-- The eight shifts and rotations. -/
def shift : Fin 8 → Operation
  | 0 => .unmodelled "Rol"
  | 1 => .unmodelled "Ror"
  | 2 => .unmodelled "Rcl"
  | 3 => .unmodelled "Rcr"
  | 4 => .shl
  | 5 => .shr
  | 6 => .unmodelled "Sal"
  | 7 => .sar

/-- A shift or rotation by a count. -/
def shiftForm (n : Fin 8) (s : Size) (count : OperandCode) : Form where
  operation := shift n
  operands := [.rm s, count]
  changed := 1
  wording := { memory := .size }

/-- A push of one operand. -/
def pushForm (operand : OperandCode) : Form where
  operation := .push
  operands := [operand]
  implied := [.stackPointer, .slots .stack 1]
  wording := { memory := .size }

/-- A pop into one operand. -/
def popForm (operand : OperandCode) : Form where
  operation := .pop
  operands := [operand]
  changed := 1
  implied := [.stackPointer]
  wording := { memory := .size }

/-- The words in front of a form of the stack that moves fewer bytes than usual. -/
def stackWords (p : Prefixes) : List Word :=
  if p.stackWidth = .word then [.operandSize .word] else []

/-- A form that exists in 32-bit code only. -/
def only32 (p : Prefixes) (f : Form) : Option Form :=
  match p.mode with
  | .x86 => some f
  | .x64 => none

/-- The first quarter: the two operand instructions, segment pushes and pops, decimal adjustments. -/
def quarter0 (p : Prefixes) (op : UInt8) : Option Form :=
  let n := Fin.ofNat 8 (op.toNat / 8)
  match op &&& 7 with
  | 0 => some (arithmeticForm n [.rm .byte, .reg .byte])
  | 1 => some (arithmeticForm n [.rm .operand, .reg .operand])
  | 2 => some (arithmeticForm n [.reg .byte, .rm .byte])
  | 3 => some (arithmeticForm n [.reg .operand, .rm .operand])
  | 4 => some (arithmeticForm n [.accumulator .byte, .constant])
  | 5 => some (arithmeticForm n [.accumulator .operand, .immediate .capped .operand])
  | _ =>
    match op with
    | 0x06 => only32 p ((pushForm (.fixed (.segment .es))).worded (stackWords p))
    | 0x07 => only32 p ((popForm (.fixed (.segment .es))).worded (stackWords p))
    | 0x0e => only32 p ((pushForm (.fixed (.segment .cs))).worded (stackWords p))
    | 0x16 => only32 p ((pushForm (.fixed (.segment .ss))).worded (stackWords p))
    | 0x17 => only32 p ((popForm (.fixed (.segment .ss))).worded (stackWords p))
    | 0x1e => only32 p ((pushForm (.fixed (.segment .ds))).worded (stackWords p))
    | 0x1f => only32 p ((popForm (.fixed (.segment .ds))).worded (stackWords p))
    | 0x27 => only32 p (.named "Daa" [] 0 [.register .ax .byte])
    | 0x2f => only32 p (.named "Das" [] 0 [.register .ax .byte])
    | 0x37 => only32 p (.named "Aaa" [] 0 [.register .ax .word])
    | 0x3f => only32 p (.named "Aas" [] 0 [.register .ax .word])
    | _ => none

/-- Row 4 and row 5: increments and decrements in 32-bit code, pushes and pops. -/
def rows4and5 (op : UInt8) : Option Form :=
  match op &&& 0xf8 with
  | 0x40 => some { operation := .inc, operands := [.low .operand], changed := 1 }
  | 0x48 => some { operation := .dec, operands := [.low .operand], changed := 1 }
  | 0x50 => some (pushForm (.low .stack))
  | 0x58 => some (popForm (.low .stack))
  | _ => none

/-- The registers that a push or pop of all registers moves, last pushed first. -/
def pushedRegisters : List Gpr :=
  [.di, .si, .bp, .bx, .dx, .cx, .ax]

/-- A string instruction: whether it reads from a segment, whether it can stop early, what it changes. -/
def stringForm (name : String) (source stops : Bool) (implied : List Implied) : Form :=
  (Form.named name [] 0 implied).showing (.string source stops)

/-- Row 6. -/
def row6 (p : Prefixes) (op : UInt8) (f : Fields) : Option Form :=
  match op with
  | 0x60 => only32 p (.named (p.byOperand "Pusha" "Pushad" "") [] 0 [.stackPointer, .slots .operand 8])
  | 0x61 =>
    only32 p (.named (p.byOperand "Popa" "Popad" "") [] 0
      (.stackPointer :: pushedRegisters.map (.register · .operand)))
  | 0x62 => only32 p (Form.named "Bound" [.reg .operand, .memory 0]).onMemory
  | 0x63 =>
    match p.mode with
    | .x86 =>
      if f.isRegister then some (.named "Arpl" [.rm .word, .reg .word] 0 [.lowByte])
      else some (.named "Arpl" [.rm .word, .reg .word] 1)
    | .x64 => some { operation := .movsxd, operands := [.reg .operand, .rm .capped], changed := 1 }
  | 0x68 => some ((pushForm (.immediate .capped .stack)).worded (stackWords p))
  | 0x69 => some ((Form.named "Imul" [.reg .operand, .rm .operand, .immediate .capped .operand] 1).arranged .merged)
  | 0x6a => some ((pushForm (.immediate .byte .stack)).worded (stackWords p))
  | 0x6b => some ((Form.named "Imul" [.reg .operand, .rm .operand, .immediate .byte .operand] 1).arranged .merged)
  | 0x6c =>
    some (stringForm "Insb" false false [.count, .register .di .address, .destination .byte])
  | 0x6d =>
    some (stringForm (p.byOperand "Insw" "Insd" "Insd") false false
      [.count, .register .di .address, .destination .capped])
  | 0x6e => some (stringForm "Outsb" true false [.count, .register .si .address])
  | 0x6f =>
    some (stringForm (p.byOperand "Outsw" "Outsd" "Outsd") true false [.count, .register .si .address])
  | _ => none

/-- The words in front of a short branch that cuts the instruction pointer. -/
def branchWords (p : Prefixes) : List Word :=
  if p.branchWidth = .word then [.operandSize .word] else []

/-- A branch by a displacement of one byte. -/
def shortForm (p : Prefixes) (name : String) (flow : Flow) (implied : List Implied := []) : Form :=
  (Form.branching name flow [.near .byte .branch] implied).worded (branchWords p)

/-- Row 7: conditional branches. -/
def row7 (p : Prefixes) (op : UInt8) : Option Form :=
  let form := shortForm p ("J" ++ conditionSuffix (Fin.ofNat 16 op.toNat)) .conditionalBranch
  some ((form.showing .conditionalBranch).away .short)

/-- An exchange, written with the register first. -/
def exchangeForm (s : Size) : Form where
  operation := .xchg
  operands := [.rm s, .reg s]
  changed := 2
  lockable := true
  wording := { arrangement := .reversed }

/-- A move of a constant. -/
def moveConstant (s encoded : Size) : Form where
  operation := .mov
  operands := [.rm s, .immediate encoded s]
  changed := 1
  wording := { memory := .size }

/-- The words in front of a move between a segment register and memory. -/
def segmentWords (p : Prefixes) (f : Fields) : List Word :=
  match f.isRegister, p.operandWidth with
  | true, _ | false, .dword => []
  | false, w => [.operandSize w]

/-- Row 8: arithmetic with constants, moves, exchanges. -/
def row8 (p : Prefixes) (op : UInt8) (f : Fields) : Option Form :=
  match op with
  | 0x80 => some (constantForm f.mid .byte .byte)
  | 0x81 => some (constantForm f.mid .operand .capped)
  | 0x82 => only32 p (constantForm f.mid .byte .byte)
  | 0x83 => some (constantForm f.mid .operand .byte)
  | 0x84 => some { operation := .test, operands := [.rm .byte, .reg .byte] }
  | 0x85 => some { operation := .test, operands := [.rm .operand, .reg .operand] }
  | 0x86 => some (exchangeForm .byte)
  | 0x87 => some (exchangeForm .operand)
  | 0x88 => some { operation := .mov, operands := [.rm .byte, .reg .byte], changed := 1 }
  | 0x89 => some { operation := .mov, operands := [.rm .operand, .reg .operand], changed := 1 }
  | 0x8a => some { operation := .mov, operands := [.reg .byte, .rm .byte], changed := 1 }
  | 0x8b => some { operation := .mov, operands := [.reg .operand, .rm .operand], changed := 1 }
  | 0x8c =>
    some { operation := .mov, operands := [.rmSelector, .segment], changed := 1, reserved := f.mid > 5,
           wording := { words := segmentWords p f } }
  | 0x8d =>
    some { operation := .lea, operands := [.reg .operand, .memory 0], changed := 1, place := .memory }
  | 0x8e =>
    some { operation := .mov, operands := [.segment, .rmSelector], changed := 1,
           reserved := f.mid > 5 || f.mid == 1, wording := { words := segmentWords p f } }
  | 0x8f => if f.mid = 0 then some (popForm (.rm .stack)) else none
  | _ => none

/-- Row 9: exchanges with the accumulator, widening, flags. -/
def row9 (p : Prefixes) (op : UInt8) : Option Form :=
  match op with
  | 0x90 =>
    if p.rexBit (·.b) then
      some { operation := .xchg, operands := [.low .operand, .accumulator .operand], changed := 2 }
    else if p.repetition = some .whileEqual then some (Form.named "Pause").withPrefix
    else if p.operandWidth = .dword then some { operation := .nop }
    else
      some { operation := .nop, operands := [.accumulator .operand, .accumulator .operand],
             wording := { mnemonic := some "xchg" } }
  | 0x98 =>
    match p.operandWidth with
    | .word => some (.named "Cbw" [] 0 [.named (.highByte .ah)])
    | .qword => some (.named "Cdqe" [] 0 [.register .ax .qword])
    | _ => some (.named "Cwde" [] 0 [.register .ax .dword])
  | 0x99 => some (.named (p.byOperand "Cwd" "Cdq" "Cqo") [] 0 [.register .dx .operand])
  | 0x9a => only32 p (.branching "Call" .call [.far])
  | 0x9b => some (.named "Wait")
  | 0x9c => some (.named (p.byStack "Pushf" "Pushfd" "Pushfq") [] 0 [.stackPointer, .slots .stack 1])
  | 0x9d => some (.named (p.byStack "Popf" "Popfd" "Popfq") [] 0 [.stackPointer])
  | 0x9e => some (.named "Sahf")
  | 0x9f => some (.named "Lahf" [] 0 [.named (.highByte .ah)])
  | _ => some { operation := .xchg, operands := [.low .operand, .accumulator .operand], changed := 2 }

/-- A move at an address that stands alone. -/
def fixedForm (p : Prefixes) (operands : List OperandCode) : Form :=
  let wording : Wording := match p.mode, p.addressWidth with
    | .x64, .dword => { words := [.addressSize .dword] }
    | .x64, w => { address := some w }
    | .x86, .word => { address := some .word }
    | .x86, _ => {}
  { operation := .mov, operands, changed := 1, wording }

/-- Row A: moves at fixed addresses, string instructions, tests of the accumulator. -/
def rowA (p : Prefixes) (op : UInt8) : Option Form :=
  match op with
  | 0xa0 => some (fixedForm p [.accumulator .byte, .offset .byte])
  | 0xa1 => some (fixedForm p [.accumulator .operand, .offset .operand])
  | 0xa2 => some (fixedForm p [.offset .byte, .accumulator .byte])
  | 0xa3 => some (fixedForm p [.offset .operand, .accumulator .operand])
  | 0xa4 =>
    some (stringForm "Movsb" true false
      [.count, .register .di .address, .register .si .address, .destination .byte])
  | 0xa5 =>
    some (stringForm (p.byOperand "Movsw" "Movsd" "Movsq") true false
      [.count, .register .di .address, .register .si .address, .destination .operand])
  | 0xa6 => some (stringForm "Cmpsb" true true [.count, .register .si .address, .register .di .address])
  | 0xa7 =>
    some (stringForm (p.byOperand "Cmpsw" "Cmpsd" "Cmpsq") true true
      [.count, .register .si .address, .register .di .address])
  | 0xa8 => some { operation := .test, operands := [.accumulator .byte, .constant] }
  | 0xa9 => some { operation := .test, operands := [.accumulator .operand, .immediate .capped .operand] }
  | 0xaa => some (stringForm "Stosb" false false [.count, .register .di .address, .destination .byte])
  | 0xab =>
    some (stringForm (p.byOperand "Stosw" "Stosd" "Stosq") false false
      [.count, .register .di .address, .destination .operand])
  | 0xac => some (stringForm "Lodsb" true false [.register .ax .byte, .count, .register .si .address])
  | 0xad =>
    some (stringForm (p.byOperand "Lodsw" "Lodsd" "Lodsq") true false
      [.register .ax .operand, .count, .register .si .address])
  | 0xae => some (stringForm "Scasb" false true [.count, .register .di .address])
  | _ =>
    some (stringForm (p.byOperand "Scasw" "Scasd" "Scasq") false true [.count, .register .di .address])

/-- Row B: moves of constants to registers. -/
def rowB (op : UInt8) : Option Form :=
  if op < 0xb8 then
    some { operation := .mov, operands := [.low .byte, .constant], changed := 1 }
  else
    some { operation := .mov, operands := [.low .operand, .immediate .operand .operand], changed := 1 }

/-- A far pointer load, which exists in 32-bit code only. -/
def farLoad (p : Prefixes) (name : String) (s : Segment) : Option Form :=
  only32 p (Form.named name [.reg .operand, .memory 0] 1 [.named (.segment s)]).onMemory

/-- Row C: shifts by constants, returns, moves of constants, stack frames, interrupts. -/
def rowC (p : Prefixes) (op : UInt8) (f : Fields) : Option Form :=
  match op with
  | 0xc0 => some (shiftForm f.mid .byte (.constant))
  | 0xc1 => some (shiftForm f.mid .operand (.constant))
  | 0xc2 => some (.branching "Ret" .ret [.immediate .word .word] [.stackPointer])
  | 0xc3 => some (.branching "Ret" .ret [] [.stackPointer])
  | 0xc4 => farLoad p "Les" .es
  | 0xc5 => farLoad p "Lds" .ds
  | 0xc6 =>
    if f.mid = 0 then some (moveConstant .byte .byte)
    else if f.toByte = 0xf8 then some (.branching "Xabort" .transaction [.constant])
    else none
  | 0xc7 =>
    if f.mid = 0 then some (moveConstant .operand .capped)
    else if f.toByte = 0xf8 then
      some (.branching "Xbegin" .transaction [.near .capped .pointer] [.register .ax .dword])
    else none
  | 0xc8 =>
    some ((Form.named "Enter" [.immediate .word .word, .constant] 0
      [.stackPointer, .register .bp .stack, .frame]).worded (stackWords p))
  | 0xc9 =>
    some ((Form.named "Leave" [] 0 [.stackPointer, .register .bp .stack]).worded (stackWords p))
  | 0xca => some (.branching "Retf" .ret [.immediate .word .word] [.stackPointer])
  | 0xcb => some (.branching "Retf" .ret [] [.stackPointer])
  | 0xcc => some (.branching "Int3" .interrupt)
  | 0xcd => some (.branching "Int" .interrupt [.constant])
  | 0xce => only32 p (.branching "Into" .interrupt)
  | _ =>
    let implied := match p.mode with
      | .x86 => [.stackPointer]
      | .x64 => [.named (.segment .ss), .stackPointer]
    some (.branching (p.byOperand "Iret" "Iretd" "Iretq") .ret [] implied)

/-- Row D, first half: shifts by one and by a register, decimal adjustments, table look-up. -/
def rowD (p : Prefixes) (op : UInt8) (f : Fields) : Option Form :=
  match op with
  | 0xd0 => some (shiftForm f.mid .byte .one)
  | 0xd1 => some (shiftForm f.mid .operand .one)
  | 0xd2 => some (shiftForm f.mid .byte (.fixed (.gpr .cx .byte)))
  | 0xd3 => some (shiftForm f.mid .operand (.fixed (.gpr .cx .byte)))
  | 0xd4 => only32 p ((Form.named "Aam" [.constant] 0 [.register .ax .word]).arranged .decimal)
  | 0xd5 => only32 p ((Form.named "Aad" [.constant] 0 [.register .ax .word]).arranged .decimal)
  | 0xd6 => only32 p (.named "Salc" [] 0 [.register .ax .byte])
  | 0xd7 => some ((Form.named "Xlatb" [] 0 [.register .ax .byte]).showing .segment)
  | _ => none

/-- The name of the branch on an empty count register. -/
def emptyCountName (p : Prefixes) : String :=
  match p.addressWidth with
  | .word => "Jcxz"
  | .qword => "Jrcxz"
  | _ => "Jecxz"

/-- A loop, written with its count register if that is not the usual one. -/
def loopForm (p : Prefixes) (name : String) : Form :=
  let form := shortForm p name .conditionalBranch [.register .cx .address]
  if p.addressSize then form.arranged (.followed (.gpr .cx p.addressWidth)) else form

/-- Row E: loops, ports, direct calls and jumps. -/
def rowE (p : Prefixes) (op : UInt8) : Option Form :=
  let port : OperandCode := .fixed (.gpr .dx .word)
  let number : OperandCode := .constant
  match op with
  | 0xe0 => some (loopForm p "Loopne")
  | 0xe1 => some (loopForm p "Loope")
  | 0xe2 => some (loopForm p "Loop")
  | 0xe3 => some (shortForm p (emptyCountName p) .conditionalBranch)
  | 0xe4 => some (.named "In" [.accumulator .byte, number] 1)
  | 0xe5 => some (.named "In" [.accumulator .capped, number] 1)
  | 0xe6 => some (.named "Out" [number, .accumulator .byte])
  | 0xe7 => some (.named "Out" [number, .accumulator .capped])
  | 0xe8 =>
    some ((Form.branching "Call" .call [.near .distance .branch] [.stackPointer, .slots .pointer 1]).showing
      .branch)
  | 0xe9 => some ((Form.branching "Jmp" .unconditionalBranch [.near .distance .branch]).showing .branch)
  | 0xea => only32 p (.branching "Jmp" .unconditionalBranch [.far])
  | 0xeb => some (((shortForm p "Jmp" .unconditionalBranch).showing .branch).away .short)
  | 0xec => some (.named "In" [.accumulator .byte, port] 1)
  | 0xed => some (.named "In" [.accumulator .capped, port] 1)
  | 0xee => some (.named "Out" [port, .accumulator .byte])
  | _ => some (.named "Out" [port, .accumulator .capped])

/-- Multiplications and divisions by the operand byte, of bytes. -/
def byteProduct (name : String) : Form :=
  (Form.named name [.rm .byte] 0 [.register .ax .word]).sized

/-- An instruction that changes its only operand. -/
def changeForm (o : Operation) (s : Size) : Form where
  operation := o
  operands := [.rm s]
  changed := 1
  lockable := true
  wording := { memory := .size }

/-- Group 3: tests, complements, multiplications and divisions. -/
def group3 (n : Fin 8) (s : Size) : Form :=
  let product (name : String) : Form :=
    if s = .byte then byteProduct name
    else (Form.named name [.rm s] 0 [.register .dx s, .register .ax s]).sized
  let quotient (name : String) : Form :=
    if s = .byte then byteProduct name
    else (Form.named name [.rm s] 0 [.register .ax s, .register .dx s]).sized
  let encoded : Size := if s = .byte then .byte else .capped
  match n with
  | 0 | 1 => { operation := .test, operands := [.rm s, .immediate encoded s], wording := { memory := .size } }
  | 2 => changeForm .not s
  | 3 => changeForm .neg s
  | 4 => product "Mul"
  | 5 => product "Imul"
  | 6 => quotient "Div"
  | 7 => quotient "Idiv"

/-- A call or jump through a register or memory. -/
def indirectForm (name : String) (flow : Flow) (implied : List Implied) : Form :=
  ((Form.branching name flow [.rm .branch] implied).sized).showing .indirectBranch

/-- A call or jump through a far pointer in memory. -/
def farForm (p : Prefixes) (name : String) (flow : Flow) : Form :=
  let usual : Width := p.mode.pointerWidth
  let offset := if p.operandWidth = usual then none else some p.operandWidth
  { (Form.branching name flow [.memory 0]).onMemory with
    wording := { memory := .far offset, shown := .indirectBranch } }

/-- Group 5: increments, indirect calls and jumps, pushes of memory. -/
def group5 (p : Prefixes) (f : Fields) : Option Form :=
  match f.mid with
  | 0 => some (changeForm .inc .operand)
  | 1 => some (changeForm .dec .operand)
  | 2 => some (indirectForm "Call" .indirectCall [.stackPointer, .slots .pointer 1])
  | 3 => some (farForm p "Call" .indirectCall)
  | 4 => some (indirectForm "Jmp" .indirectBranch [])
  | 5 => some (farForm p "Jmp" .indirectBranch)
  | 6 => some (pushForm (.rm .stack))
  | _ => none

/-- Row F: flags, and the groups that share an opcode. -/
def rowF (p : Prefixes) (op : UInt8) (f : Fields) : Option Form :=
  match op with
  | 0xf1 => some (.branching "Int1" .interrupt)
  | 0xf4 => some (.named "Hlt")
  | 0xf5 => some (.named "Cmc")
  | 0xf6 => some (group3 f.mid .byte)
  | 0xf7 => some (group3 f.mid .operand)
  | 0xf8 => some (.named "Clc")
  | 0xf9 => some (.named "Stc")
  | 0xfa => some (.named "Cli")
  | 0xfb => some (.named "Sti")
  | 0xfc => some (.named "Cld")
  | 0xfd => some (.named "Std")
  | 0xfe =>
    match f.mid with
    | 0 => some (changeForm .inc .byte)
    | 1 => some (changeForm .dec .byte)
    | _ => none
  | 0xff => group5 p f
  | _ => none

/-- The form of an opcode with its operand byte. -/
def form? (p : Prefixes) (op : UInt8) (f : Fields) : Option Form :=
  if op < 0x40 then quarter0 p op
  else if op < 0x60 then rows4and5 op
  else if op < 0x70 then row6 p op f
  else if op < 0x80 then row7 p op
  else if op < 0x90 then row8 p op f
  else if op < 0xa0 then row9 p op
  else if op < 0xb0 then rowA p op
  else if op < 0xc0 then rowB op
  else if op < 0xd0 then rowC p op f
  else if op < 0xd8 then rowD p op f
  else if op < 0xe0 then FloatMap.form? p op f
  else if op < 0xf0 then rowE p op
  else rowF p op f

/-- The opcodes that are defined in 32-bit code only and take no operand byte there. -/
def only32Opcodes : List UInt8 :=
  [0x06, 0x07, 0x0e, 0x16, 0x17, 0x1e, 0x1f, 0x27, 0x2f, 0x37, 0x3f,
   0x60, 0x61, 0x9a, 0xce, 0xd4, 0xd5, 0xd6, 0xea]

/-- Whether an operand byte follows an opcode. -/
def hasFields (mode : Bitness) (op : UInt8) : Bool :=
  if mode == .x64 && only32Opcodes.contains op then true
  else if op < 0x40 then op &&& 7 < 4
  else if op < 0x80 then [0x62, 0x63, 0x69, 0x6b].contains op
  else if op < 0x90 then true
  else if op < 0xc0 then false
  else if op < 0xd0 then [0xc0, 0xc1, 0xc4, 0xc5, 0xc6, 0xc7].contains op
  else if op < 0xe0 then op < 0xd4 || 0xd8 ≤ op
  else [0xf6, 0xf7, 0xfe, 0xff].contains op

end KernelOffsets.Encoding.OneByteMap
