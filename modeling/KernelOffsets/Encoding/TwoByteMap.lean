/-
The forms of the opcodes behind the escape byte 0F, and of the two further
maps behind 0F 38 and 0F 3A. System instructions and instructions on general
registers are here; the vector instructions come from `MediaMap`.
-/
import KernelOffsets.Encoding.MediaMap
import KernelOffsets.Encoding.OneByteMap

namespace KernelOffsets.Encoding.TwoByteMap

open OneByteMap (pushForm popForm only32 stackWords branchWords)

/-- A form that exists in 64-bit code only. -/
def only64 (p : Prefixes) (f : Form) : Option Form :=
  match p.mode with
  | .x86 => none
  | .x64 => some f

/-- A form that allows no mandatory prefix. -/
def plain (p : Prefixes) (f : Form) : Option Form :=
  if p.mandatory = .none then some f else none

/-- One of four forms, by the mandatory prefix. -/
def byPrefix (p : Prefixes) (bare operandSize whileEqual whileNotEqual : Option Form) : Option Form :=
  match p.mandatory with
  | .none => bare
  | .operandSize => operandSize.map .withPrefix
  | .whileEqual => whileEqual.map .withPrefix
  | .whileNotEqual => whileNotEqual.map .withPrefix

/-- The low and the high half of a result in two registers. -/
def highLow : List Implied := [.register .ax .dword, .register .dx .dword]

/-- The four registers that the answers of the processor about itself go to. -/
def answers : List Implied :=
  [.register .ax .dword, .register .bx .dword, .register .cx .dword, .register .dx .dword]

/-! ## Row 0: system instructions -/

/-- The words in front of a move of a descriptor table register in its 16-bit layout. -/
def tableWords (p : Prefixes) : List Word :=
  match p.mode with
  | .x86 => if p.operandSize then [.operandSize .word] else []
  | .x64 => []

/-- A move of a descriptor table register to or from memory. -/
def tableForm (p : Prefixes) (name : String) (changed : Nat) : Form :=
  let bytes := match p.mode with
    | .x86 => 6
    | .x64 => 10
  (Form.named name [.memory bytes] changed).worded (tableWords p)

/-- A selector or the machine status word, which is only read. -/
def selector (name : String) : Form :=
  .named name [.rmAs .word 2]

/-- Group 6: local descriptor table, task register, segment checks. -/
def group6 (p : Prefixes) (f : Fields) : Option Form :=
  match f.mid with
  | 0 => some (.named "Sldt" [.rmSelector] 1)
  | 1 => some (.named "Str" [.rmSelector] 1)
  | 2 => some (selector "Lldt")
  | 3 => some (selector "Ltr")
  | 4 => some (selector "Verr")
  | 5 => some (selector "Verw")
  | 6 => if p.mandatory = .whileNotEqual then only64 p (selector "Lkgs").withPrefix else none
  | _ => none

/-- The rows of group 7 whose operand byte is the last part of the opcode: without a mandatory prefix. -/
def group7Bare (p : Prefixes) (byte : UInt8) : Option Form :=
  let addressed (name : String) : Form := (Form.named name).showing .addressSize
  match byte with
  | 0xc0 => some (.named "Enclv" [] 0 answers)
  | 0xc1 => some (.branching "Vmcall" .call)
  | 0xc2 => some (.branching "Vmlaunch" .call)
  | 0xc3 => some (.branching "Vmresume" .call)
  | 0xc4 => some (.named "Vmxoff")
  | 0xc5 => some (.named "Pconfig" [] 0 answers)
  | 0xc6 => some (.named "Wrmsrns")
  | 0xc7 => only64 p (.named "Pbndkb" [] 0 [.register .ax .dword])
  | 0xc8 => some (addressed "Monitor")
  | 0xc9 => some (.named "Mwait")
  | 0xca => some (.named "Clac")
  | 0xcb => some (.named "Stac")
  | 0xcf => some (.named "Encls" [] 0 answers)
  | 0xd0 => some (.named "Xgetbv" [] 0 highLow)
  | 0xd1 => some (.named "Xsetbv")
  | 0xd4 => some (.named "Vmfunc")
  | 0xd5 => some (.branching "Xend" .transaction)
  | 0xd6 => some (.named "Xtest")
  | 0xd7 => some (.named "Enclu" [] 0 answers)
  | 0xe8 => some (.named "Serialize")
  | 0xee => some (.named "Rdpkru" [] 0 highLow)
  | 0xef => some (.named "Wrpkru")
  | 0xfa => some (addressed "Monitorx")
  | 0xfb => some (.named "Mwaitx")
  | 0xfc => some ((Form.named "Clzero" [] 0 [.memory none .ax 64]).showing .addressSize)
  | 0xfd => some (.named "Rdpru" [] 0 highLow)
  | 0xfe => some (addressed "Invlpgb")
  | 0xff => some (.named "Tlbsync")
  | _ => none

/-- The same behind 66. -/
def group7With66 (p : Prefixes) (byte : UInt8) : Option Form :=
  match byte with
  | 0xcc => only64 p (.branching "Tdcall" .call)
  | 0xcd => only64 p (.branching "Seamret" .call)
  | 0xce => only64 p (.named "Seamops" [] 0 [.register .ax .qword])
  | 0xcf => only64 p (.branching "Seamcall" .call)
  | _ => none

/-- The same behind F3. -/
def group7WithF3 (p : Prefixes) (byte : UInt8) : Option Form :=
  match byte with
  | 0xc6 => only64 p (.named "Wrmsrlist" [] 0 [.register .cx .qword])
  | 0xca => only64 p (.branching "Eretu" .ret)
  | 0xd9 => some (.branching "Vmgexit" .call)
  | 0xe8 => some (.named "Setssbsy")
  | 0xea => some (.named "Saveprevssp")
  | 0xec => only64 p (.branching "Uiret" .ret)
  | 0xed => only64 p (.named "Testui")
  | 0xee => only64 p (.named "Clui")
  | 0xef => only64 p (.named "Stui")
  | 0xfa => some (.named "Mcommit")
  | 0xfd => only64 p (.named "Rmpquery" [] 0 [.register .ax .qword, .register .cx .qword, .register .dx .qword])
  | 0xfe => only64 p (.named "Rmpadjust" [] 0 [.register .ax .qword])
  | 0xff => only64 p (.named "Psmash" [] 0 [.register .ax .qword])
  | _ => none

/-- The same behind F2. -/
def group7WithF2 (p : Prefixes) (byte : UInt8) : Option Form :=
  match byte with
  | 0xc6 => only64 p (.named "Rdmsrlist" [] 0 [.register .cx .qword])
  | 0xca => only64 p (.branching "Erets" .ret)
  | 0xd9 => some (.branching "Vmgexit" .call)
  | 0xe8 => some (.named "Xsusldtrk")
  | 0xe9 => some (.named "Xresldtrk")
  | 0xfe => only64 p (.named "Rmpupdate" [] 0 [.register .ax .qword])
  | 0xff => some (.named "Pvalidate" [] 0 [.register .ax .dword])
  | _ => none

/-- The instructions of group 7 on registers. -/
def group7Register (p : Prefixes) (f : Fields) : Option Form :=
  let addressed (name : String) : Form := (Form.named name).showing .addressSize
  let byte := f.toByte
  match byte with
  | 0xd8 => some ((Form.branching "Vmrun" .call).showing .addressSize)
  | 0xda => some (addressed "Vmload")
  | 0xdb => some (addressed "Vmsave")
  | 0xdc => some (.named "Stgi")
  | 0xdd => some (.named "Clgi")
  | 0xde => some (.branching "Skinit" .ret)
  | 0xdf => some (addressed "Invlpga")
  | 0xf8 => only64 p (.named "Swapgs")
  | 0xf9 => some (.named "Rdtscp" [] 0 [.register .ax .dword, .register .cx .dword, .register .dx .dword])
  | _ =>
    match f.mid with
    | 4 => some (.named "Smsw" [.rmSelector] 1)
    | 6 => some (selector "Lmsw")
    | _ =>
      if byte = 0xd9 && p.repetition.isNone then some (.branching "Vmmcall" .call)
      else byPrefix p (group7Bare p byte) (group7With66 p byte) (group7WithF3 p byte) (group7WithF2 p byte)

/-- Group 7: descriptor tables, machine status, and the instructions without an operand. -/
def group7 (p : Prefixes) (f : Fields) : Option Form :=
  if f.isRegister then group7Register p f
  else match f.mid with
    | 0 => some (tableForm p "Sgdt" 1)
    | 1 => some (tableForm p "Sidt" 1)
    | 2 => some (tableForm p "Lgdt" 0)
    | 3 => some (tableForm p "Lidt" 0)
    | 4 => some (.named "Smsw" [.rmSelector] 1)
    | 5 =>
      if p.mandatory = .whileEqual then some (Form.named "Rstorssp" [.memory 8] 1).withPrefix else none
    | 6 => some (selector "Lmsw")
    | 7 => some (.named "Invlpg" [.memory 0])

/-- A hint on memory, or an instruction that does nothing. -/
def hint (f : Fields) (names : List (Nat × String)) : Option Form :=
  match f.isRegister, names.lookup f.mid.val with
  | false, some name => some (.named name [.memory 0])
  | _, _ => some (.named "Reservednop" [.rm .operand, .reg .operand])

/-- Row 0. -/
def row0 (p : Prefixes) (op : UInt8) (f : Fields) : Option Form :=
  match op with
  | 0x00 => group6 p f
  | 0x01 => group7 p f
  | 0x02 => some (.named "Lar" [.reg .operand, .rmSelector] 1)
  | 0x03 => some (.named "Lsl" [.reg .operand, .rmSelector] 1)
  | 0x05 => some (.branching "Syscall" .call)
  | 0x06 => some (.named "Clts")
  | 0x07 =>
    some (.branching (if p.wide then "Sysretq" else "Sysret") .ret []
      [.named (.segment .cs), .named (.segment .ss)])
  | 0x08 => some (.named "Invd")
  | 0x09 =>
    if p.repetition = some .whileEqual then some (Form.named "Wbnoinvd").withPrefix
    else some (.named "Wbinvd")
  | 0x0b => some (.branching "Ud2" .exception)
  | 0x0d =>
    hint f ((List.range 8).map fun n =>
      (n, if n = 1 || n = 3 then "Prefetchw" else if n = 2 then "Prefetchwt1" else "Prefetch"))
  | 0x0e => some (.named "Femms")
  | _ => none

/-! ## Rows 1 to 3: hints, control registers, model specific registers -/

/-- The hints of 0F 18. -/
def prefetches (p : Prefixes) : List (Nat × String) :=
  let code := match p.mode with
    | .x86 => []
    | .x64 => [(6, "Prefetchit1"), (7, "Prefetchit0")]
  [(0, "Prefetchnta"), (1, "Prefetcht0"), (2, "Prefetcht1"), (3, "Prefetcht2")] ++ code

/-- The end of an indirect branch, and the reading of the shadow stack pointer. -/
def branchEnd (p : Prefixes) (f : Fields) : Option Form :=
  match f.isRegister, f.mid, f.low with
  | true, 1, _ =>
    some (Form.named (if p.wide then "Rdsspq" else "Rdsspd") [.base .general] 1).withPrefix
  | true, 7, 2 => some (Form.named "Endbr64").withPrefix
  | true, 7, 3 => some (Form.named "Endbr32").withPrefix
  | _, _, _ => hint f []

/-- Row 1: hints. -/
def row1 (p : Prefixes) (op : UInt8) (f : Fields) : Option Form :=
  match op with
  | 0x18 => hint f (prefetches p)
  | 0x19 | 0x1a | 0x1b | 0x1d => hint f []
  | 0x1c => hint f (if p.mandatory = .none then [(0, "Cldemote")] else [])
  | 0x1e => if p.mandatory = .whileEqual then branchEnd p f else hint f []
  | 0x1f =>
    if f.mid = 0 then some { operation := .nop, operands := [.rm .operand], wording := { memory := .size } }
    else hint f []
  | _ => none

/-- The control registers that exist. -/
def controlRegisters : List Nat := [0, 2, 3, 4, 8]

/-- Whether the middle field names a control register. -/
def namesControl (p : Prefixes) (f : Fields) : Bool :=
  controlRegisters.contains (extended f.mid (p.rexBit (·.r))).val

/-- Whether the middle field names a debug register. -/
def namesDebug (p : Prefixes) (_ : Fields) : Bool :=
  !p.rexBit (·.r)

/-- Row 2: control and debug registers. -/
def row2 (p : Prefixes) (op : UInt8) (f : Fields) : Option Form :=
  let mov (operands : List OperandCode) : Form := { operation := .mov, operands, changed := 1 }
  match op with
  | 0x20 => if namesControl p f then some (mov [.base .pointer, .control]) else none
  | 0x21 => if namesDebug p f then some (mov [.base .pointer, .debug]) else none
  | 0x22 => if namesControl p f then some (mov [.control, .base .pointer]) else none
  | 0x23 => if namesDebug p f then some (mov [.debug, .base .pointer]) else none
  | _ => none

/-- Row 3: model specific registers, time stamp, fast system calls. -/
def row3 (p : Prefixes) (op : UInt8) : Option Form :=
  match op with
  | 0x30 => some (.named "Wrmsr")
  | 0x31 => some (.named "Rdtsc" [] 0 highLow)
  | 0x32 => some (.named "Rdmsr" [] 0 highLow)
  | 0x33 => some (.named "Rdpmc" [] 0 highLow)
  | 0x34 => some (.branching "Sysenter" .call)
  | 0x35 => some (.branching (if p.wide then "Sysexitq" else "Sysexit") .ret [] [.stackPointer])
  | 0x37 => some (.named "Getsec")
  | _ => none

/-! ## Rows 4 to 9: conditions -/

/-- Row 4: conditional moves. -/
def row4 (op : UInt8) : Option Form :=
  some (.named ("Cmov" ++ conditionSuffix (Fin.ofNat 16 op.toNat)) [.reg .operand, .rm .operand] 1)

/-- Row 7: fields of a virtual machine. -/
def row7 (p : Prefixes) (op : UInt8) : Option Form :=
  match op with
  | 0x78 => plain p (.named "Vmread" [.rm .pointer, .reg .pointer] 1)
  | 0x79 => plain p (.named "Vmwrite" [.reg .pointer, .rm .pointer])
  | _ => none

/-- Row 8: conditional branches. -/
def row8 (op : UInt8) : Option Form :=
  let name := "J" ++ conditionSuffix (Fin.ofNat 16 op.toNat)
  some (((Form.branching name .conditionalBranch [.near .distance .branch]).showing .conditionalBranch).away
    .near)

/-- Row 9: conditional byte stores. -/
def row9 (op : UInt8) : Option Form :=
  some (.named ("Set" ++ conditionSuffix (Fin.ofNat 16 op.toNat)) [.rm .byte] 1)

/-! ## Rows A to C: bits, exchanges, processor state -/

/-- A bit test that changes the bit, in memory under a lock prefix if asked for. -/
def bitChange (name : String) (index : OperandCode) : Form :=
  (Form.named name [.rm .operand, index] 1).locking

/-- A double shift. -/
def doubleShift (name : String) (count : OperandCode) : Form :=
  .named name [.rm .operand, .reg .operand, count] 1

/-- Group 15 on registers: fences, segment bases, waiting. -/
def group15Register (p : Prefixes) (n : Fin 8) : Option Form :=
  match p.mandatory, n with
  | .none, 5 => some (.named "Lfence")
  | .none, 6 => some (.named "Mfence")
  | .none, 7 => some (.named "Sfence")
  | .operandSize, 6 => some (Form.named "Tpause" [.base .general]).withPrefix
  | .whileEqual, 0 => only64 p (Form.named "Rdfsbase" [.base .general] 1).withPrefix
  | .whileEqual, 1 => only64 p (Form.named "Rdgsbase" [.base .general] 1).withPrefix
  | .whileEqual, 2 => only64 p (Form.named "Wrfsbase" [.base .general]).withPrefix
  | .whileEqual, 3 => only64 p (Form.named "Wrgsbase" [.base .general]).withPrefix
  | .whileEqual, 4 => some (Form.named "Ptwrite" [.base .general]).withPrefix
  | .whileEqual, 5 => some (Form.named (if p.wide then "Incsspq" else "Incsspd") [.base .general]).withPrefix
  | .whileEqual, 6 => some (Form.named "Umonitor" [.base .address]).withPrefix
  | .whileNotEqual, 6 => some (Form.named "Umwait" [.base .general]).withPrefix
  | _, _ => none

/-- Group 15 on memory: processor state, cache lines. -/
def group15Memory (p : Prefixes) (n : Fin 8) : Option Form :=
  let name (s : String) : String := if p.wide then s ++ "64" else s
  match p.mandatory, n with
  | .none, 0 => some (.named (name "Fxsave") [.memory 512] 1)
  | .none, 1 => some (.named (name "Fxrstor") [.memory 512])
  | .none, 2 => some (.named "Ldmxcsr" [.memory 4])
  | .none, 3 => some (.named "Stmxcsr" [.memory 4] 1)
  | .none, 4 => some (.named (name "Xsave") [.memory 0] 1)
  | .none, 5 => some (.named (name "Xrstor") [.memory 0])
  | .none, 6 => some (.named (name "Xsaveopt") [.memory 0] 1)
  | .none, 7 => some (.named "Clflush" [.memory 0])
  | .operandSize, 6 => some (Form.named "Clwb" [.memory 0]).withPrefix
  | .operandSize, 7 => some (Form.named "Clflushopt" [.memory 0]).withPrefix
  | .whileEqual, 4 => some ((Form.named "Ptwrite" [.rm .general]).withPrefix).sized
  | .whileEqual, 6 => some (Form.named "Clrssbsy" [.memory 8] 1).withPrefix
  | _, _ => none

/-- An instruction that works on memory at addresses in registers, and counts them on. -/
def engineForm (name : String) (implied : List Implied) : Form :=
  (Form.named name [] 0 implied).showing .addressSize

/-- The hashes and the long product behind 0F A6, by their whole operand byte. -/
def hashForm? (f : Fields) : Option Form :=
  let hash (name : String) : Form :=
    engineForm name
      [.memory (some .es) .di 0, .register .si .address, .register .ax .address, .register .cx .address]
  match f.toByte with
  | 0xc0 => some (engineForm "Montmul" [.register .ax .dword, .register .dx .dword, .register .cx .address])
  | 0xc8 => some (hash "Xsha1")
  | 0xd0 => some (hash "Xsha256")
  | 0xd8 => some (hash "Xsha512_alt")
  | 0xe0 => some (hash "Xsha512")
  | 0xe8 => some (hash "Ccs_hash")
  | _ => none

/-- The ciphers and the other random bytes behind 0F A7, by their whole operand byte. -/
def cipherForm? (f : Fields) : Option Form :=
  let cipher (name : String) : Form :=
    engineForm name
      [.memory (some .es) .di 0, .register .si .address, .register .di .address, .register .cx .address]
  match f.toByte with
  | 0xc8 => some (cipher "Xcryptecb")
  | 0xd0 => some (cipher "Xcryptcbc")
  | 0xd8 => some (cipher "Xcryptctr")
  | 0xe0 => some (cipher "Xcryptcfb")
  | 0xe8 => some (cipher "Xcryptofb")
  | 0xf0 => some (cipher "Ccs_encrypt")
  | 0xf8 =>
    some (engineForm "Xstore_alt"
      [.memory (some .es) .di 0, .register .di .address, .register .ax .dword])
  | _ => none

/-- The random bytes of 0F A7 C0, which need no prefix, and the ciphers beside them. -/
def randomForm? (p : Prefixes) (f : Fields) : Option Form :=
  if f.toByte = 0xc0 then
    some (engineForm "Xstore"
      [.memory (some .es) .di 0, .count, .register .di .address, .register .ax .dword])
  else byPrefix p none none (cipherForm? f) none

/-- Row A: segment pushes and pops, bit tests, double shifts, hashes and ciphers, products. -/
def rowA (p : Prefixes) (op : UInt8) (f : Fields) : Option Form :=
  let count : OperandCode := .fixed (.gpr .cx .byte)
  match op with
  | 0xa0 => some ((pushForm (.fixed (.segment .fs))).worded (stackWords p))
  | 0xa1 => some ((popForm (.fixed (.segment .fs))).worded (stackWords p))
  | 0xa2 =>
    some (.named "Cpuid" [] 0
      [.register .cx .dword, .register .dx .dword, .register .bx .dword, .register .ax .dword])
  | 0xa3 => some { operation := .bt, operands := [.rm .operand, .reg .operand] }
  | 0xa4 => some (doubleShift "Shld" .constant)
  | 0xa5 => some (doubleShift "Shld" count)
  | 0xa6 => byPrefix p none none (hashForm? f) none
  | 0xa7 => randomForm? p f
  | 0xa8 => some ((pushForm (.fixed (.segment .gs))).worded (stackWords p))
  | 0xa9 => some ((popForm (.fixed (.segment .gs))).worded (stackWords p))
  | 0xaa => some (.branching "Rsm" .ret)
  | 0xab => some (bitChange "Bts" (.reg .operand))
  | 0xac => some (doubleShift "Shrd" .constant)
  | 0xad => some (doubleShift "Shrd" count)
  | 0xae => if f.isRegister then group15Register p f.mid else group15Memory p f.mid
  | 0xaf => some (.named "Imul" [.reg .operand, .rm .operand] 1)
  | _ => none

/-- A compare and exchange: the operand or the accumulator changes. -/
def compareExchange (s : Size) : Form :=
  (Form.named "Cmpxchg" [.rm s, .reg s] 1 [.register .ax s]).locking

/-- A far pointer load. -/
def farLoad (name : String) (s : Segment) : Option Form :=
  some (Form.named name [.reg .operand, .memory 0] 1 [.named (.segment s)]).onMemory

/-- Group 8: bit tests with a constant bit number. -/
def group8 (f : Fields) : Option Form :=
  match f.mid with
  | 4 => some { operation := .bt, operands := [.rm .operand, .constant], wording := { memory := .size } }
  | 5 => some (bitChange "Bts" .constant).sized
  | 6 => some (bitChange "Btr" .constant).sized
  | 7 => some (bitChange "Btc" .constant).sized
  | _ => none

/-- A bit scan; the repeat prefix selects the counting form. -/
def bitScan (p : Prefixes) (scan count : String) : Option Form :=
  if p.repetition = some .whileEqual then
    some (Form.named count [.reg .operand, .rm .operand] 1).withPrefix
  else some (.named scan [.reg .operand, .rm .operand] 1)

/-- A widening move, beside which memory is written with its size. -/
def wideningForm (o : Operation) (s : Size) : Form where
  operation := o
  operands := [.reg .operand, .rm s]
  changed := 1
  wording := { memory := .size }

/-- Row B: compare and exchange, widening moves, bit tests and scans. -/
def rowB (p : Prefixes) (op : UInt8) (f : Fields) : Option Form :=
  match op with
  | 0xb0 => some (compareExchange .byte)
  | 0xb1 => some (compareExchange .operand)
  | 0xb2 => farLoad "Lss" .ss
  | 0xb3 => some (bitChange "Btr" (.reg .operand))
  | 0xb4 => farLoad "Lfs" .fs
  | 0xb5 => farLoad "Lgs" .gs
  | 0xb6 => some (wideningForm .movzx .byte)
  | 0xb7 => some (wideningForm .movzx .word)
  | 0xb8 =>
    if p.repetition = some .whileEqual then
      some (Form.named "Popcnt" [.reg .operand, .rm .operand] 1).withPrefix
    else none
  | 0xb9 => some (.branching "Ud1" .exception [.reg .operand, .rm .operand])
  | 0xba => group8 f
  | 0xbb => some (bitChange "Btc" (.reg .operand))
  | 0xbc => bitScan p "Bsf" "Tzcnt"
  | 0xbd => bitScan p "Bsr" "Lzcnt"
  | 0xbe => some (wideningForm .movsx .byte)
  | _ => some (wideningForm .movsx .word)

/-- Group 9 on memory: wide compare and exchange, compacted state, pointers of virtual machines. -/
def group9Memory (p : Prefixes) (n : Fin 8) : Option Form :=
  let name (s : String) : String := if p.wide then s ++ "64" else s
  match n with
  | 1 =>
    let implied (s : Size) : List Implied := [.register .ax s, .register .dx s]
    if p.wide then some (Form.named "Cmpxchg16b" [.memory 16] 1 (implied .qword)).locking
    else some (Form.named "Cmpxchg8b" [.memory 8] 1 (implied .dword)).locking
  | 3 => plain p (.named (name "Xrstors") [.memory 0])
  | 4 => plain p (.named (name "Xsavec") [.memory 0] 1)
  | 5 => plain p (.named (name "Xsaves") [.memory 0] 1)
  | 6 =>
    let pointer (name : String) : Option Form := some (.named name [.memory 8])
    byPrefix p (pointer "Vmptrld") (pointer "Vmclear") (pointer "Vmxon") none
  | 7 => plain p (.named "Vmptrst" [.memory 8] 1)
  | _ => none

/-- Group 9 on registers: random numbers, processor number, interrupts of user code. -/
def group9Register (p : Prefixes) (n : Fin 8) : Option Form :=
  match p.repetition, n with
  | some .whileEqual, 6 => only64 p (Form.named "Senduipi" [.base .qword]).withPrefix
  | some .whileEqual, 7 => some (Form.named "Rdpid" [.base .pointer] 1).withPrefix
  | none, 6 => some (.named "Rdrand" [.base .operand] 1)
  | none, 7 => some (.named "Rdseed" [.base .operand] 1)
  | _, _ => none

/-- An exchange and add. -/
def exchangeAdd (s : Size) : Form :=
  (Form.named "Xadd" [.rm s, .reg s] 2).locking

/-- Row C: exchange and add, stores past the cache, byte swaps. -/
def rowC (p : Prefixes) (op : UInt8) (f : Fields) : Option Form :=
  match op with
  | 0xc0 => some (exchangeAdd .byte)
  | 0xc1 => some (exchangeAdd .operand)
  | 0xc3 => plain p (Form.named "Movnti" [.rm .general, .reg .general] 1).onMemory
  | 0xc7 => if f.isRegister then group9Register p f.mid else group9Memory p f.mid
  | _ => if op < 0xc8 then none else some (.named "Bswap" [.low .operand] 1)

/-! ## The maps -/

/-- The form of an opcode behind 0F that is not a vector instruction. -/
def general? (p : Prefixes) (op : UInt8) (f : Fields) : Option Form :=
  match op &&& 0xf0 with
  | 0x00 => row0 p op f
  | 0x10 => row1 p op f
  | 0x20 => row2 p op f
  | 0x30 => row3 p op
  | 0x40 => row4 op
  | 0x70 => row7 p op
  | 0x80 => row8 op
  | 0x90 => row9 op
  | 0xa0 => rowA p op f
  | 0xb0 => rowB p op f
  | 0xc0 => rowC p op f
  | 0xf0 => if op = 0xff then some (.branching "Ud0" .exception [.reg .operand, .rm .operand]) else none
  | _ => none

/-- The form of an opcode behind 0F with its operand byte. -/
def form? (p : Prefixes) (op : UInt8) (f : Fields) : Option Form :=
  match general? p op f with
  | some form => some form
  | none => Entry.find? MediaMap.table p op f

/-- The opcodes behind 0F that take no operand byte, the branches and byte swaps apart. -/
def bareOpcodes : List UInt8 :=
  [0x05, 0x06, 0x07, 0x08, 0x09, 0x0b, 0x0e, 0x30, 0x31, 0x32, 0x33, 0x34, 0x35, 0x37, 0x77,
   0xa0, 0xa1, 0xa2, 0xa8, 0xa9, 0xaa]

/-- Whether an operand byte follows an opcode behind 0F. -/
def hasFields (op : UInt8) : Bool :=
  !(op &&& 0xf0 == 0x80 || (0xc8 ≤ op && op < 0xd0) || bareOpcodes.contains op)

/-- Whether the operand byte of an opcode names a register whatever its top field says. -/
def registerOnly (op : UInt8) : Bool :=
  0x20 ≤ op && op < 0x24

/-- The form of an opcode behind 0F 38 with its operand byte. -/
def form38? (p : Prefixes) (op : UInt8) (f : Fields) : Option Form :=
  Entry.find? MediaMap.table38 p op f

/-- The form of an opcode behind 0F 3A with its operand byte. -/
def form3A? (p : Prefixes) (op : UInt8) (f : Fields) : Option Form :=
  Entry.find? MediaMap.table3A p op f

end KernelOffsets.Encoding.TwoByteMap
