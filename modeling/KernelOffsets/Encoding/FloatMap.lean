/-
The forms of the opcodes D8 to DF: the floating point stack. On memory the
middle field of the operand byte selects the instruction; on registers the
whole operand byte does. An operand byte on registers that selects nothing
takes one byte more.
-/
import KernelOffsets.Encoding.Form

namespace KernelOffsets.Encoding.FloatMap

/-- The top of the stack. -/
def top : OperandCode := .fixed (.floatStack 0)

/-- The eight two operand instructions, by the middle field. -/
def arithmetic : Fin 8 → String
  | 0 => "add"
  | 1 => "mul"
  | 2 => "com"
  | 3 => "comp"
  | 4 => "sub"
  | 5 => "subr"
  | 6 => "div"
  | 7 => "divr"

/-- An instruction on the top of the stack and a number in memory, which is only read. -/
def load (name : String) (bytes : Nat) : Form :=
  (Form.named name [.memory bytes]).sized

/-- A store of the top of the stack. -/
def store (name : String) (bytes : Nat) : Form :=
  (Form.named name [.memory bytes] 1).sized

/-- A load of a part of the unit's state. -/
def stateLoad (name : String) (bytes : Nat) : Form :=
  .named name [.memory bytes]

/-- A store of a part of the unit's state. -/
def stateStore (name : String) (bytes : Nat) : Form :=
  .named name [.memory bytes] 1

/-- The words in front of an instruction that moves the environment in its 16-bit layout. -/
def environmentWords (p : Prefixes) : List Word :=
  if p.operandSize then [.operandSize .word] else []

/-- The number of bytes of the environment. -/
def environmentBytes (p : Prefixes) : Nat :=
  if p.operandSize then 14 else 28

/-- The number of bytes of the environment and all stack registers. -/
def stateBytes (p : Prefixes) : Nat :=
  environmentBytes p + 80

/-- The forms on memory. -/
def memoryForm? (p : Prefixes) (op : UInt8) (n : Fin 8) : Option Form :=
  match op, n with
  | 0xd8, n => some (load ("F" ++ arithmetic n) 4)
  | 0xd9, 0 => some (load "Fld" 4)
  | 0xd9, 2 => some (store "Fst" 4)
  | 0xd9, 3 => some (store "Fstp" 4)
  | 0xd9, 4 => some ((stateLoad "Fldenv" (environmentBytes p)).worded (environmentWords p))
  | 0xd9, 5 => some (stateLoad "Fldcw" 2)
  | 0xd9, 6 => some ((stateStore "Fnstenv" (environmentBytes p)).worded (environmentWords p))
  | 0xd9, 7 => some (stateStore "Fnstcw" 2)
  | 0xda, n => some (load ("Fi" ++ arithmetic n) 4)
  | 0xdb, 0 => some (load "Fild" 4)
  | 0xdb, 1 => some (store "Fisttp" 4)
  | 0xdb, 2 => some (store "Fist" 4)
  | 0xdb, 3 => some (store "Fistp" 4)
  | 0xdb, 5 => some (load "Fld" 10)
  | 0xdb, 7 => some (store "Fstp" 10)
  | 0xdc, n => some (load ("F" ++ arithmetic n) 8)
  | 0xdd, 0 => some (load "Fld" 8)
  | 0xdd, 1 => some (store "Fisttp" 8)
  | 0xdd, 2 => some (store "Fst" 8)
  | 0xdd, 3 => some (store "Fstp" 8)
  | 0xdd, 4 => some ((stateLoad "Frstor" (stateBytes p)).worded (environmentWords p))
  | 0xdd, 6 => some ((stateStore "Fnsave" (stateBytes p)).worded (environmentWords p))
  | 0xdd, 7 => some (stateStore "Fnstsw" 2)
  | 0xde, n => some (load ("Fi" ++ arithmetic n) 2)
  | 0xdf, 0 => some (load "Fild" 2)
  | 0xdf, 1 => some (store "Fisttp" 2)
  | 0xdf, 2 => some (store "Fist" 2)
  | 0xdf, 3 => some (store "Fistp" 2)
  | 0xdf, 4 => some (stateLoad "Fbld" 10)
  | 0xdf, 5 => some (load "Fild" 8)
  | 0xdf, 6 => some (stateStore "Fbstp" 10)
  | 0xdf, 7 => some (store "Fistp" 8)
  | _, _ => none

/-- An instruction on the top of the stack and another register. -/
def fromRegister (name : String) (pseudo : Bool := false) : Option Form :=
  some ((Form.named name [top, .floatStack] 1).arranged (.source pseudo))

/-- A comparison of the top of the stack with another register. -/
def comparison (name : String) : Option Form :=
  some ((Form.named name [top, .floatStack]).arranged (.source true))

/-- An instruction that leaves its result in another register than the top. -/
def toRegister (name : String) (pseudo : Bool) : Option Form :=
  some ((Form.named name [.floatStack, top] 1).arranged (.destination pseudo))

/-- An exchange with the top of the stack. -/
def exchange : Option Form :=
  some ((Form.named "Fxch" [top, .floatStack] 2).arranged (.source true))

/-- A copy of the top of the stack to another register. -/
def copy (name : String) : Option Form :=
  some ((Form.named name [.floatStack, top] 1).arranged .shorter)

/-- An instruction on one register. -/
def single (name : String) : Option Form :=
  some (.named name [.floatStack])

/-- The instructions of D9 on the top of the stack alone, by the operand byte from E0 on. -/
def constants : List String :=
  ["Fchs", "Fabs", "", "", "Ftst", "Fxam", "", "",
   "Fld1", "Fldl2t", "Fldl2e", "Fldpi", "Fldlg2", "Fldln2", "Fldz", "",
   "F2xm1", "Fyl2x", "Fptan", "Fpatan", "Fxtract", "Fprem1", "Fdecstp", "Fincstp",
   "Fprem", "Fyl2xp1", "Fsqrt", "Fsincos", "Frndint", "Fscale", "Fsin", "Fcos"]

/-- The control instructions of DB, by the operand byte from E0 on. -/
def controls : List String :=
  ["Fneni", "Fndisi", "Fnclex", "Fninit", "Fnsetpm"]

/-- The name at some position of a list, where there is one. -/
def nameAt (names : List String) (n : Nat) : Option Form :=
  match names[n]? with
  | none | some "" => none
  | some name => some (.named name)

/-- The arithmetic instructions in their order for results in another register than the top. -/
def reversedArithmetic : Fin 8 → String
  | 4 => "subr"
  | 5 => "sub"
  | 6 => "divr"
  | 7 => "div"
  | n => arithmetic n

/-- The forms on registers. -/
def registerForm? (op : UInt8) (f : Fields) : Option Form :=
  match op, f.mid with
  | 0xd8, 2 => comparison "Fcom"
  | 0xd8, 3 => comparison "Fcomp"
  | 0xd8, n => fromRegister ("F" ++ arithmetic n)
  | 0xd9, 0 => single "Fld"
  | 0xd9, 1 => exchange
  | 0xd9, 2 => if f.low = 0 then some (.named "Fnop") else none
  | 0xd9, 3 => copy "Fstpnce"
  | 0xd9, n => nameAt constants ((n.val - 4) * 8 + f.low.val)
  | 0xda, 0 => fromRegister "Fcmovb"
  | 0xda, 1 => fromRegister "Fcmove"
  | 0xda, 2 => fromRegister "Fcmovbe"
  | 0xda, 3 => fromRegister "Fcmovu"
  | 0xda, 5 => if f.low = 1 then some (.named "Fucompp") else none
  | 0xdb, 0 => fromRegister "Fcmovnb"
  | 0xdb, 1 => fromRegister "Fcmovne"
  | 0xdb, 2 => fromRegister "Fcmovnbe"
  | 0xdb, 3 => fromRegister "Fcmovnu"
  | 0xdb, 4 => nameAt controls f.low.val
  | 0xdb, 5 => comparison "Fucomi"
  | 0xdb, 6 => comparison "Fcomi"
  | 0xdc, 2 => comparison "Fcom"
  | 0xdc, 3 => comparison "Fcomp"
  | 0xdc, n => toRegister ("F" ++ reversedArithmetic n) false
  | 0xdd, 0 => single "Ffree"
  | 0xdd, 1 => exchange
  | 0xdd, 2 => copy "Fst"
  | 0xdd, 3 => copy "Fstp"
  | 0xdd, 4 => comparison "Fucom"
  | 0xdd, 5 => comparison "Fucomp"
  | 0xde, 2 => comparison "Fcomp"
  | 0xde, 3 => if f.low = 1 then some (.named "Fcompp") else none
  | 0xde, n => toRegister ("F" ++ reversedArithmetic n ++ "p") true
  | 0xdf, 0 => single "Ffreep"
  | 0xdf, 1 => exchange
  | 0xdf, 2 => copy "Fstp"
  | 0xdf, 3 => copy "Fstp"
  | 0xdf, 4 => if f.low = 0 then some (.named "Fnstsw" [.fixed (.gpr .ax .word)] 1) else none
  | 0xdf, 5 => comparison "Fucomip"
  | 0xdf, 6 => comparison "Fcomip"
  | _, _ => none

/-- What stands for an operand byte on registers that selects nothing. -/
def undefined : Form :=
  { Form.named "" [.constant] with reserved := true }

/-- The form of an opcode with its operand byte. -/
def form? (p : Prefixes) (op : UInt8) (f : Fields) : Option Form :=
  if f.isRegister then some ((registerForm? op f).getD undefined) else memoryForm? p op f.mid

end KernelOffsets.Encoding.FloatMap
