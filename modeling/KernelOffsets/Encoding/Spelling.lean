/-
How an instruction is written, worked out from its encoding: which prefixes
become words in front, and in which order and with which marks the operands
follow.
-/
import KernelOffsets.Encoding.Meaning

namespace KernelOffsets.Encoding

variable (e : Encoding)

/-! ## Words in front -/

/-- The segment that is named by a prefix and that is not the usual one. -/
def segmentWord : List Word :=
  match e.prefixes.mode, e.prefixes.segment with
  | _, some .fs => [.segment .fs]
  | _, some .gs => [.segment .gs]
  | .x86, some .ds | .x64, _ | _, none => []
  | .x86, some s => [.segment s]

/-- The address size, if it is not the usual one. -/
def addressWord : List Word :=
  if e.prefixes.addressSize then [.addressSize e.prefixes.addressWidth] else []

/-- The hint of a conditional branch. -/
def hintWord : List Word :=
  match e.prefixes.segment with
  | some .cs => [.segment .cs]
  | some .ds => [.segment .ds]
  | _ => []

/-- Whether the form moves a register or a constant to memory or another register. -/
def isPlainMove : Bool :=
  e.form.operation == .mov && [0x88, 0x89, 0xc6, 0xc7].contains e.opcode

/-- The hint that a lock is taken or given back. -/
def lockHint (operands : List Operand) : List Word :=
  let isExchange := e.form.operation == .xchg
  let locks := e.prefixes.lock && e.form.operation != .unmodelled "Cmpxchg16b"
  if !writesMemory operands || e.form.mandatory then []
  else match e.prefixes.repetition with
    | some .whileNotEqual => if locks || isExchange then [.acquire] else []
    | some .whileEqual => if locks || isExchange || e.isPlainMove then [.release] else []
    | none => []

/-- The word for a repeat prefix before a string instruction that may stop early or not. -/
def repeatWord (stops : Bool) : List Word :=
  match e.prefixes.repetition, stops with
  | none, _ => []
  | some .whileEqual, false => [.repeated]
  | some .whileEqual, true => [.whileEqual]
  | some .whileNotEqual, _ => [.whileNotEqual]

/-- The word for a branch whose bounds are kept. -/
def boundWord : List Word :=
  if e.prefixes.repetition = some .whileNotEqual then [.bound] else []

/-- The words in front of a mnemonic. -/
def words (operands : List Operand) : List Word :=
  let w := e.form.wording
  let lock : List Word := if e.prefixes.lock then [.lock] else []
  let shown := match w.shown with
    | .none => e.lockHint operands ++ lock
    | .addressSize => e.addressWord
    | .segment => e.addressWord ++ e.segmentWord
    | .string source stops => e.addressWord ++ (if source then e.segmentWord else []) ++ e.repeatWord stops
    | .branch => e.boundWord
    | .conditionalBranch => e.hintWord ++ e.boundWord
    | .indirectBranch =>
      (if e.prefixes.segment = some .ds then [.noTrack] else []) ++ e.boundWord
  w.words ++ shown

/-! ## Operands -/

/-- The operands in the order in which they are written. -/
def arranged (operands : List Operand) : List Term :=
  match e.form.wording.arrangement, operands with
  | .reversed, os => os.reverse.map .plain
  | .merged, a :: b :: rest => (if a = b then a :: rest else a :: b :: rest).map .plain
  | .decimal, [.immediate 10 _] => []
  | .shorter, os => os.dropLast.map .plain
  | .followed r, os => os.map .plain ++ [.plain (.register r)]
  | .source pseudo, [_, r] => if pseudo && r = .register (.floatStack 1) then [] else [.plain r]
  | .destination pseudo, r :: _ =>
    if !pseudo then [.destination r]
    else if r = .register (.floatStack 1) then []
    else [.plain r]
  | _, os => os.map .plain

/-- The mnemonic that stands for the last constant, if there is one. -/
def constantMnemonic? : Option String :=
  match e.constants.getLast? with
  | some c => (e.form.wording.byConstant[c.toNat]?).filter (· != "")
  | none => none

/-- The operands without a constant that the mnemonic stands for. -/
def explicit (terms : List Term) : List Term :=
  if e.constantMnemonic?.isSome then terms.dropLast else terms

/-- A destination under a mask. -/
def underMask : List Term → List Term
  | .plain o :: rest =>
    let v := e.vectorFields
    (if v.opmask = 0 then .plain o else .masked o v.opmask v.zeroing) :: rest
  | terms => terms

/-- The number of elements that one element in memory stands for. -/
def broadcastCount : Nat :=
  let bytes := (e.form.operands.map (·.memoryBytes e.prefixes e.vectorLength)).foldl max 0
  bytes / e.form.broadcast

/-- Memory with one element that stands for all. -/
def broadcastTerm (t : Term) : Term :=
  match t with
  | .plain (.memory m) => if e.broadcasts then .broadcast (.memory m) e.broadcastCount else t
  | _ => t

/-- The way of rounding that an instruction on registers asks for. -/
def rounding? : Option Rounding :=
  let v := e.vectorFields
  if !e.form.rounds v e.fields then none
  else if e.form.rounding = .silent then some .silent
  else match v.length with
    | 0 => some .nearest
    | 1 => some .down
    | 2 => some .up
    | _ => some .zero

/-- Whether a term is a constant. -/
def isConstant : Term → Bool
  | .plain (.immediate _ _) => true
  | _ => false

/-- The way of rounding stands behind the last operand that is no constant. -/
def withRounding (terms : List Term) : List Term :=
  match e.rounding? with
  | some r => terms.takeWhile (!isConstant ·) ++ [.rounding r] ++ terms.dropWhile (!isConstant ·)
  | none => terms

/-- How an instruction is written. -/
def spelling (operands : List Operand) : Spelling where
  words := e.words operands
  mnemonic := e.constantMnemonic?.or e.form.wording.mnemonic
  terms := (e.withRounding (e.explicit (e.underMask (e.arranged operands)))).map e.broadcastTerm
  memory := e.form.wording.memory
  address := e.form.wording.address
  distance := e.form.wording.distance

end KernelOffsets.Encoding
