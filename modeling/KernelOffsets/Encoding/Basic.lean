/-
Encodings: the parts of one instruction, and how they are read. An encoding is
read in one pass over the front of the bytes, without its address; bytes after
an instruction do not matter to its encoding (`stable_read`).
-/
import KernelOffsets.Encoding.MaskedMap
import KernelOffsets.Encoding.TwoByteMap

namespace KernelOffsets

/-- The parts of one instruction, before its address is known. -/
structure Encoding where
  prefixes : Encoding.Prefixes
  opcode : UInt8
  fields : Encoding.Fields
  form : Encoding.Form
  reference : Encoding.Reference
  /-- The constants in the order in which they are encoded, without a sign. -/
  constants : List UInt64
  deriving DecidableEq, Repr

namespace Encoding

/-- Takes numbers of the given sizes. -/
def readConstants : List Nat → Reader (List UInt64)
  | [] => pure []
  | n :: sizes => do
    let c ← Reader.little n
    return c :: (← readConstants sizes)

/-- The fields that stand for an operand byte where there is none. -/
def noFields : Fields := ⟨3, 0, 0⟩

/-- The index register of a vector of indices. -/
def vectorIndex (p : Prefixes) (l : Lanes) (n : Fin 16) : Register :=
  match p.vector with
  | some v =>
    let width := l.register ((lengthOfBits v.length).getD .zmm)
    .vector width (n.val + if v.highIndex then 16 else 0)
  | none => .vector .xmm n.val

/-- The index register that a vector of indices stands in, if a form has one. -/
def gatherIndex? (p : Prefixes) (form : Form) : Option (Fin 16 → Register) :=
  form.operands.findSome? fun
    | .gather _ l => some (vectorIndex p l)
    | _ => none

/-- What a displacement of one byte counts. -/
def displacementUnit (p : Prefixes) (form : Form) : Nat :=
  match p.vector with
  | none => 1
  | some v =>
    let length := (lengthOfBits v.length).getD .zmm
    if !v.maskable then 1
    else if v.special && form.broadcast != 0 then form.broadcast
    else form.unit.getD ((form.operands.map (·.memoryBytes p length)).foldl max 1)

/-- Takes the reference of an operand byte, if it names memory. -/
def readReference (p : Prefixes) (f : Fields) (form : Form) : Reader Reference :=
  let unit := (displacementUnit p form).toUInt64
  if f.isRegister || form.place == .register then pure {}
  else match gatherIndex? p form with
    | some index =>
      if f.low = 4 && p.addressWidth != .word then Reference.readScaled p f.top index unit
      else Reference.read p f unit
    | none => Reference.read p f unit

/-- Takes the reference and the constants of a form, if there is one. -/
def readForm (p : Prefixes) (op : UInt8) (f : Fields) : Option Form → Reader (Option Encoding)
  | none => pure none
  | some form => do
    let reference ← readReference p f form
    let constants ← readConstants (form.operands.flatMap (·.constantBytes p))
    return some { prefixes := p, opcode := op, fields := f, form, reference, constants }

/-- Takes an operand byte if one follows. -/
def readFields (follows : Bool) : Reader Fields := do
  if follows then return Fields.ofByte (← Reader.byte) else return noFields

/-- Takes the rest of an instruction after its one byte opcode. -/
def readOneByte (p : Prefixes) (op : UInt8) : Reader (Option Encoding) := do
  let f ← readFields (OneByteMap.hasFields p.mode op)
  readForm p op f (OneByteMap.form? p op f)

/-- Takes the rest of an instruction whose opcode stands at its end. -/
def readSuffixed (p : Prefixes) : Reader (Option Encoding) := do
  let f ← readFields true
  let reference ← readReference p f (MediaMap.mmx "")
  let op ← Reader.byte
  return some { prefixes := p, opcode := op, fields := f, form := MediaMap.suffixed op, reference, constants := [] }

/-- Takes the rest of an instruction after the escape byte 0F. -/
def readTwoByte (p : Prefixes) : Reader (Option Encoding) := do
  let op ← Reader.byte
  if op = 0x38 then
    let op ← Reader.byte
    let f ← readFields true
    readForm p op f (TwoByteMap.form38? p op f)
  else if op = 0x3a then
    let op ← Reader.byte
    let f ← readFields true
    readForm p op f (TwoByteMap.form3A? p op f)
  else if op = 0x0f then readSuffixed p
  else
    let f ← readFields (TwoByteMap.hasFields op)
    let f := if TwoByteMap.registerOnly op then { f with top := 3 } else f
    readForm p op f (TwoByteMap.form? p op f)

/-! ## Behind a vector prefix -/

/-- Takes the operand byte and what follows it, given the prefixes before the vector prefix. -/
def readVector (before p : Prefixes) (op : UInt8) (table : List Entry) (bare : Bool) :
    Reader (Option Encoding) := do
  let f ← readFields !bare
  let form := Entry.find? table p op f
  readForm p op f (form.map fun form => { form with reserved := form.reserved || before.clashes })

/-- Takes the rest of an instruction after the byte C5. -/
def readShortVector (p : Prefixes) : Reader (Option Encoding) := do
  let fields ← Reader.byte
  let op ← Reader.byte
  readVector p (p.ofShort fields) op VectorMap.table (op == 0x77)

/-- Takes the rest of an instruction after the byte C4. -/
def readLongVector (p : Prefixes) : Reader (Option Encoding) := do
  let first ← Reader.byte
  let second ← Reader.byte
  let op ← Reader.byte
  match VectorMap.table? first with
  | some table => readVector p (p.ofLong first second) op table (first &&& 0x1f == 1 && op == 0x77)
  | none => return none

/-- Takes the rest of an instruction after the byte 8F. -/
def readExtended (p : Prefixes) : Reader (Option Encoding) := do
  let first ← Reader.byte
  let second ← Reader.byte
  let op ← Reader.byte
  match ExtendedMap.table? first with
  | some table => readVector p (p.ofLong first second) op table false
  | none => return none

/-- Takes the rest of an instruction after the byte 62. -/
def readMasked (p : Prefixes) : Reader (Option Encoding) := do
  let first ← Reader.byte
  let second ← Reader.byte
  let third ← Reader.byte
  let op ← Reader.byte
  let f ← readFields true
  match p.ofMasked? first second third, MaskedMap.table? first with
  | some q, some table =>
    readForm q op f ((Entry.find? table q op f).map fun form =>
      { form with reserved := form.reserved || p.clashes })
  | _, _ => return none

/-- The vector prefixes. -/
inductive VectorPrefix where
  | short | long | extended | masked
  deriving DecidableEq, Repr

/--
Whether a byte starts a vector prefix, given the byte after it: most such bytes
are opcodes in 32-bit code too, where their operand byte does not name a register.
-/
def vectorPrefix? (mode : Bitness) (op next : UInt8) : Option VectorPrefix :=
  let free := mode == .x64 || next &&& 0xc0 == 0xc0
  match op with
  | 0xc5 => if free then some .short else none
  | 0xc4 => if free then some .long else none
  | 0x62 => if free then some .masked else none
  | 0x8f => if 8 ≤ next &&& 0x1f then some .extended else none
  | _ => none

/-- Whether a byte can start a vector prefix. -/
def startsVector (op : UInt8) : Bool :=
  [0xc5, 0xc4, 0x62, 0x8f].contains op

/-- Takes the parts of one instruction; none if an opcode is not defined. -/
def read (mode : Bitness) : Reader (Option Encoding) := do
  let (p, op) ← Prefixes.read mode
  if op = 0x0f then readTwoByte p
  else if startsVector op then
    match vectorPrefix? mode op (← Reader.peek) with
    | some .short => readShortVector p
    | some .long => readLongVector p
    | some .extended => readExtended p
    | some .masked => readMasked p
    | none => readOneByte p op
  else readOneByte p op

/-! ## Bytes after an instruction -/

theorem stable_readConstants : ∀ sizes, Reader.Stable (readConstants sizes)
  | [] => .pure []
  | n :: sizes => .bind (.little n) fun _ => .bind (stable_readConstants sizes) fun _ => .pure _

theorem Reference.stable_readShort (unit : UInt64) : Reader.Stable (readShort unit) :=
  .bind (.signed 1) fun _ => .pure _

theorem Reference.stable_read16 (f : Fields) (unit : UInt64) : Reader.Stable (read16 f unit) := by
  unfold read16
  simp only
  split
  · split
    · exact .bind (.little 2) fun _ => .pure _
    · exact .pure _
  · exact .bind (stable_readShort unit) fun _ => .pure _
  · exact .bind (.little 2) fun _ => .pure _

theorem Reference.stable_readDisplacement (w : Width) (top : Fin 4) (noBase : Bool) (unit : UInt64) :
    Reader.Stable (readDisplacement w top noBase unit) := by
  unfold readDisplacement
  split
  · split
    · exact .bind (.signed 4) fun _ => .pure _
    · exact .pure _
  · exact .bind (stable_readShort unit) fun _ => .pure _
  · exact .bind (.signed 4) fun _ => .pure _

theorem Reference.stable_readScaled (p : Prefixes) (top : Fin 4) (index : Fin 16 → Register) (unit : UInt64) :
    Reader.Stable (readScaled p top index unit) :=
  .bind .byte fun _ => .bind (stable_readDisplacement _ _ _ _) fun _ => .pure _

theorem Reference.stable_readWide (p : Prefixes) (f : Fields) (unit : UInt64) :
    Reader.Stable (readWide p f unit) := by
  unfold readWide
  simp only
  split
  · exact stable_readScaled _ _ _ _
  · split
    · refine .bind (.signed 4) fun _ => ?_
      split <;> exact .pure _
    · exact .bind (stable_readDisplacement _ _ _ _) fun _ => .pure _

theorem Reference.stable_read (p : Prefixes) (f : Fields) (unit : UInt64) :
    Reader.Stable (read p f unit) := by
  unfold read
  split
  · exact stable_read16 f unit
  · exact stable_readWide p f unit

theorem stable_readReference (p : Prefixes) (f : Fields) (form : Form) :
    Reader.Stable (readReference p f form) := by
  unfold readReference
  simp only
  split
  · exact .pure _
  · split
    · split
      · exact Reference.stable_readScaled _ _ _ _
      · exact Reference.stable_read _ _ _
    · exact Reference.stable_read _ _ _

theorem stable_readForm (p : Prefixes) (op : UInt8) (f : Fields) (form : Option Form) :
    Reader.Stable (readForm p op f form) := by
  cases form with
  | none => exact .pure _
  | some form =>
    exact .bind (stable_readReference _ _ _) fun _ => .bind (stable_readConstants _) fun _ => .pure _

theorem stable_readFields (follows : Bool) : Reader.Stable (readFields follows) := by
  unfold readFields
  split
  · exact .bind .byte fun _ => .pure _
  · exact .pure _

theorem stable_readOneByte (p : Prefixes) (op : UInt8) : Reader.Stable (readOneByte p op) :=
  .bind (stable_readFields _) fun _ => stable_readForm _ _ _ _

theorem stable_readSuffixed (p : Prefixes) : Reader.Stable (readSuffixed p) :=
  .bind (stable_readFields _) fun _ => .bind (stable_readReference _ _ _) fun _ =>
    .bind .byte fun _ => .pure _

theorem stable_readTwoByte (p : Prefixes) : Reader.Stable (readTwoByte p) := by
  refine .bind .byte fun op => ?_
  split
  · exact .bind .byte fun _ => .bind (stable_readFields _) fun _ => stable_readForm _ _ _ _
  · split
    · exact .bind .byte fun _ => .bind (stable_readFields _) fun _ => stable_readForm _ _ _ _
    · split
      · exact stable_readSuffixed p
      · exact .bind (stable_readFields _) fun _ => stable_readForm _ _ _ _

theorem stable_readVector (before p : Prefixes) (op : UInt8) (table : List Entry) (bare : Bool) :
    Reader.Stable (readVector before p op table bare) :=
  .bind (stable_readFields _) fun _ => stable_readForm _ _ _ _

theorem stable_readShortVector (p : Prefixes) : Reader.Stable (readShortVector p) :=
  .bind .byte fun _ => .bind .byte fun _ => stable_readVector _ _ _ _ _

theorem stable_readLongVector (p : Prefixes) : Reader.Stable (readLongVector p) := by
  refine .bind .byte fun _ => .bind .byte fun _ => .bind .byte fun _ => ?_
  split
  · exact stable_readVector _ _ _ _ _
  · exact .pure _

theorem stable_readExtended (p : Prefixes) : Reader.Stable (readExtended p) := by
  refine .bind .byte fun _ => .bind .byte fun _ => .bind .byte fun _ => ?_
  split
  · exact stable_readVector _ _ _ _ _
  · exact .pure _

theorem stable_readMasked (p : Prefixes) : Reader.Stable (readMasked p) := by
  refine .bind .byte fun _ => .bind .byte fun _ => .bind .byte fun _ => .bind .byte fun _ =>
    .bind (stable_readFields _) fun _ => ?_
  split
  · exact stable_readForm _ _ _ _
  · exact .pure _

/-- A byte that can start a vector prefix has an operand byte where it is an opcode. -/
theorem readOneByte_nil (p : Prefixes) {op : UInt8} (h : startsVector op = true) : readOneByte p op [] = none := by
  have hfields : OneByteMap.hasFields p.mode op = true := by
    simp only [startsVector, List.contains_iff_mem, List.mem_cons, List.not_mem_nil, or_false] at h
    rcases h with rfl | rfl | rfl | rfl <;> cases p.mode <;> rfl
  rw [readOneByte, hfields]
  rfl

/-- **Bytes after an instruction do not matter to its encoding.** -/
theorem stable_read (mode : Bitness) : Reader.Stable (read mode) := by
  refine .bind (Prefixes.stable_read mode) fun ⟨p, op⟩ => ?_
  simp only
  split
  · exact stable_readTwoByte p
  · split
    · next hstart =>
      refine .peek_bind (fun next => ?_) (fun next => ?_)
      · split
        · exact stable_readShortVector p
        · exact stable_readLongVector p
        · exact stable_readExtended p
        · exact stable_readMasked p
        · exact stable_readOneByte p op
      · cases vectorPrefix? mode op next with
        | none => exact readOneByte_nil p hstart
        | some form => cases form <;> rfl
    · exact stable_readOneByte p op

end Encoding

end KernelOffsets
