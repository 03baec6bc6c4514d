/-
What the opcode maps promise of their forms (`Form.isUniform`). An arithmetic
instruction names registers and memory of one size only, every other
instruction with a rule of its own names operands of sizes that fit together,
and its rule writes whatever the form says that it changes. Most of them are
in the map of one byte; every other row is walked through to see that it has
none or that they fit.
-/
import KernelOffsets.Encoding.TwoByteMap
import KernelOffsets.Encoding.MaskedMap

namespace KernelOffsets

/-- Whether an operation has its place in the first quarter of the opcode map of one byte. -/
def Operation.isArithmetic : Operation → Bool
  | add | or | and | sub | xor | cmp => true
  | _ => false

/-- What can stand at an operand of an operation with a rule of its own. -/
inductive Role where
  /-- A general register. -/
  | register
  /-- A general register or memory. -/
  | place
  /-- The same, or a constant. -/
  | value
  /-- The same, or the constant one, which is not encoded. -/
  | count
  deriving DecidableEq, Repr

/-- The sizes and roles of the operands of such an operation, one after the other; none for all other operations. -/
def Operation.shapes : Operation → List (List (Encoding.Size × Role))
  | .mov | .add | .sub | .and | .or | .xor =>
    [[(.byte, .place), (.byte, .value)], [(.operand, .place), (.operand, .value)]]
  | .xchg => [[(.byte, .place), (.byte, .register)], [(.operand, .place), (.operand, .register)]]
  | .movzx | .movsx | .movsxd =>
    [[(.operand, .place), (.byte, .place)], [(.operand, .place), (.word, .place)],
      [(.operand, .place), (.capped, .place)]]
  | .shl | .shr | .sar => [[(.byte, .place), (.byte, .count)], [(.operand, .place), (.byte, .count)]]
  | .inc | .dec | .neg | .not => [[(.byte, .place)], [(.operand, .place)]]
  | .push => [[(.stack, .value)]]
  | .pop => [[(.stack, .place)]]
  | _ => []

/-- The number of operands, from the first on, that the rule of an operation writes; none if it has no rule. -/
def Operation.destinations? : Operation → Option Nat
  | .mov | .movzx | .movsx | .movsxd | .lea | .add | .sub | .and | .or | .xor | .shl | .shr | .sar
  | .inc | .dec | .neg | .not | .pop => some 1
  | .xchg => some 2
  | .push | .nop | .cmp | .test | .bt => some 0
  | .invalid | .unmodelled _ => none

/-- The branches that count a register down. -/
def Operation.isLoop (o : Operation) : Bool :=
  ["Loop", "Loope", "Loopne"].any fun name => o == .unmodelled name

namespace Encoding

/-- Whether an operand code stands for a general register or memory of a size, or for a constant. -/
def OperandCode.isOf (s : Size) : OperandCode → Bool
  | rm t | reg t | accumulator t => t == s
  | immediate _ _ => true
  | _ => false

/-- Whether an operand code stands for a general register of a size. -/
def OperandCode.isRegister (s : Size) : OperandCode → Bool
  | reg t | low t | accumulator t => t == s
  | fixed (.gpr _ .byte) => s == .byte
  | _ => false

/-- Whether an operand code stands for memory of a size, or for either. -/
def OperandCode.isReference (s : Size) : OperandCode → Bool
  | rm t | offset t => t == s
  | _ => false

/-- Whether an operand code stands for a general register or memory of a size. -/
def OperandCode.isPlace (s : Size) (code : OperandCode) : Bool :=
  code.isRegister s || code.isReference s

/-- Whether an operand code stands for a constant that is encoded and used at a size. -/
def OperandCode.isConstant (s : Size) : OperandCode → Bool
  | immediate _ used => used == s
  | _ => false

/-- Whether an operand code can have a role at a size. -/
def OperandCode.plays (s : Size) (role : Role) (code : OperandCode) : Bool :=
  match role with
  | .register => code.isRegister s
  | .place => code.isPlace s
  | .value => code.isPlace s || code.isConstant s
  | .count => s == .byte && (code.isPlace s || code.isConstant s || code == one)

/-- Whether operand codes have given sizes and roles; only the last one can be a constant. -/
def OperandCode.haveShape : List (Size × Role) → List OperandCode → Bool
  | [(s, role)], [code] => code.plays s role
  | (s, .place) :: shape, code :: codes => code.isPlace s && haveShape shape codes
  | _, _ => false

/-- Whether an operand code stands for a register that is not general. -/
def OperandCode.isSpecial : OperandCode → Bool
  | segment | control | debug => true
  | fixed r => r.gpr?.isNone
  | _ => false

/-- Whether the operands of a form have a shape of its operation, unless it is about other registers. -/
def Form.isShaped (form : Form) : Bool :=
  form.operation.shapes.isEmpty || form.operands.any OperandCode.isSpecial
    || (form.broadcast == 0 && form.operation.shapes.any (OperandCode.haveShape · form.operands))

/-- Whether a rule writes the register of an implied change, if there is one. -/
def Implied.isWrittenBy (o : Operation) : Implied → Bool
  | stackPointer => o == .push || o == .pop
  | slots _ _ => true
  | _ => false

/-- Whether the second of two operands is always memory. -/
def OperandCode.areReferring : List OperandCode → Bool
  | [_, memory _] => true
  | _ => false

/--
Whether a rule writes all registers that a form changes. A form that branches
has no such rule and changes nothing, unless it is a loop.
-/
def Form.isTracked (form : Form) : Bool :=
  match form.operation.destinations? with
  | some n =>
    decide (form.changed ≤ n) && form.implied.all (·.isWrittenBy form.operation)
      && (form.operation != .lea || OperandCode.areReferring form.operands)
  | none =>
    match form.flow with
    | .conditionalBranch =>
      form.changed == 0 && form.implied == if form.operation.isLoop then [.register .cx .address] else []
    | .unconditionalBranch | .indirectBranch => form.changed == 0 && form.implied == []
    | _ => true

/--
Whether the operands of a form have one size if it is arithmetic, and sizes
that its operation allows, and its changes are tracked.
-/
def Form.isUniform (form : Form) : Bool :=
  ((!form.operation.isArithmetic
    || (form.broadcast == 0 && [Size.byte, .operand].any fun s => form.operands.all (·.isOf s)))
  && form.isShaped) && form.isTracked

/-- Every form that a map may answer with is uniform. -/
def Uniform (form : Option Form) : Prop :=
  form.all Form.isUniform = true

theorem Uniform.none : Uniform none := rfl

theorem Uniform.ite {c : Prop} [Decidable c] {a b : Option Form} (ha : Uniform a) (hb : Uniform b) :
    Uniform (if c then a else b) := by
  split
  · exact ha
  · exact hb

theorem Uniform.of_find? {table : List Entry} (h : table.all (·.form.isUniform) = true) (p : Prefixes)
    (op : UInt8) (f : Fields) : Uniform (Entry.find? table p op f) := by
  have row : ∀ e ∈ table.filter (·.fits p op f), e.form.isUniform = true := by
    intro e he
    exact List.all_eq_true.1 h e (List.mem_filter.1 he).1
  unfold Uniform Entry.find?
  simp only
  split
  · next e he => exact row e (List.mem_of_find?_eq_some he)
  · cases hf : table.filter (·.fits p op f) with
    | nil => rfl
    | cons e rest => exact row e (hf ▸ List.mem_cons_self)

/-! ## The map of one byte -/

theorem isShaped_of_haveShape {form : Form} {shape : List (Size × Role)} (hb : form.broadcast = 0)
    (hs : form.operation.shapes = [] ∨ shape ∈ form.operation.shapes)
    (h : OperandCode.haveShape shape form.operands = true) : form.isShaped = true := by
  unfold Form.isShaped
  rcases hs with hs | hs
  · simp [hs]
  · have hany : form.operation.shapes.any (OperandCode.haveShape · form.operands) = true :=
      List.any_eq_true.2 ⟨shape, hs, h⟩
    rw [hb, hany]
    exact Bool.or_true _

theorem isUniform_arithmeticForm (n : Fin 8) {operands : List OperandCode} {s : Size}
    (hs : s ∈ [Size.byte, .operand]) (h : operands.all (·.isOf s) = true)
    (hsized : OperandCode.haveShape [(s, .place), (s, .value)] operands = true) :
    (OneByteMap.arithmeticForm n operands).isUniform = true := by
  have hany : ([Size.byte, .operand].any fun s => operands.all (·.isOf s)) = true :=
    List.any_eq_true.2 ⟨s, hs, h⟩
  have hshapes : ∀ s ∈ [Size.byte, .operand], ∀ n : Fin 8, (OneByteMap.arithmetic n).shapes = [] ∨
      [(s, .place), (s, .value)] ∈ (OneByteMap.arithmetic n).shapes := by decide
  have htracked : (OneByteMap.arithmeticForm n operands).isTracked = true := by
    match n with
    | 0 | 1 | 2 | 3 | 4 | 5 | 6 | 7 => rfl
  refine Bool.and_eq_true_iff.2 ⟨Bool.and_eq_true_iff.2 ⟨?_, ?_⟩, htracked⟩
  case refine_2 => exact isShaped_of_haveShape rfl (hshapes s hs n) hsized
  simp only [OneByteMap.arithmeticForm, hany]
  exact Bool.or_true _

theorem Uniform.only32 {form : Form} (h : form.isUniform = true) (p : Prefixes) :
    Uniform (OneByteMap.only32 p form) := by
  unfold OneByteMap.only32
  cases p.mode with
  | x86 => exact h
  | x64 => rfl

/-- The first six columns are arithmetic, the other two hold what was left over. -/
theorem uniform_quarter0 (p : Prefixes) (op : UInt8) : Uniform (OneByteMap.quarter0 p op) := by
  unfold OneByteMap.quarter0
  dsimp only
  split
  case h_7 =>
    split
    case h_12 => rfl
    all_goals exact .only32 rfl p
  case h_1 | h_3 | h_5 => exact isUniform_arithmeticForm _ (s := .byte) (by decide) rfl rfl
  case h_2 | h_4 | h_6 => exact isUniform_arithmeticForm _ (s := .operand) (by decide) rfl rfl

theorem uniform_rows4and5 (op : UInt8) : Uniform (OneByteMap.rows4and5 op) := by
  unfold OneByteMap.rows4and5
  split <;> rfl

theorem uniform_row6 (p : Prefixes) (op : UInt8) (f : Fields) : Uniform (OneByteMap.row6 p op f) := by
  unfold OneByteMap.row6
  repeat' split
  all_goals first | rfl | exact .only32 rfl p

theorem uniform_row8 (p : Prefixes) (op : UInt8) (f : Fields) : Uniform (OneByteMap.row8 p op f) := by
  have constants : ∀ {s : Size} (encoded : Size), s ∈ [Size.byte, .operand] →
      (OneByteMap.constantForm f.mid s encoded).isUniform = true := by
    intro s encoded hs
    exact isUniform_arithmeticForm f.mid hs (by cases s <;> rfl) (by cases s <;> rfl)
  unfold OneByteMap.row8
  split
  case h_1 | h_2 | h_4 => exact constants _ (by decide)
  case h_3 => exact .only32 (constants _ (by decide)) p
  case h_16 => split <;> rfl
  all_goals rfl

theorem uniform_row9 (p : Prefixes) (op : UInt8) : Uniform (OneByteMap.row9 p op) := by
  unfold OneByteMap.row9
  repeat' split
  all_goals first | rfl | exact .only32 rfl p

theorem uniform_rowA (p : Prefixes) (op : UInt8) : Uniform (OneByteMap.rowA p op) := by
  unfold OneByteMap.rowA
  split <;> rfl

theorem uniform_rowB (op : UInt8) : Uniform (OneByteMap.rowB op) := by
  unfold OneByteMap.rowB
  split <;> rfl

theorem uniform_shiftForm (n : Fin 8) {s : Size} (hs : s ∈ [Size.byte, .operand]) {count : OperandCode}
    (hc : count.plays .byte .count = true) : Uniform (some (OneByteMap.shiftForm n s count)) := by
  have hnone : ∀ n : Fin 8, (OneByteMap.shift n).isArithmetic = false := by decide
  have hshapes : ∀ s ∈ [Size.byte, .operand], ∀ n : Fin 8, (OneByteMap.shift n).shapes = [] ∨
      [(s, .place), (.byte, .count)] ∈ (OneByteMap.shift n).shapes := by decide
  have hsizes : OperandCode.haveShape [(s, .place), (.byte, .count)] [.rm s, count] = true := by
    exact Bool.and_eq_true_iff.2 ⟨beq_self_eq_true s, hc⟩
  have htracked : (OneByteMap.shiftForm n s count).isTracked = true := by
    match n with
    | 0 | 1 | 2 | 3 | 4 | 5 | 6 | 7 => rfl
  refine Bool.and_eq_true_iff.2 ⟨Bool.and_eq_true_iff.2 ⟨?_, ?_⟩, htracked⟩
  case refine_2 => exact isShaped_of_haveShape rfl (hshapes s hs n) hsizes
  simp only [OneByteMap.shiftForm, hnone]
  rfl

theorem uniform_rowC (p : Prefixes) (op : UInt8) (f : Fields) : Uniform (OneByteMap.rowC p op f) := by
  unfold OneByteMap.rowC OneByteMap.farLoad
  repeat' split
  all_goals first | rfl | exact .only32 rfl p | exact uniform_shiftForm _ (by decide) rfl

theorem uniform_rowD (p : Prefixes) (op : UInt8) (f : Fields) : Uniform (OneByteMap.rowD p op f) := by
  unfold OneByteMap.rowD
  split
  all_goals first | rfl | exact .only32 rfl p | exact uniform_shiftForm _ (by decide) rfl

theorem uniform_rowE (p : Prefixes) (op : UInt8) : Uniform (OneByteMap.rowE p op) := by
  have loops : ∀ name, (Operation.unmodelled name).isLoop = true → Uniform (some (OneByteMap.loopForm p name)) := by
    intro name hloop
    have htracked : (OneByteMap.loopForm p name).isTracked = true := by
      unfold OneByteMap.loopForm
      dsimp only
      split <;> simp [Form.isTracked, OneByteMap.shortForm, Form.branching, Form.worded, Form.arranged,
        Operation.destinations?, hloop]
    refine Bool.and_eq_true_iff.2 ⟨?_, htracked⟩
    unfold OneByteMap.loopForm
    dsimp only
    split <;> rfl
  have empty : Uniform (some (OneByteMap.shortForm p (OneByteMap.emptyCountName p) .conditionalBranch)) := by
    unfold OneByteMap.emptyCountName
    split <;> rfl
  unfold OneByteMap.rowE
  split
  case h_4 => exact empty
  all_goals first | rfl | exact .only32 rfl p | exact loops _ rfl

theorem uniform_group3 (n : Fin 8) {s : Size} (hs : s ∈ [Size.byte, .operand]) :
    Uniform (some (OneByteMap.group3 n s)) := by
  have complement : ∀ s ∈ [Size.byte, .operand], (OneByteMap.changeForm .not s).isUniform = true ∧
      (OneByteMap.changeForm .neg s).isUniform = true := by decide
  unfold OneByteMap.group3
  dsimp only
  repeat' split
  all_goals first | exact (complement s hs).1 | exact (complement s hs).2 | rfl

theorem uniform_rowF (p : Prefixes) (op : UInt8) (f : Fields) : Uniform (OneByteMap.rowF p op f) := by
  unfold OneByteMap.rowF OneByteMap.group5
  repeat' split
  all_goals first | rfl | exact uniform_group3 _ (by decide)

theorem uniform_floatMemory (p : Prefixes) (op : UInt8) (n : Fin 8) : Uniform (FloatMap.memoryForm? p op n) := by
  unfold FloatMap.memoryForm?
  split <;> rfl

theorem uniform_floatRegister (op : UInt8) (f : Fields) : Uniform (FloatMap.registerForm? op f) := by
  have names : ∀ names n, Uniform (FloatMap.nameAt names n) := by
    intro names n
    unfold FloatMap.nameAt
    split <;> rfl
  unfold FloatMap.registerForm?
  split
  all_goals first | rfl | exact names _ _ | (split <;> rfl)

theorem uniform_float (p : Prefixes) (op : UInt8) (f : Fields) : Uniform (FloatMap.form? p op f) := by
  unfold FloatMap.form?
  split
  · have register := uniform_floatRegister op f
    cases h : FloatMap.registerForm? op f with
    | none => rfl
    | some form => exact h ▸ register
  · exact uniform_floatMemory p op f.mid

/-- **The map of one byte** answers with uniform forms. -/
theorem uniform_oneByte (p : Prefixes) (op : UInt8) (f : Fields) : Uniform (OneByteMap.form? p op f) := by
  unfold OneByteMap.form?
  refine .ite (uniform_quarter0 p op) (.ite (uniform_rows4and5 op) (.ite (uniform_row6 p op f) ?_))
  refine .ite rfl (.ite (uniform_row8 p op f) (.ite (uniform_row9 p op) (.ite (uniform_rowA p op) ?_)))
  refine .ite (uniform_rowB op) (.ite (uniform_rowC p op f) (.ite (uniform_rowD p op f) ?_))
  exact .ite (uniform_float p op f) (.ite (uniform_rowE p op) (uniform_rowF p op f))

/-! ## The maps behind the escape byte -/

theorem Uniform.only64 {form : Form} (h : form.isUniform = true) (p : Prefixes) :
    Uniform (TwoByteMap.only64 p form) := by
  unfold TwoByteMap.only64
  cases p.mode with
  | x86 => rfl
  | x64 => exact h

theorem Uniform.plain {form : Form} (h : form.isUniform = true) (p : Prefixes) :
    Uniform (TwoByteMap.plain p form) := by
  unfold TwoByteMap.plain
  exact .ite h rfl

theorem Uniform.withPrefix {form : Option Form} (h : Uniform form) : Uniform (form.map .withPrefix) := by
  cases form with
  | none => rfl
  | some form => exact h

theorem Uniform.byPrefix {bare operandSize whileEqual whileNotEqual : Option Form} (h₁ : Uniform bare)
    (h₂ : Uniform operandSize) (h₃ : Uniform whileEqual) (h₄ : Uniform whileNotEqual) (p : Prefixes) :
    Uniform (TwoByteMap.byPrefix p bare operandSize whileEqual whileNotEqual) := by
  unfold TwoByteMap.byPrefix
  cases p.mandatory with
  | none => exact h₁
  | operandSize => exact h₂.withPrefix
  | whileEqual => exact h₃.withPrefix
  | whileNotEqual => exact h₄.withPrefix

theorem uniform_group6 (p : Prefixes) (f : Fields) : Uniform (TwoByteMap.group6 p f) := by
  unfold TwoByteMap.group6
  repeat' split
  all_goals first | rfl | exact .only64 rfl p

theorem uniform_group7Register (p : Prefixes) (f : Fields) : Uniform (TwoByteMap.group7Register p f) := by
  have bare : ∀ byte, Uniform (TwoByteMap.group7Bare p byte) := by
    intro byte
    unfold TwoByteMap.group7Bare
    split
    all_goals first | rfl | exact .only64 rfl p
  have with66 : ∀ byte, Uniform (TwoByteMap.group7With66 p byte) := by
    intro byte
    unfold TwoByteMap.group7With66
    split
    all_goals first | rfl | exact .only64 rfl p
  have withF3 : ∀ byte, Uniform (TwoByteMap.group7WithF3 p byte) := by
    intro byte
    unfold TwoByteMap.group7WithF3
    split
    all_goals first | rfl | exact .only64 rfl p
  have withF2 : ∀ byte, Uniform (TwoByteMap.group7WithF2 p byte) := by
    intro byte
    unfold TwoByteMap.group7WithF2
    split
    all_goals first | rfl | exact .only64 rfl p
  unfold TwoByteMap.group7Register
  dsimp only
  repeat' split
  all_goals first | rfl | exact .only64 rfl p | exact .byPrefix (bare _) (with66 _) (withF3 _) (withF2 _) p

theorem uniform_group7 (p : Prefixes) (f : Fields) : Uniform (TwoByteMap.group7 p f) := by
  unfold TwoByteMap.group7
  refine .ite (uniform_group7Register p f) ?_
  split
  case h_6 => exact .ite rfl rfl
  all_goals rfl

theorem uniform_hint (f : Fields) (names : List (Nat × String)) : Uniform (TwoByteMap.hint f names) := by
  unfold TwoByteMap.hint
  split <;> rfl

theorem uniform_row0 (p : Prefixes) (op : UInt8) (f : Fields) : Uniform (TwoByteMap.row0 p op f) := by
  unfold TwoByteMap.row0
  split
  case h_1 => exact uniform_group6 p f
  case h_2 => exact uniform_group7 p f
  case h_9 => exact .ite rfl rfl
  case h_11 => exact uniform_hint _ _
  all_goals rfl

theorem uniform_row1 (p : Prefixes) (op : UInt8) (f : Fields) : Uniform (TwoByteMap.row1 p op f) := by
  have branchEnd : Uniform (TwoByteMap.branchEnd p f) := by
    unfold TwoByteMap.branchEnd
    split
    all_goals first | rfl | exact uniform_hint _ _
  unfold TwoByteMap.row1
  split
  case h_7 => exact .ite branchEnd (uniform_hint _ _)
  case h_8 => exact .ite rfl (uniform_hint _ _)
  all_goals first | rfl | exact uniform_hint _ _

theorem uniform_row2 (p : Prefixes) (op : UInt8) (f : Fields) : Uniform (TwoByteMap.row2 p op f) := by
  unfold TwoByteMap.row2
  dsimp only
  split
  all_goals first | rfl | exact .ite rfl rfl

theorem uniform_row3 (p : Prefixes) (op : UInt8) : Uniform (TwoByteMap.row3 p op) := by
  unfold TwoByteMap.row3
  split <;> rfl

theorem uniform_row7 (p : Prefixes) (op : UInt8) : Uniform (TwoByteMap.row7 p op) := by
  unfold TwoByteMap.row7
  split
  all_goals first | rfl | exact .plain rfl p

theorem uniform_group15 (p : Prefixes) (n : Fin 8) :
    Uniform (TwoByteMap.group15Register p n) ∧ Uniform (TwoByteMap.group15Memory p n) := by
  unfold TwoByteMap.group15Register TwoByteMap.group15Memory
  constructor
  · split
    all_goals first | rfl | exact .only64 rfl p
  · dsimp only
    split <;> rfl

theorem uniform_twoByteA (p : Prefixes) (op : UInt8) (f : Fields) : Uniform (TwoByteMap.rowA p op f) := by
  have hash : Uniform (TwoByteMap.hashForm? f) := by
    unfold TwoByteMap.hashForm?
    dsimp only
    split <;> rfl
  have cipher : Uniform (TwoByteMap.cipherForm? f) := by
    unfold TwoByteMap.cipherForm?
    dsimp only
    split <;> rfl
  unfold TwoByteMap.rowA
  dsimp only
  split
  case h_7 => exact .byPrefix .none .none hash .none p
  case h_8 => exact .ite rfl (.byPrefix .none .none cipher .none p)
  case h_15 => exact .ite (uniform_group15 p f.mid).1 (uniform_group15 p f.mid).2
  all_goals rfl

theorem uniform_twoByteB (p : Prefixes) (op : UInt8) (f : Fields) : Uniform (TwoByteMap.rowB p op f) := by
  have group8 : Uniform (TwoByteMap.group8 f) := by
    unfold TwoByteMap.group8
    split <;> rfl
  unfold TwoByteMap.rowB
  split
  all_goals first | rfl | exact .ite rfl rfl | exact group8

theorem uniform_group9 (p : Prefixes) (n : Fin 8) :
    Uniform (TwoByteMap.group9Register p n) ∧ Uniform (TwoByteMap.group9Memory p n) := by
  unfold TwoByteMap.group9Register TwoByteMap.group9Memory
  constructor
  · split
    all_goals first | rfl | exact .only64 rfl p
  · dsimp only
    split
    all_goals first | rfl | exact .ite rfl rfl | exact .plain rfl p | (refine .byPrefix ?_ ?_ ?_ ?_ p <;> rfl)

theorem uniform_twoByteC (p : Prefixes) (op : UInt8) (f : Fields) : Uniform (TwoByteMap.rowC p op f) := by
  unfold TwoByteMap.rowC
  split
  case h_3 => exact .plain rfl p
  case h_4 => exact .ite (uniform_group9 p f.mid).1 (uniform_group9 p f.mid).2
  case h_5 => exact .ite rfl rfl
  all_goals rfl

theorem uniform_general (p : Prefixes) (op : UInt8) (f : Fields) : Uniform (TwoByteMap.general? p op f) := by
  unfold TwoByteMap.general?
  split
  case h_1 => exact uniform_row0 p op f
  case h_2 => exact uniform_row1 p op f
  case h_3 => exact uniform_row2 p op f
  case h_4 => exact uniform_row3 p op
  case h_6 => exact uniform_row7 p op
  case h_9 => exact uniform_twoByteA p op f
  case h_10 => exact uniform_twoByteB p op f
  case h_11 => exact uniform_twoByteC p op f
  case h_12 => exact .ite rfl rfl
  all_goals rfl

/-- **The map behind the escape byte** answers with uniform forms. -/
theorem uniform_twoByte (p : Prefixes) (op : UInt8) (f : Fields) : Uniform (TwoByteMap.form? p op f) := by
  have general := uniform_general p op f
  unfold TwoByteMap.form?
  split
  · next form h => exact h ▸ general
  · exact .of_find? (by decide +kernel) p op f

theorem isUniform_suffixed (op : UInt8) : (MediaMap.suffixed op).isUniform = true := by
  unfold MediaMap.suffixed
  split <;> rfl

/-! ## The maps of the vector prefixes -/

/-- Which rows are reserved does not matter to their operands. -/
theorem Uniform.reserved {form : Option Form} (h : Uniform form) (clashes : Bool) :
    Uniform (form.map fun form => { form with reserved := form.reserved || clashes }) := by
  cases form with
  | none => rfl
  | some form => exact h

/-- **The tables of the vector prefixes** hold uniform forms. -/
theorem uniform_vectorTables {first : UInt8} {table : List Entry}
    (h : VectorMap.table? first = some table ∨ ExtendedMap.table? first = some table ∨
      MaskedMap.table? first = some table) :
    table.all (·.form.isUniform) = true := by
  unfold VectorMap.table? ExtendedMap.table? MaskedMap.table? at h
  rcases h with h | h | h
  all_goals
    split at h
    all_goals
      cases h
      all_goals decide +kernel

end Encoding

end KernelOffsets
