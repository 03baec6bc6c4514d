/-
Operands of decoded instructions. The opcode maps give the operands of every
instruction with a rule of its own sizes that fit together, an operand is as
wide as its size under the prefixes, and a constant is what the code of the
instruction ends with (`Encoding.decode_hasShape`).
-/
import KernelOffsets.PortableExecutable.Bytes
import KernelOffsets.Proofs.Decoded
import KernelOffsets.Proofs.Memory
import KernelOffsets.Proofs.Processor
import KernelOffsets.Proofs.Sweep
import Mathlib.Data.List.Forall2

namespace KernelOffsets

open PortableExecutable.Bytes (numberOf)

/-- A general register or memory of a width. -/
def Operand.IsPlaceOf (w : Width) : Operand → Prop
  | .register r => r.gpr?.isSome ∧ r.width = w
  | .memory o => o.size = w.bytes
  | _ => False

/-- A word is the constant at the end of some code, extended with its sign to a width. -/
def IsExtended (code : List UInt8) (w : Width) (bits : UInt64) : Prop :=
  ∃ (front last : List UInt8) (k : Width), code = front ++ last ∧ last.length = k.bytes ∧
    bits.toBitVec = ((BitVec.ofNat k.bits (numberOf last)).signExtend w.bits).setWidth 64

/-- A place of a width, or a constant of the code that is used at it. -/
def Operand.IsValueOf (code : List UInt8) (w : Width) : Operand → Prop
  | .immediate bits v => v = w ∧ IsExtended code w bits
  | o => o.IsPlaceOf w

/-- A place of one byte, or a constant of the code, or the constant one. -/
def Operand.IsCountOf (code : List UInt8) : Operand → Prop
  | .immediate bits v => v = .byte ∧ (bits = 1 ∨ IsExtended code .byte bits)
  | o => o.IsPlaceOf .byte

/-- A general register, memory or a constant. -/
def Operand.IsGeneral : Operand → Prop
  | .register r => r.gpr?.isSome
  | .memory _ | .immediate _ _ => True
  | _ => False

/-- The operands of an instruction have the widths that its operation asks for; its code ends with its constant. -/
def Instruction.HasShape (i : Instruction) (code : List UInt8) : Prop :=
  match i.operation with
  | .mov | .add | .sub | .and | .or | .xor =>
    ∃ w x y, i.operands = [x, y] ∧ x.IsPlaceOf w ∧ y.IsValueOf code w
  | .xchg => ∃ w x r, i.operands = [x, .register r] ∧ x.IsPlaceOf w ∧ (Operand.register r).IsPlaceOf w
  | .movzx | .movsx | .movsxd =>
    ∃ w v x y, i.operands = [x, y] ∧ v.bytes ≤ w.bytes ∧ x.IsPlaceOf w ∧ y.IsPlaceOf v
  | .shl | .shr | .sar => ∃ w x y, i.operands = [x, y] ∧ x.IsPlaceOf w ∧ y.IsCountOf code
  | .inc | .dec | .neg | .not => ∃ w x, i.operands = [x] ∧ x.IsPlaceOf w
  | .push => ∃ w x, i.operands = [x] ∧ x.IsValueOf code w ∧ i.stackBytes = w.bytes
  | .pop => ∃ w x, i.operands = [x] ∧ x.IsPlaceOf w ∧ i.stackBytes = w.bytes
  | _ => False

/-- A place of a width, or a constant without bits above it. -/
def Operand.IsOfWidth (w : Width) : Operand → Prop
  | .immediate bits v => v = w ∧ bits &&& w.mask = bits
  | o => o.IsPlaceOf w

theorem IsExtended.of_suffix {front code : List UInt8} {w : Width} {bits : UInt64} (h : IsExtended code w bits) :
    IsExtended (front ++ code) w bits := by
  obtain ⟨before, last, k, rfl, hlength, hbits⟩ := h
  exact ⟨front ++ before, last, k, (List.append_assoc ..).symm, hlength, hbits⟩

theorem IsExtended.and_mask {code : List UInt8} {w : Width} {bits : UInt64} (h : IsExtended code w bits) :
    bits &&& w.mask = bits := by
  obtain ⟨front, last, k, -, -, hbits⟩ := h
  rw [← UInt64.toBitVec_inj, w.toBitVec_and_mask, hbits, BitVec.setWidth_setWidth_of_le _ w.bits_le, BitVec.setWidth_eq]

namespace Operand

variable {code : List UInt8} {w : Width} {o : Operand}

theorem IsPlaceOf.isValueOf (h : o.IsPlaceOf w) : o.IsValueOf code w := by
  cases o with
  | immediate bits v => cases h
  | _ => exact h

theorem IsValueOf.isCountOf (h : o.IsValueOf code .byte) : o.IsCountOf code := by
  cases o with
  | immediate bits v => exact ⟨h.1, .inr h.2⟩
  | _ => exact h

theorem IsPlaceOf.isOfWidth (h : o.IsPlaceOf w) : o.IsOfWidth w := by
  cases o with
  | immediate bits v => cases h
  | _ => exact h

theorem IsValueOf.isOfWidth (h : o.IsValueOf code w) : o.IsOfWidth w := by
  cases o with
  | immediate bits v => exact ⟨h.1, h.2.and_mask⟩
  | _ => exact h

theorem IsCountOf.isOfWidth (h : o.IsCountOf code) : o.IsOfWidth .byte := by
  cases o with
  | immediate bits v =>
    obtain ⟨hv, rfl | hbits⟩ := h
    · exact ⟨hv, by decide⟩
    · exact ⟨hv, hbits.and_mask⟩
  | _ => exact h

theorem IsOfWidth.width_eq (h : o.IsOfWidth w) : o.width = w := by
  cases o with
  | register r => exact h.2
  | memory o =>
    have hsize : o.size = w.bytes := h
    rw [width, hsize]
    cases w <;> rfl
  | immediate bits v => exact h.1
  | _ => cases h

end Operand

namespace Encoding

variable {e : Encoding} {nextIp : UInt64} {mode : Bitness}

/-! ## Constants -/

/-- A number that is read is that of the bytes that are taken. -/
theorem exists_of_little {n : Nat} (hn : n ≤ 8) {bytes rest : List UInt8} {c : UInt64}
    (h : Reader.little n bytes = some (c, rest)) :
    ∃ taken, bytes = taken ++ rest ∧ taken.length = n ∧ c.toNat = numberOf taken := by
  induction n generalizing bytes rest c with
  | zero =>
    cases h
    exact ⟨[], rfl, rfl, rfl⟩
  | succ n ih =>
    cases bytes with
    | nil => cases h
    | cons low bytes =>
      have hread : Reader.little (n + 1) (low :: bytes) =
          (Reader.little n bytes).bind fun p => some (low.toUInt64 ||| (p.1 <<< 8), p.2) := rfl
      rw [hread] at h
      cases hrest : Reader.little n bytes with
      | none =>
        rw [hrest] at h
        cases h
      | some p =>
        obtain ⟨high, after⟩ := p
        rw [hrest] at h
        cases h
        obtain ⟨taken, rfl, hlength, hnumber⟩ := ih (by omega) hrest
        have hhigh : high.toNat < 1 <<< 56 := by
          have hlt := PortableExecutable.Bytes.numberOf_lt taken
          have hpow : 2 ^ (8 * n) ≤ 2 ^ 56 := Nat.pow_le_pow_right (by decide) (by omega)
          rw [Nat.one_shiftLeft, hlength] at hlt
          rw [Nat.one_shiftLeft]
          omega
        refine ⟨low :: taken, rfl, by rw [List.length_cons, hlength], ?_⟩
        rw [Memory.toNat_join low hhigh, hnumber, numberOf]

theorem readConstants_append {sizes sizes' : List Nat} {bytes rest : List UInt8} {constants : List UInt64}
    (h : readConstants (sizes ++ sizes') bytes = some (constants, rest)) :
    ∃ before middle after, readConstants sizes bytes = some (before, middle) ∧
      readConstants sizes' middle = some (after, rest) ∧ constants = before ++ after ∧ before.length = sizes.length := by
  induction sizes generalizing bytes constants with
  | nil => exact ⟨[], bytes, constants, rfl, h, rfl, rfl⟩
  | cons n sizes ih =>
    simp only [List.cons_append, readConstants, Bind.bind, StateT.bind, Option.bind_eq_some_iff] at h
    obtain ⟨⟨c, bytes'⟩, hc, ⟨cs, bytes''⟩, hcs, heq⟩ := h
    cases heq
    obtain ⟨before, middle, after, hbefore, hafter, rfl, hlength⟩ := ih hcs
    have hread : readConstants (n :: sizes) bytes = (Reader.little n bytes).bind fun p =>
        (readConstants sizes p.2).bind fun q => some (p.1 :: q.1, q.2) := rfl
    refine ⟨c :: before, middle, after, ?_, hafter, rfl, congrArg Nat.succ hlength⟩
    rw [hread, hc, Option.bind_some, hbefore, Option.bind_some]

theorem isExtended_immediate {code : List UInt8} {k w : Width} {c : UInt64} (hlength : code.length = k.bytes)
    (hc : c.toNat = numberOf code) : IsExtended code w (signExtend k.bytes c &&& w.mask) := by
  have hnumber : c.toBitVec.setWidth k.bits = .ofNat k.bits (numberOf code) := by
    rw [← hc]
    exact (BitVec.ofNat_toNat ..).symm
  refine ⟨[], code, k, rfl, hlength, ?_⟩
  rw [w.toBitVec_and_mask, k.toBitVec_signExtend, w.setWidth_signExtend, hnumber]

/-! ## One operand -/

theorem isPlaceOf_gpr (g : Gpr) (w : Width) : (Operand.register (.gpr g w)).IsPlaceOf w :=
  ⟨rfl, rfl⟩

theorem isPlaceOf_generalRegister (e : Encoding) (n : Fin 16) (s : Size) :
    (Operand.register (e.generalRegister n s)).IsPlaceOf (s.width e.prefixes) := by
  unfold generalRegister
  split
  case h_5 => exact isPlaceOf_gpr _ _
  all_goals
    have hbyte : s.width e.prefixes = .byte := ‹_›
    rw [hbyte]
    exact ⟨rfl, rfl⟩

theorem exists_register_operand (e : Encoding) (nextIp : UInt64) {s : Size} {code : OperandCode}
    (hc : code.isRegister s = true) (taken : List UInt64) :
    ∃ r, e.operand nextIp code taken = .register r ∧ (Operand.register r).IsPlaceOf (s.width e.prefixes) := by
  cases code with
  | reg t | low t =>
    cases eq_of_beq hc
    exact ⟨_, rfl, isPlaceOf_generalRegister e _ _⟩
  | accumulator t =>
    cases eq_of_beq hc
    exact ⟨_, rfl, isPlaceOf_gpr _ _⟩
  | fixed r =>
    match r, hc with
    | .gpr g .byte, hc =>
      cases eq_of_beq hc
      exact ⟨_, rfl, isPlaceOf_gpr g .byte⟩
  | _ => cases hc

theorem isPlaceOf_operand {s : Size} (hb : e.form.broadcast = 0) {code : OperandCode} (hc : code.isPlace s = true)
    {taken : List UInt64} (h : (e.operand nextIp code taken).IsGeneral) :
    (e.operand nextIp code taken).IsPlaceOf (s.width e.prefixes) := by
  have bare : e.broadcasts = false := by simp [broadcasts, hb]
  rcases Bool.or_eq_true_iff.1 hc with hregister | hreference
  · obtain ⟨r, heq, hr⟩ := e.exists_register_operand nextIp hregister taken
    rw [heq]
    exact hr
  · cases code with
    | rm t =>
      cases eq_of_beq hreference
      simp only [operand, registerOr, memoryOperand, bare]
      split
      · exact isPlaceOf_generalRegister e _ _
      · exact rfl
    | offset t =>
      cases eq_of_beq hreference
      rcases taken with - | ⟨a, - | ⟨a', rest⟩⟩
      · cases h
      · exact rfl
      · cases h
    | _ => cases hreference

/-- A constant that is the last thing of the code. -/
theorem isValueOf_operand {s : Size} {code : OperandCode} (hc : code.isConstant s = true)
    {tail rest : List UInt8} {taken : List UInt64}
    (h : readConstants (code.constantBytes e.prefixes) (tail ++ rest) = some (taken, rest)) :
    (e.operand nextIp code taken).IsValueOf tail (s.width e.prefixes) := by
  cases code with
  | immediate encoded used =>
    cases eq_of_beq hc
    simp only [OperandCode.constantBytes, readConstants, Bind.bind, StateT.bind, Option.bind_eq_some_iff] at h
    obtain ⟨⟨c, after⟩, hc, ⟨cs, after'⟩, hcs, heq⟩ := h
    cases hcs
    cases heq
    have hbytes : (encoded.width e.prefixes).bytes ≤ 8 := by
      cases encoded.width e.prefixes <;> decide
    obtain ⟨last, happend, hlength, hnumber⟩ := exists_of_little hbytes hc
    cases List.append_cancel_right happend
    exact ⟨rfl, isExtended_immediate hlength hnumber⟩
  | _ => cases hc

/-- An operand as an entry of a shape asks for it, given the end of the code. -/
def Meets (p : Prefixes) (code : List UInt8) : Size × Role → Operand → Prop
  | (s, .register), o => ∃ r, o = .register r ∧ (Operand.register r).IsPlaceOf (s.width p)
  | (s, .place), o => o.IsPlaceOf (s.width p)
  | (s, .value), o => o.IsValueOf code (s.width p)
  | (_, .count), o => o.IsCountOf code

theorem meets_operand (hb : e.form.broadcast = 0) {s : Size} {role : Role} {code : OperandCode}
    (hc : code.plays s role = true) {tail rest : List UInt8} {taken : List UInt64}
    (h : readConstants (code.constantBytes e.prefixes) (tail ++ rest) = some (taken, rest))
    (hg : (e.operand nextIp code taken).IsGeneral) : Meets e.prefixes tail (s, role) (e.operand nextIp code taken) := by
  have value : ∀ {s : Size}, (code.isPlace s || code.isConstant s) = true →
      (e.operand nextIp code taken).IsValueOf tail (s.width e.prefixes) := by
    intro s hs
    rcases Bool.or_eq_true_iff.1 hs with hplace | hconstant
    · exact (isPlaceOf_operand hb hplace hg).isValueOf
    · exact isValueOf_operand hconstant h
  cases role with
  | register => exact e.exists_register_operand nextIp hc taken
  | place => exact isPlaceOf_operand hb hc hg
  | value => exact value hc
  | count =>
    obtain ⟨hs, hc⟩ := Bool.and_eq_true_iff.1 hc
    cases eq_of_beq hs
    rcases Bool.or_eq_true_iff.1 hc with hvalue | hone
    · exact (value hvalue).isCountOf
    · cases eq_of_beq hone
      exact ⟨rfl, .inl rfl⟩

theorem Meets.of_suffix {p : Prefixes} {front tail : List UInt8} {entry : Size × Role} {o : Operand}
    (h : Meets p tail entry o) : Meets p (front ++ tail) entry o := by
  obtain ⟨s, role⟩ := entry
  cases role with
  | register | place => exact h
  | value =>
    cases o with
    | immediate bits v => exact ⟨h.1, h.2.of_suffix⟩
    | _ => exact h
  | count =>
    cases o with
    | immediate bits v => exact ⟨h.1, h.2.imp_right .of_suffix⟩
    | _ => exact h

/-! ## All operands -/

theorem meets_operandsOf (hb : e.form.broadcast = 0) {rest tail : List UInt8} {shape : List (Size × Role)}
    {codes : List OperandCode} {constants : List UInt64} (hshape : OperandCode.haveShape shape codes = true)
    (h : readConstants (codes.flatMap (·.constantBytes e.prefixes)) (tail ++ rest) = some (constants, rest))
    (hg : ∀ o ∈ e.operandsOf nextIp codes constants, o.IsGeneral) :
    List.Forall₂ (Meets e.prefixes tail) shape (e.operandsOf nextIp codes constants) := by
  -- Only the last operand can have a constant; the bytes of those before it are in front of its own.
  fun_induction OperandCode.haveShape shape codes generalizing tail constants with
  | case1 s role code =>
    rw [List.flatMap_singleton] at h
    have hall : constants.take (code.constantBytes e.prefixes).length = constants := by
      rw [← List.append_nil (code.constantBytes e.prefixes)] at h
      obtain ⟨before, middle, after, -, hafter, rfl, hlength⟩ := readConstants_append h
      cases hafter
      rw [← hlength, List.append_nil, List.take_length]
    have hoperand := hg _ List.mem_cons_self
    rw [hall] at hoperand
    refine .cons ?_ .nil
    rw [hall]
    exact meets_operand hb hshape h hoperand
  | case2 s shape code codes hlast ih =>
    obtain ⟨hplace, hrest⟩ := Bool.and_eq_true_iff.1 hshape
    rw [List.flatMap_cons] at h
    obtain ⟨before, middle, after, hbefore, hafter, rfl, hlength⟩ := readConstants_append h
    obtain ⟨taken, htaken, -⟩ := stable_readConstants _ _ _ _ hbefore
    obtain ⟨tail', rfl, -⟩ := stable_readConstants _ _ _ _ hafter
    rw [← List.append_assoc] at htaken
    cases List.append_cancel_right htaken
    have hdrop : (before ++ after).drop (code.constantBytes e.prefixes).length = after := by
      rw [← hlength, List.drop_left]
    rw [operandsOf, hdrop] at hg ⊢
    refine .cons (isPlaceOf_operand hb hplace (hg _ List.mem_cons_self)) ?_
    exact (ih hrest hafter fun o ho => hg o (List.mem_cons_of_mem _ ho)).imp fun _ _ => Meets.of_suffix
  | case3 => cases hshape

theorem operand_mem_operandsOf {code : OperandCode} : ∀ {codes : List OperandCode} {constants : List UInt64},
    code ∈ codes → ∃ taken, e.operand nextIp code taken ∈ e.operandsOf nextIp codes constants
  | first :: codes, constants, h => by
    rcases List.mem_cons.1 h with rfl | h
    · exact ⟨_, List.mem_cons_self⟩
    · obtain ⟨taken, hmem⟩ := operand_mem_operandsOf h
      exact ⟨taken, List.mem_cons_of_mem _ hmem⟩

theorem not_isGeneral_register {r : Register} (h : r.gpr? = none) : ¬ (Operand.register r).IsGeneral := by
  intro hg
  have hsome : r.gpr?.isSome := hg
  rw [h] at hsome
  cases hsome

theorem not_isGeneral_operand {code : OperandCode} (h : code.isSpecial = true) (taken : List UInt64) :
    ¬ (e.operand nextIp code taken).IsGeneral := by
  cases code with
  | segment =>
    refine not_isGeneral_register ?_
    unfold segmentRegister
    split <;> rfl
  | control | debug => exact not_isGeneral_register rfl
  | fixed r => exact not_isGeneral_register (Option.isNone_iff_eq_none.1 h)
  | _ => cases h

/-- The operands of a regular encoding of an operation with a rule of its own meet one of its shapes. -/
theorem exists_shape (regular : e.IsRegular mode) (hshapes : e.form.operation.shapes ≠ []) {tail rest : List UInt8}
    (h : readConstants (e.form.operands.flatMap (·.constantBytes e.prefixes)) (tail ++ rest) = some (e.constants, rest))
    (hg : ∀ o ∈ e.operands nextIp, o.IsGeneral) :
    ∃ shape ∈ e.form.operation.shapes, List.Forall₂ (Meets e.prefixes tail) shape (e.operands nextIp) := by
  have hshaped := (Bool.and_eq_true_iff.1 (Bool.and_eq_true_iff.1 regular.form).1).2
  simp only [Form.isShaped, Bool.or_eq_true_iff, Bool.and_eq_true_iff, List.isEmpty_iff, List.any_eq_true,
    beq_iff_eq] at hshaped
  obtain (hnone | ⟨code, hcode, hspecial⟩) | ⟨hb, shape, hmem, hsizes⟩ := hshaped
  · exact absurd hnone hshapes
  · obtain ⟨taken, hoperand⟩ : ∃ taken, e.operand nextIp code taken ∈ e.operands nextIp :=
      operand_mem_operandsOf hcode
    exact absurd (hg _ hoperand) (not_isGeneral_operand hspecial taken)
  · exact ⟨shape, hmem, meets_operandsOf hb hsizes h hg⟩

/-! ## The end of the code -/

/-- The constants of an encoding are the last thing that is taken of some bytes. -/
def EndsCode (bytes rest : List UInt8) (e : Encoding) : Prop :=
  ∃ front tail, bytes = front ++ (tail ++ rest) ∧
    readConstants (e.form.operands.flatMap (·.constantBytes e.prefixes)) (tail ++ rest) = some (e.constants, rest)

/-- Whatever a reader returns ends with its constants. -/
def Reader.Ends (r : Reader (Option Encoding)) : Prop :=
  ∀ bytes e rest, r bytes = some (some e, rest) → e.EndsCode bytes rest

namespace Reader.Ends

theorem none : Ends (Pure.pure none) := by
  intro bytes e rest h
  cases h

theorem bind {α : Type} {r : Reader α} {f : α → Reader (Option Encoding)} (hr : r.Stable) (hf : ∀ a, Ends (f a)) :
    Ends (r >>= f) := by
  intro bytes e rest h
  cases hfirst : r bytes with
  | none => simp [Bind.bind, StateT.bind, hfirst] at h
  | some p =>
    obtain ⟨a, middle⟩ := p
    simp only [Bind.bind, StateT.bind, hfirst, Option.bind_some] at h
    obtain ⟨taken, rfl, -⟩ := hr _ _ _ hfirst
    obtain ⟨front, tail, rfl, hconstants⟩ := hf a _ _ _ h
    exact ⟨taken ++ front, tail, (List.append_assoc ..).symm, hconstants⟩

theorem peek_bind {f : UInt8 → Reader (Option Encoding)} (hf : ∀ b, Ends (f b)) : Ends (peek >>= f) := by
  intro bytes e rest h
  cases bytes with
  | nil => cases h
  | cons b bytes => exact hf b _ _ _ h

theorem ite {c : Prop} [Decidable c] {r r' : Reader (Option Encoding)} (h : Ends r) (h' : Ends r') :
    Ends (if c then r else r') := by
  split
  · exact h
  · exact h'

end Reader.Ends

theorem ends_readForm (p : Prefixes) (op : UInt8) (f : Fields) (form : Option Form) : (readForm p op f form).Ends := by
  cases form with
  | none => exact .none
  | some form =>
    refine .bind (stable_readReference p f form) fun reference => ?_
    intro bytes e rest h
    simp only [Bind.bind, StateT.bind, Option.bind_eq_some_iff] at h
    obtain ⟨⟨constants, after⟩, hconstants, heq⟩ := h
    cases heq
    obtain ⟨tail, rfl, -⟩ := stable_readConstants _ _ _ _ hconstants
    exact ⟨[], tail, rfl, hconstants⟩

theorem ends_readOneByte (p : Prefixes) (op : UInt8) : (readOneByte p op).Ends :=
  .bind (stable_readFields _) fun _ => ends_readForm _ _ _ _

theorem ends_readSuffixed (p : Prefixes) : (readSuffixed p).Ends := by
  refine .bind (stable_readFields _) fun _ => .bind (stable_readReference _ _ _) fun _ => .bind .byte fun op => ?_
  have hcodes : (MediaMap.suffixed op).operands = [.mmx, .mmxRm] := by
    unfold MediaMap.suffixed
    split <;> rfl
  intro bytes e rest h
  cases h
  refine ⟨[], [], rfl, ?_⟩
  rw [hcodes]
  rfl

theorem ends_readTwoByte (p : Prefixes) : (readTwoByte p).Ends := by
  refine .bind .byte fun op => .ite ?_ (.ite ?_ (.ite (ends_readSuffixed p) ?_))
  · exact .bind .byte fun _ => .bind (stable_readFields _) fun _ => ends_readForm _ _ _ _
  · exact .bind .byte fun _ => .bind (stable_readFields _) fun _ => ends_readForm _ _ _ _
  · exact .bind (stable_readFields _) fun _ => ends_readForm _ _ _ _

theorem ends_readVector (before p : Prefixes) (op : UInt8) (table : List Entry) (bare : Bool) :
    (readVector before p op table bare).Ends :=
  .bind (stable_readFields _) fun _ => ends_readForm _ _ _ _

theorem ends_readShortVector (p : Prefixes) : (readShortVector p).Ends :=
  .bind .byte fun _ => .bind .byte fun _ => ends_readVector _ _ _ _ _

theorem ends_readLongVector (p : Prefixes) : (readLongVector p).Ends := by
  refine .bind .byte fun _ => .bind .byte fun _ => .bind .byte fun _ => ?_
  split
  · exact ends_readVector _ _ _ _ _
  · exact .none

theorem ends_readExtended (p : Prefixes) : (readExtended p).Ends := by
  refine .bind .byte fun _ => .bind .byte fun _ => .bind .byte fun _ => ?_
  split
  · exact ends_readVector _ _ _ _ _
  · exact .none

theorem ends_readMasked (p : Prefixes) : (readMasked p).Ends := by
  refine .bind .byte fun _ => .bind .byte fun _ => .bind .byte fun _ => .bind .byte fun _ =>
    .bind (stable_readFields _) fun _ => ?_
  split
  · exact ends_readForm _ _ _ _
  · exact .none

/-- **Whatever is read ends with its constants.** -/
theorem ends_read (mode : Bitness) : (read mode).Ends := by
  refine .bind (Prefixes.stable_read mode) fun ⟨p, op⟩ => .ite (ends_readTwoByte p) (.ite (.peek_bind fun next => ?_) ?_)
  · split
    · exact ends_readShortVector p
    · exact ends_readLongVector p
    · exact ends_readExtended p
    · exact ends_readMasked p
    · exact ends_readOneByte p op
  · exact ends_readOneByte p op

/-! ## Decoded instructions -/

/-- An instruction that is decoded comes from a regular encoding, at the end of which its constants are. -/
theorem exists_encoding {ip : UInt64} {bytes : List UInt8} (h : (decode mode ip bytes).operation ≠ .invalid) :
    ∃ (e : Encoding) (nextIp : UInt64) (front tail rest : List UInt8), e.IsRegular mode ∧
      (decode mode ip bytes).operation = e.form.operation ∧ (decode mode ip bytes).operands = e.operands nextIp ∧
      (decode mode ip bytes).stackBytes = e.stackBytes ∧
      bytes.take (decode mode ip bytes).length = front ++ tail ∧
      readConstants (e.form.operands.flatMap (·.constantBytes e.prefixes)) (tail ++ rest) = some (e.constants, rest) := by
  cases hread : read mode (bytes.take maxLength) with
  | none =>
    rw [decode_of_read_eq_none hread] at h
    exact absurd rfl h
  | some p =>
    obtain ⟨encoding, rest⟩ := p
    obtain ⟨taken, hwindow, htaken⟩ := stable_read mode _ _ _ hread
    have hdecode : decode mode ip bytes = _ := decode_of_read_eq_some hwindow (htaken rest)
    cases encoding with
    | none =>
      rw [hdecode] at h
      exact absurd rfl h
    | some e =>
      have regular : e.IsRegular mode := yields_read mode _ _ _ hread
      obtain ⟨front, tail, hcode, hconstants⟩ := ends_read mode _ _ _ hread
      rw [Option.map_some, Option.getD_some] at hdecode
      have hlength : (decode mode ip bytes).length = taken.length := by rw [hdecode, length_instruction]
      have hbytes : bytes.take (decode mode ip bytes).length = front ++ tail := by
        rw [← List.append_assoc, hwindow] at hcode
        rw [hlength, ← List.append_cancel_right hcode, ← List.take_append_drop maxLength bytes, hwindow,
          List.append_assoc, List.take_left]
      refine ⟨e, ip + taken.length.toUInt64, front, tail, rest, regular, ?_, ?_, ?_, hbytes, hconstants⟩
      all_goals
        rw [hdecode] at h ⊢
        unfold instruction at h ⊢
        dsimp only at h ⊢
        split at h
        · next hlegal => rw [if_pos hlegal]
        · exact absurd rfl h

theorem bytes_operandWidth (p : Prefixes) : 2 ≤ p.operandWidth.bytes := by
  unfold Prefixes.operandWidth
  split
  · decide
  · split <;> decide

theorem bytes_capped_le (p : Prefixes) : (Size.capped.width p).bytes ≤ p.operandWidth.bytes := by
  have hcapped : Size.capped.width p = if p.operandWidth = .word then .word else .dword := rfl
  have hle := bytes_operandWidth p
  rw [hcapped]
  generalize p.operandWidth = w at *
  cases w with
  | byte => exact absurd hle (by decide)
  | _ => decide

theorem exists_of_meets_pair {p : Prefixes} {code : List UInt8} {a b : Size × Role} {operands : List Operand}
    (h : List.Forall₂ (Meets p code) [a, b] operands) :
    ∃ x y, operands = [x, y] ∧ Meets p code a x ∧ Meets p code b y := by
  obtain ⟨x, rest, hx, hrest, rfl⟩ := List.forall₂_cons_left_iff.1 h
  obtain ⟨y, rest, hy, hnil, rfl⟩ := List.forall₂_cons_left_iff.1 hrest
  cases List.forall₂_nil_left_iff.1 hnil
  exact ⟨x, y, rfl, hx, hy⟩

theorem exists_of_meets_single {p : Prefixes} {code : List UInt8} {a : Size × Role} {operands : List Operand}
    (h : List.Forall₂ (Meets p code) [a] operands) : ∃ x, operands = [x] ∧ Meets p code a x := by
  obtain ⟨x, rest, hx, hrest, rfl⟩ := List.forall₂_cons_left_iff.1 h
  cases List.forall₂_nil_left_iff.1 hrest
  exact ⟨x, rfl, hx⟩

theorem hasShape_of_meets {i : Instruction} {p : Prefixes} {code : List UInt8} {shape : List (Size × Role)}
    (hshape : shape ∈ i.operation.shapes) (h : List.Forall₂ (Meets p code) shape i.operands)
    (hstack : i.operation = .push ∨ i.operation = .pop → i.stackBytes = p.stackWidth.bytes) : i.HasShape code := by
  unfold Instruction.HasShape
  cases hop : i.operation
  case mov | add | sub | and | or | xor | shl | shr | sar =>
    rw [hop] at hshape
    rcases List.mem_pair.1 hshape with rfl | rfl
    all_goals
      obtain ⟨x, y, hoperands, hx, hy⟩ := exists_of_meets_pair h
      exact ⟨_, x, y, hoperands, hx, hy⟩
  case xchg =>
    rw [hop] at hshape
    rcases List.mem_pair.1 hshape with rfl | rfl
    all_goals
      obtain ⟨x, y, hoperands, hx, r, rfl, hr⟩ := exists_of_meets_pair h
      exact ⟨_, x, r, hoperands, hx, hr⟩
  case movzx | movsx | movsxd =>
    rw [hop] at hshape
    have hword := bytes_operandWidth p
    rcases List.mem_cons.1 hshape with rfl | hshape
    · obtain ⟨x, y, hoperands, hx, hy⟩ := exists_of_meets_pair h
      exact ⟨p.operandWidth, .byte, x, y, hoperands, Nat.le_of_succ_le hword, hx, hy⟩
    · rcases List.mem_pair.1 hshape with rfl | rfl
      · obtain ⟨x, y, hoperands, hx, hy⟩ := exists_of_meets_pair h
        exact ⟨p.operandWidth, .word, x, y, hoperands, hword, hx, hy⟩
      · obtain ⟨x, y, hoperands, hx, hy⟩ := exists_of_meets_pair h
        exact ⟨_, _, x, y, hoperands, bytes_capped_le p, hx, hy⟩
  case inc | dec | neg | not =>
    rw [hop] at hshape
    rcases List.mem_pair.1 hshape with rfl | rfl
    all_goals
      obtain ⟨x, hoperands, hx⟩ := exists_of_meets_single h
      exact ⟨_, x, hoperands, hx⟩
  case push =>
    rw [hop] at hshape
    cases List.mem_singleton.1 hshape
    obtain ⟨x, hoperands, hx⟩ := exists_of_meets_single h
    exact ⟨_, x, hoperands, hx, hstack (.inl hop)⟩
  case pop =>
    rw [hop] at hshape
    cases List.mem_singleton.1 hshape
    obtain ⟨x, hoperands, hx⟩ := exists_of_meets_single h
    exact ⟨_, x, hoperands, hx, hstack (.inr hop)⟩
  all_goals
    rw [hop] at hshape
    cases hshape

/-- **The operands of a decoded instruction** have widths that fit together, and a constant is in its code. -/
theorem decode_hasShape {ip : UInt64} {bytes : List UInt8} (hrule : (decode mode ip bytes).operation.shapes ≠ [])
    (hg : ∀ o ∈ (decode mode ip bytes).operands, o.IsGeneral) :
    (decode mode ip bytes).HasShape (bytes.take (decode mode ip bytes).length) := by
  have hvalid : (decode mode ip bytes).operation ≠ .invalid := by
    intro h
    rw [h] at hrule
    exact hrule rfl
  obtain ⟨e, nextIp, front, tail, rest, regular, hop, hoperands, hstack, hcode, hconstants⟩ := exists_encoding hvalid
  rw [hop] at hrule
  rw [hoperands] at hg
  obtain ⟨shape, hshape, hmeets⟩ := exists_shape regular hrule hconstants hg
  rw [hcode]
  refine hasShape_of_meets (p := e.prefixes) (hop ▸ hshape) ?_ ?_
  · rw [hoperands]
    exact hmeets.imp fun _ _ => Meets.of_suffix
  · intro hmoves
    rw [hstack, stackBytes]
    rw [hop] at hmoves
    rcases hmoves with hpush | hpop
    · rw [hpush]
    · rw [hpop]

end Encoding

end KernelOffsets
