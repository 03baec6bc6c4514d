/-
What decoding promises about operands. The operands of an arithmetic
instruction all have one size, which is no larger than a pointer
(`Encoding.decode_arithmetic`), and the registers and the displacement of a
memory reference have one width (`Encoding.decode_references`). The first is a
fact about the opcode maps, the second one about the readers of operand bytes;
a reader yields a property if everything that it returns has it
(`Reader.Yields`).
-/
import KernelOffsets.Encoding.Decode
import KernelOffsets.Proofs.Memory
import KernelOffsets.Proofs.OpcodeMaps

namespace KernelOffsets

/-- Whether a name of a general register means so many bytes; the other registers hold nothing. -/
def Register.isOfSize (n : Nat) (r : Register) : Bool :=
  r.gpr?.isNone || r.bytes == n

/-- Whether an operand is read at a size; constants are extended to the size they are used at. -/
def Operand.isOfSize (n : Nat) : Operand → Bool
  | .register r => r.isOfSize n
  | .memory o => o.size == n
  | _ => true

namespace Encoding

/-! ## What a reader yields -/

/-- Everything that a reader returns has a property. -/
def Reader.Yields {α : Type} (r : Reader α) (P : α → Prop) : Prop :=
  ∀ bytes a rest, r bytes = some (a, rest) → P a

namespace Reader.Yields

variable {α β : Type} {P : α → Prop} {Q : β → Prop}

theorem pure {a : α} (h : P a) : Yields (Pure.pure a : Reader α) P := by
  intro bytes b rest e
  cases e
  exact h

theorem any (r : Reader α) : Yields r fun _ => True :=
  fun _ _ _ _ => trivial

theorem bind {r : Reader α} {f : α → Reader β} (hr : Yields r P) (hf : ∀ a, P a → Yields (f a) Q) :
    Yields (r >>= f) Q := by
  intro bytes b rest h
  cases e : r bytes with
  | none => simp [Bind.bind, StateT.bind, e] at h
  | some p =>
    obtain ⟨a, rest'⟩ := p
    simp only [Bind.bind, StateT.bind, e, Option.bind_some] at h
    exact hf a (hr _ _ _ e) _ _ _ h

/-- Nothing has to be known of what is read first. -/
theorem after {r : Reader α} {f : α → Reader β} (hf : ∀ a, Yields (f a) Q) : Yields (r >>= f) Q :=
  (any r).bind fun a _ => hf a

theorem ite {c : Prop} [Decidable c] {r r' : Reader α} (h : Yields r P) (h' : Yields r' P) :
    Yields (if c then r else r') P := by
  split
  · exact h
  · exact h'

end Reader.Yields

theorem yields_little {n : Nat} (hn : n ≤ 8) : (Reader.little n).Yields fun x => x.toNat < 1 <<< (8 * n) := by
  induction n with
  | zero => exact .pure (by decide)
  | succ n ih =>
    refine .after fun low => .bind (ih (by omega)) fun high hhigh => .pure ?_
    have hpower : 1 <<< (8 * (n + 1)) = 256 * 1 <<< (8 * n) := by
      rw [Nat.one_shiftLeft, Nat.one_shiftLeft, Nat.mul_succ, Nat.pow_add, Nat.mul_comm]
    have hbound : 1 <<< (8 * n) ≤ 1 <<< 56 := by
      rw [Nat.one_shiftLeft, Nat.one_shiftLeft]
      exact Nat.pow_le_pow_right (by decide) (by omega)
    have hlow := low.toNat_lt
    rw [Memory.toNat_join low (Nat.lt_of_lt_of_le hhigh hbound), hpower]
    omega

/-! ## References -/

/-- What a reference can be that is encoded with addresses of a width. -/
structure Reference.IsEncoded (w : Width) (r : Reference) : Prop where
  base : r.base = .absent ∨ r.base = .instructionPointer w ∨ ∃ g, r.base = .gpr g w
  index : r.index = .absent ∨ (∃ v n, r.index = .vector v n) ∨ ∃ g, r.index = .gpr g w
  /-- The instruction pointer stands alone. -/
  alone : r.base = .instructionPointer w → r.index = .absent
  scale : r.scale ≤ 8
  /-- A displacement is as wide as an address, unless the address of the instruction is still to be added. -/
  displacement : r.base = .instructionPointer w ∨ r.displacement &&& w.mask = r.displacement

theorem isOfSize_gpr (g : Gpr) (w : Width) : (Register.gpr g w).isOfSize w.bytes = true :=
  beq_self_eq_true w.bytes

theorem and_mask_mask (x : UInt64) (w : Width) : x &&& w.mask &&& w.mask = x &&& w.mask := by
  rw [UInt64.and_assoc, UInt64.and_self]

namespace Reference

variable {r : Reference} {w : Width}

theorem one_le_eight : (1 : UInt64) ≤ 8 := by decide

theorem isEncoded_displacement {displacement : UInt64} (h : displacement &&& w.mask = displacement) :
    ({ displacement } : Reference).IsEncoded w :=
  ⟨.inl rfl, .inl rfl, nofun, one_le_eight, .inr h⟩

theorem yields_little_word : (Reader.little 2).Yields fun x => x &&& Width.word.mask = x := by
  intro bytes x rest h
  have hx : x.toNat < 2 ^ 16 := yields_little (by decide) bytes x rest h
  refine UInt64.toNat_inj.1 ?_
  rw [UInt64.toNat_and]
  exact Nat.and_two_pow_sub_one_of_lt_two_pow hx

theorem yields_read16 (f : Fields) (unit : UInt64) : (read16 f unit).Yields (IsEncoded .word) := by
  have words : ∀ n, ((pair n).1 = .absent ∨ ∃ g, (pair n).1 = .gpr g .word) ∧
      ((pair n).2 = .absent ∨ ∃ g, (pair n).2 = .gpr g .word) ∧ (pair n).1 ≠ .instructionPointer .word := by
    intro n
    match n with
    | 0 | 1 | 2 | 3 | 4 | 5 | 6 | 7 => simp [pair]
  have paired : ∀ {displacement : UInt64}, displacement &&& Width.word.mask = displacement →
      ({ base := (pair f.low).1, index := (pair f.low).2, displacement } : Reference).IsEncoded .word := by
    intro displacement h
    obtain ⟨hbase, hindex, hpointer⟩ := words f.low
    exact ⟨hbase.imp_right .inr, hindex.imp_right .inr, fun h => absurd h hpointer, one_le_eight, .inr h⟩
  unfold read16
  dsimp only
  split
  · split
    · exact .bind yields_little_word fun _ h => .pure (isEncoded_displacement h)
    · exact .pure (paired rfl)
  · exact .after fun _ => .pure (paired (and_mask_mask _ _))
  · exact .bind yields_little_word fun _ h => .pure (paired h)

theorem yields_readDisplacement (w : Width) (top : Fin 4) (noBase : Bool) (unit : UInt64) :
    (readDisplacement w top noBase unit).Yields fun x => x &&& w.mask = x := by
  unfold readDisplacement
  split
  · split
    · exact .after fun _ => .pure (and_mask_mask _ _)
    · exact .pure UInt64.zero_and
  · exact .after fun _ => .pure (and_mask_mask _ _)
  · exact .after fun _ => .pure (and_mask_mask _ _)

theorem yields_readScaled (p : Prefixes) (top : Fin 4) {index : Fin 16 → Register}
    (h : ∀ n, index n = .absent ∨ (∃ v k, index n = .vector v k) ∨ ∃ g, index n = .gpr g p.addressWidth)
    (unit : UInt64) : (readScaled p top index unit).Yields (IsEncoded p.addressWidth) := by
  refine .after fun _ => .bind (yields_readDisplacement _ _ _ _) fun displacement hd => .pure ?_
  have hscale : ∀ n : Fin 4, (1 : UInt64) <<< n.val.toUInt64 ≤ 8 := by decide
  refine ⟨?_, h _, ?_, hscale _, .inr hd⟩
  · dsimp only
    split
    · exact .inl rfl
    · exact .inr (.inr ⟨_, rfl⟩)
  · dsimp only
    split <;> exact nofun

theorem generalIndex_cases (w : Width) (n : Fin 16) :
    generalIndex w n = .absent ∨ (∃ v k, generalIndex w n = .vector v k) ∨ ∃ g, generalIndex w n = .gpr g w := by
  unfold generalIndex
  split
  · exact .inl rfl
  · exact .inr (.inr ⟨_, rfl⟩)

theorem yields_readWide (p : Prefixes) (f : Fields) (unit : UInt64) :
    (readWide p f unit).Yields (IsEncoded p.addressWidth) := by
  unfold readWide
  dsimp only
  split
  · exact yields_readScaled p f.top (generalIndex_cases _) unit
  · split
    · refine .after fun _ => ?_
      split
      · exact .pure ⟨.inr (.inl rfl), .inl rfl, fun _ => rfl, one_le_eight, .inl rfl⟩
      · exact .pure (isEncoded_displacement (and_mask_mask _ _))
    · exact .bind (yields_readDisplacement _ _ _ _) fun _ hd =>
        .pure ⟨.inr (.inr ⟨_, rfl⟩), .inl rfl, nofun, one_le_eight, .inr hd⟩

theorem yields_read (p : Prefixes) (f : Fields) (unit : UInt64) :
    (read p f unit).Yields (IsEncoded p.addressWidth) := by
  unfold read
  split
  · next h => exact h ▸ yields_read16 f unit
  · exact yields_readWide p f unit

end Reference

theorem gatherIndex?_vector {p : Prefixes} {form : Form} {index : Fin 16 → Register}
    (h : gatherIndex? p form = some index) (n : Fin 16) : ∃ v k, index n = .vector v k := by
  obtain ⟨code, -, hcode⟩ := List.exists_of_findSome?_eq_some h
  split at hcode
  · cases hcode
    unfold vectorIndex
    split <;> exact ⟨_, _, rfl⟩
  · cases hcode

theorem yields_readReference (p : Prefixes) (f : Fields) (form : Form) :
    (readReference p f form).Yields (Reference.IsEncoded p.addressWidth) := by
  unfold readReference
  dsimp only
  split
  · exact .pure (Reference.isEncoded_displacement UInt64.zero_and)
  · split
    · next index h =>
      split
      · exact Reference.yields_readScaled p f.top (fun n => .inr (.inl (gatherIndex?_vector h n))) _
      · exact Reference.yields_read p f _
    · exact Reference.yields_read p f _

/-! ## Encodings -/

/-- What all encodings have in common: the mode, a uniform form, and a reference with addresses of their width. -/
structure IsRegular (mode : Bitness) (e : Encoding) : Prop where
  mode : e.prefixes.mode = mode
  form : e.form.isUniform = true
  reference : e.reference.IsEncoded e.prefixes.addressWidth

/-- The same where there may be no encoding. -/
def Regular (mode : Bitness) : Option Encoding → Prop
  | none => True
  | some e => e.IsRegular mode

variable {mode : Bitness} {p : Prefixes}

theorem yields_prefixes (mode : Bitness) : (Prefixes.read mode).Yields fun a => a.1.mode = mode := by
  have extend : ∀ {p q : Prefixes} {byte : UInt8}, p.extend? byte = some q → q.mode = p.mode := by
    intro p q byte h
    unfold Prefixes.extend? at h
    split at h
    case h_12 =>
      split at h <;> cases h
      rfl
    all_goals
      cases h
      rfl
  have take : ∀ bytes (p : Prefixes) a rest, p.take bytes = some (a, rest) → a.1.mode = p.mode := by
    intro bytes
    induction bytes with
    | nil => intro p a rest h; cases h
    | cons b tail ih =>
      intro p a rest h
      simp only [Prefixes.take] at h
      cases e : p.extend? b with
      | some q => rw [e] at h; exact (ih q a rest h).trans (extend e)
      | none => rw [e] at h; cases h; rfl
  intro bytes a rest h
  exact take bytes { mode } a rest h

theorem yields_readForm (h : p.mode = mode) (op : UInt8) (f : Fields) {form : Option Form} (hf : Uniform form) :
    (readForm p op f form).Yields (Regular mode) := by
  cases form with
  | none => exact .pure trivial
  | some form =>
    refine .bind (yields_readReference p f form) fun reference hr => .after fun constants => ?_
    exact .pure ⟨h, hf, hr⟩

theorem yields_readOneByte (h : p.mode = mode) (op : UInt8) : (readOneByte p op).Yields (Regular mode) :=
  .after fun f => yields_readForm h op f (uniform_oneByte p op f)

theorem yields_readSuffixed (h : p.mode = mode) : (readSuffixed p).Yields (Regular mode) := by
  refine .after fun f => .bind (yields_readReference p f _) fun reference hr => .after fun op => ?_
  exact .pure ⟨h, isUniform_suffixed op, hr⟩

theorem yields_readTwoByte (h : p.mode = mode) : (readTwoByte p).Yields (Regular mode) := by
  refine .after fun op => .ite ?_ (.ite ?_ (.ite ?_ ?_))
  · exact .after fun op => .after fun f => yields_readForm h op f (.of_find? (by decide +kernel) p op f)
  · exact .after fun op => .after fun f => yields_readForm h op f (.of_find? (by decide +kernel) p op f)
  · exact yields_readSuffixed h
  · exact .after fun f => yields_readForm h op _ (uniform_twoByte p op _)

theorem yields_readVector (before : Prefixes) (h : p.mode = mode) (op : UInt8) {table : List Entry}
    (ht : table.all (·.form.isUniform) = true) (bare : Bool) :
    (readVector before p op table bare).Yields (Regular mode) :=
  .after fun f => yields_readForm h op f (.reserved (.of_find? ht p op f) _)

theorem yields_readShortVector (h : p.mode = mode) : (readShortVector p).Yields (Regular mode) :=
  .after fun first => .after fun op => yields_readVector p (p := p.ofShort first) h op (by decide +kernel) _

theorem yields_readLongVector (h : p.mode = mode) : (readLongVector p).Yields (Regular mode) := by
  refine .after fun first => .after fun second => .after fun op => ?_
  split
  · next table ht =>
    exact yields_readVector p (p := p.ofLong first second) h op (uniform_vectorTables (.inl ht)) _
  · exact .pure trivial

theorem yields_readExtended (h : p.mode = mode) : (readExtended p).Yields (Regular mode) := by
  refine .after fun first => .after fun second => .after fun op => ?_
  split
  · next table ht =>
    exact yields_readVector p (p := p.ofLong first second) h op (uniform_vectorTables (.inr (.inl ht))) _
  · exact .pure trivial

theorem yields_readMasked (h : p.mode = mode) : (readMasked p).Yields (Regular mode) := by
  refine .after fun first => .after fun second => .after fun third => .after fun op => .after fun f => ?_
  split
  · next q table hq ht =>
    have hmode : q.mode = p.mode := by
      unfold Prefixes.ofMasked? at hq
      split at hq <;> cases hq
      rfl
    exact yields_readForm (hmode.trans h) op f
      (.reserved (.of_find? (uniform_vectorTables (.inr (.inr ht))) q op f) _)
  · exact .pure trivial

/-- **Whatever is read is regular.** -/
theorem yields_read (mode : Bitness) : (read mode).Yields (Regular mode) := by
  refine .bind (yields_prefixes mode) fun ⟨p, op⟩ h => .ite ?_ (.ite (.after fun next => ?_) ?_)
  · exact yields_readTwoByte h
  · split
    · exact yields_readShortVector h
    · exact yields_readLongVector h
    · exact yields_readExtended h
    · exact yields_readMasked h
    · exact yields_readOneByte h op
  · exact yields_readOneByte h op

/-! ## Operands -/

variable {e : Encoding}

/-- What a legal encoding means. -/
theorem instruction_of_isLegal {ip : UInt64} {n : Nat} (h : e.isLegal (e.operands (ip + n.toUInt64)) = true) :
    e.instruction ip n =
      { bitness := e.prefixes.mode
        ip
        length := n
        operation := e.form.operation
        flow := e.form.flow
        operands := e.operands (ip + n.toUInt64)
        changes := (registersOf ((e.operands (ip + n.toUInt64)).take e.form.changed) ++
          e.form.implied.flatMap e.impliedRegisters).map e.widened
        stores := memoryOf ((e.operands (ip + n.toUInt64)).take e.form.changed) ++
          e.form.implied.flatMap e.impliedStores
        repeated := e.repeated
        stackBytes := e.stackBytes
        spelling := e.spelling (e.operands (ip + n.toUInt64)) } := by
  unfold instruction
  exact if_pos h

/-- A decoded instruction is that of a regular encoding, or none. -/
theorem decode_eq (mode : Bitness) (ip : UInt64) (bytes : List UInt8) :
    (∃ n, decode mode ip bytes = .undecodable mode ip n) ∨
      ∃ (e : Encoding) (n : Nat), e.IsRegular mode ∧ e.isLegal (e.operands (ip + n.toUInt64)) = true ∧
        decode mode ip bytes = e.instruction ip n := by
  unfold decode
  dsimp only
  split
  · exact .inl ⟨_, rfl⟩
  · exact .inl ⟨_, rfl⟩
  · next e rest h =>
    have regular : e.IsRegular mode := yields_read mode _ _ _ h
    by_cases hlegal : e.isLegal (e.operands (ip + ((bytes.take maxLength).length - rest.length).toUInt64)) = true
    · exact .inr ⟨e, _, regular, hlegal, rfl⟩
    · unfold instruction
      exact .inl ⟨_, (if_neg hlegal).trans (congrArg (Instruction.undecodable · ip _) regular.mode)⟩

/-- A decoded instruction has the operation and the operands of a regular encoding, or no operands at all. -/
theorem decode_cases (mode : Bitness) (ip : UInt64) (bytes : List UInt8) :
    (decode mode ip bytes).operands = [] ∨
      ∃ (e : Encoding) (nextIp : UInt64), e.IsRegular mode ∧ (decode mode ip bytes).operation = e.form.operation ∧
        (decode mode ip bytes).operands = e.operands nextIp := by
  obtain ⟨n, h⟩ | ⟨e, n, regular, hlegal, h⟩ := decode_eq mode ip bytes
  · rw [h]
    exact .inl rfl
  · rw [h, instruction_of_isLegal hlegal]
    exact .inr ⟨e, _, regular, rfl, rfl⟩

theorem mem_operandsOf {nextIp : UInt64} {o : Operand} : ∀ {codes : List OperandCode} {constants : List UInt64},
    o ∈ e.operandsOf nextIp codes constants → ∃ code ∈ codes, ∃ taken, o = e.operand nextIp code taken
  | code :: codes, constants, h => by
    rcases List.mem_cons.1 h with rfl | h
    · exact ⟨code, List.mem_cons_self, _, rfl⟩
    · obtain ⟨other, hmem, taken, ho⟩ := mem_operandsOf h
      exact ⟨other, List.mem_cons_of_mem _ hmem, taken, ho⟩

/-- A general register has the size of its width, high bytes included. -/
theorem isOfSize_generalRegister (e : Encoding) (n : Fin 16) (s : Size) :
    (e.generalRegister n s).isOfSize (s.width e.prefixes).bytes = true := by
  unfold generalRegister
  split
  case h_5 => exact isOfSize_gpr _ _
  all_goals
    have hbyte : s.width e.prefixes = .byte := ‹_›
    rw [hbyte]
    rfl

theorem isOfSize_operand {s : Size} (hb : e.form.broadcast = 0) {code : OperandCode} (hc : code.isOf s = true)
    (nextIp : UInt64) (taken : List UInt64) :
    (e.operand nextIp code taken).isOfSize (s.width e.prefixes).bytes = true := by
  have general := isOfSize_generalRegister e
  have bare : e.broadcasts = false := by simp [broadcasts, hb]
  cases code with
  | rm t =>
    cases eq_of_beq hc
    simp only [operand, registerOr, memoryOperand, bare]
    split
    · exact general _ _
    · exact beq_self_eq_true _
  | reg t =>
    cases eq_of_beq hc
    exact general _ _
  | accumulator t =>
    cases eq_of_beq hc
    exact isOfSize_gpr _ _
  | immediate encoded used =>
    unfold operand
    split <;> first | rfl | contradiction
  | _ => cases hc

theorem width_le_pointer {s : Size} (hs : s = .byte ∨ s = .operand) (p : Prefixes) :
    (s.width p).bytes ≤ p.mode.pointerBytes := by
  rcases hs with rfl | rfl
  · exact p.mode.pointerBytes_pos
  · have hwidth : Size.operand.width p = if p.wide then .qword else if p.operandSize then .word else .dword := rfl
    rw [hwidth]
    unfold Prefixes.wide
    generalize p.rexBit (·.w) = w, p.operandSize = narrow, p.mode = mode
    cases mode <;> cases w <;> cases narrow <;> decide

/-- **Arithmetic:** all operands of a decoded instruction have one size, which is no larger than a pointer. -/
theorem decode_arithmetic {ip : UInt64} {bytes : List UInt8}
    (h : (decode mode ip bytes).operation.isArithmetic = true) :
    ∃ n ≤ mode.pointerBytes, ∀ o ∈ (decode mode ip bytes).operands, o.isOfSize n = true := by
  rcases decode_cases mode ip bytes with hnone | ⟨e, nextIp, regular, hop, hoperands⟩
  · exact ⟨0, Nat.zero_le _, by simp [hnone]⟩
  · have huniform := (Bool.and_eq_true_iff.1 (Bool.and_eq_true_iff.1 regular.form).1).1
    rw [hop] at h
    simp only [h, Bool.not_true, Bool.false_or, Bool.and_eq_true, beq_iff_eq, List.any_eq_true,
      List.mem_cons, List.not_mem_nil, or_false, List.all_eq_true] at huniform
    obtain ⟨hb, s, hs, hall⟩ := huniform
    refine ⟨(s.width e.prefixes).bytes, regular.mode ▸ width_le_pointer hs e.prefixes, ?_⟩
    intro o ho
    rw [hoperands] at ho
    obtain ⟨code, hcode, taken, rfl⟩ := mem_operandsOf ho
    exact isOfSize_operand hb (hall code hcode) nextIp taken

end Encoding

/-- What a reference to memory can be in a decoded instruction, with addresses of a width. -/
structure MemoryOperand.IsEncoded (w : Width) (o : MemoryOperand) : Prop where
  base : o.base = .absent ∨ o.base = .instructionPointer w ∨ ∃ g, o.base = .gpr g w
  index : o.index = .absent ∨ (∃ v n, o.index = .vector v n) ∨ ∃ g, o.index = .gpr g w
  /-- The instruction pointer stands alone. -/
  alone : o.base = .instructionPointer w → o.index = .absent
  scale : o.scale ≤ 8
  displacement : o.base = .absent ∧ o.index = .absent ∨ o.displacement &&& w.mask = o.displacement

/-- The registers of a reference have one width. -/
theorem MemoryOperand.IsEncoded.isOfSize {w : Width} {o : MemoryOperand} (h : o.IsEncoded w) :
    o.base.isOfSize w.bytes = true ∧ o.index.isOfSize w.bytes = true := by
  constructor
  · obtain hbase | hbase | ⟨g, hbase⟩ := h.base
    · rw [hbase]; rfl
    · rw [hbase]; rfl
    · rw [hbase, Encoding.isOfSize_gpr]
  · obtain hindex | ⟨v, n, hindex⟩ | ⟨g, hindex⟩ := h.index
    · rw [hindex]; rfl
    · rw [hindex]; rfl
    · rw [hindex, Encoding.isOfSize_gpr]

namespace Encoding

variable {mode : Bitness} {e : Encoding}

theorem Reference.IsEncoded.operand {r : Reference} {w : Width} (h : r.IsEncoded w) (p : Prefixes) (nextIp : UInt64)
    (size : Nat) : (r.operand p nextIp size).IsEncoded w := by
  refine ⟨h.base, h.index, h.alone, h.scale, .inr ?_⟩
  unfold Reference.operand
  dsimp only
  split
  · next w' hbase =>
    have hw : w' = w := by
      obtain hb | hb | ⟨g, hb⟩ := h.base <;> rw [hbase] at hb <;> cases hb
      rfl
    rw [hw, and_mask_mask]
  · next hbase => exact h.displacement.resolve_left (hbase w)

/-- Every memory operand goes through the reference of the encoding or has an address of its own. -/
theorem isEncoded_memory (hr : e.reference.IsEncoded e.prefixes.addressWidth) {nextIp : UInt64} {code : OperandCode}
    {taken : List UInt64} {o : MemoryOperand} (h : e.operand nextIp code taken = .memory o) :
    o.IsEncoded e.prefixes.addressWidth := by
  have through : ∀ {size}, Operand.memory (e.reference.operand e.prefixes nextIp size) = .memory o →
      o.IsEncoded e.prefixes.addressWidth := by
    intro size h
    cases h
    exact hr.operand _ _ _
  have either : ∀ {code r}, e.registerOr nextIp code r = .memory o → o.IsEncoded e.prefixes.addressWidth := by
    intro code r h
    unfold registerOr at h
    split at h
    · cases h
    · exact through h
  have alone : ∀ {o : MemoryOperand}, o.base = .absent → o.index = .absent → o.scale = 1 →
      o.IsEncoded e.prefixes.addressWidth := by
    intro o hbase hindex hscale
    exact ⟨.inl hbase, .inl hindex, fun _ => hindex, hscale ▸ Reference.one_le_eight, .inl ⟨hbase, hindex⟩⟩
  unfold operand at h
  dsimp only at h
  split at h
  all_goals first | exact either h | exact through h | (cases h; done) | (cases h; exact alone rfl rfl rfl)

theorem isEncoded_slot (e : Encoding) (bytes k : Nat) : (e.slot bytes k).IsEncoded e.prefixes.mode.pointerWidth := by
  refine ⟨.inr (.inr ⟨.sp, rfl⟩), .inl rfl, nofun, Reference.one_le_eight, .inr ?_⟩
  unfold slot
  rw [← Bitness.mask_pointerWidth, and_mask_mask]

theorem isEncoded_addressed (s : Segment) (g : Gpr) (w : Width) (bytes : Nat) :
    (addressed s (.gpr g w) bytes).IsEncoded w :=
  ⟨.inr (.inr ⟨g, rfl⟩), .inl rfl, nofun, Reference.one_le_eight, .inr UInt64.zero_and⟩

theorem addressWidth_le (p : Prefixes) : p.addressWidth.bytes ≤ p.mode.pointerBytes := by
  unfold Prefixes.addressWidth
  cases p.mode <;> cases p.addressSize <;> decide

theorem isEncoded_impliedStores {x : Implied} {o : MemoryOperand} (h : o ∈ e.impliedStores x) :
    ∃ w, w.bytes ≤ e.prefixes.mode.pointerBytes ∧ o.IsEncoded w := by
  have pointer : e.prefixes.mode.pointerWidth.bytes ≤ e.prefixes.mode.pointerBytes :=
    Nat.le_of_eq (Bitness.bytes_pointerWidth _)
  cases x with
  | slots s n | frame =>
    obtain ⟨k, -, rfl⟩ := List.mem_map.1 h
    exact ⟨_, pointer, isEncoded_slot e _ _⟩
  | destination s | memory s g bytes | target bytes =>
    obtain rfl := List.mem_singleton.1 h
    exact ⟨_, addressWidth_le _, isEncoded_addressed _ _ _ _⟩
  | _ => cases h

end Encoding

/-- Whether an instruction reads or may write memory through a reference. -/
def Instruction.References (i : Instruction) (o : MemoryOperand) : Prop :=
  .memory o ∈ i.operands ∨ o ∈ i.stores

namespace Encoding

variable {mode : Bitness} {ip : UInt64} {bytes : List UInt8} {o : MemoryOperand}

/-- **Memory:** a reference of a decoded instruction is of the mode or narrower, and otherwise as encoded. -/
theorem decode_references (h : (decode mode ip bytes).References o) :
    ∃ w : Width, w.bytes ≤ mode.pointerBytes ∧ o.IsEncoded w := by
  obtain ⟨n, hnone⟩ | ⟨e, n, regular, hlegal, hsome⟩ := decode_eq mode ip bytes
  · rw [hnone] at h
    obtain h | h := h <;> cases h
  · have explicit : .memory o ∈ e.operands (ip + n.toUInt64) → ∃ w : Width, w.bytes ≤ mode.pointerBytes ∧ o.IsEncoded w := by
      intro ho
      obtain ⟨code, -, taken, hcode⟩ := mem_operandsOf ho
      exact ⟨_, regular.mode ▸ addressWidth_le _, isEncoded_memory regular.reference hcode.symm⟩
    rw [hsome, instruction_of_isLegal hlegal] at h
    obtain h | h := h
    · exact explicit h
    · obtain h | h := List.mem_append.1 h
      · obtain ⟨d, hd, hmemory⟩ := List.mem_filterMap.1 h
        cases d with
        | memory o' =>
          cases hmemory
          exact explicit (List.mem_of_mem_take hd)
        | _ => cases hmemory
      · obtain ⟨x, -, hx⟩ := List.mem_flatMap.1 h
        exact regular.mode ▸ isEncoded_impliedStores hx

/-- The registers of a reference in a decoded instruction have one width. -/
theorem decode_memory (h : .memory o ∈ (decode mode ip bytes).operands) :
    ∃ n, o.base.isOfSize n = true ∧ o.index.isOfSize n = true := by
  obtain ⟨w, -, hencoded⟩ := decode_references (.inl h)
  exact ⟨w.bytes, hencoded.isOfSize⟩

end Encoding

end KernelOffsets
