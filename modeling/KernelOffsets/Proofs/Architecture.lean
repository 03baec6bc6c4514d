/-
The machine against the processor. Words are wider than the numbers they stand
for, but cutting them goes through every operation, so that an instruction
leaves a machine as it leaves the processor in it (`Machine.performs_step`).
The main result is `Machine.step_executes`, about decoded instructions.
-/
import KernelOffsets.Proofs.ProcessorView

namespace KernelOffsets

/-! ## Arithmetic -/

section

variable {w : Width} {A : BitVec w.bits}

theorem setWidth_setWidth_bits (w v : Width) (A : BitVec v.bits) : (A.setWidth 64).setWidth w.bits = A.setWidth w.bits :=
  BitVec.setWidth_setWidth_of_le A w.bits_le

theorem setWidth_sub (w : Width) (x y : BitVec 64) : (x - y).setWidth w.bits = x.setWidth w.bits - y.setWidth w.bits := by
  rw [BitVec.eq_sub_iff_add_eq, ← BitVec.setWidth_add _ _ w.bits_le, BitVec.sub_add_cancel]

theorem setWidth_shiftLeft (w : Width) (x : BitVec 64) (k : Nat) :
    (x <<< k).setWidth w.bits = x.setWidth w.bits <<< k := by
  have hle := w.bits_le
  apply BitVec.eq_of_getLsbD_eq
  intro i hi
  simp only [BitVec.getLsbD_setWidth, BitVec.getLsbD_shiftLeft]
  grind

theorem setWidth_ushiftRight (A : BitVec w.bits) (k : Nat) : ((A.setWidth 64) >>> k).setWidth w.bits = A >>> k := by
  have hle := w.bits_le
  apply BitVec.eq_of_getLsbD_eq
  intro i hi
  simp only [BitVec.getLsbD_setWidth, BitVec.getLsbD_ushiftRight]
  grind

theorem setWidth_sshiftRight (A : BitVec w.bits) (k : Nat) :
    ((A.signExtend 64).sshiftRight k).setWidth w.bits = A.sshiftRight k := by
  have hle := w.bits_le
  have hmsb : (A.signExtend 64).msb = A.msb := by
    rw [BitVec.msb_eq_getLsbD_last, BitVec.getLsbD_signExtend, BitVec.msb_eq_getLsbD_last]
    grind
  apply BitVec.eq_of_getLsbD_eq
  intro i hi
  simp only [BitVec.getLsbD_setWidth, BitVec.getLsbD_sshiftRight, BitVec.getLsbD_signExtend, hmsb]
  grind

end

namespace Machine

theorem toNat_shiftCount (w : Width) (c : UInt64) :
    (shiftCount w.bytes c).toNat = c.toNat % (if w = .qword then 64 else 32) := by
  cases w with
  | qword => exact (UInt64.toNat_and ..).trans (Nat.and_two_pow_sub_one_eq_mod c.toNat 6)
  | _ => exact (UInt64.toNat_and ..).trans (Nat.and_two_pow_sub_one_eq_mod c.toNat 5)

theorem shiftCount_lt (w : Width) (c : UInt64) : (shiftCount w.bytes c).toNat < 64 := by
  rw [toNat_shiftCount]
  split <;> omega

theorem toBitVec_shiftLeft_of_lt (x : UInt64) {k : UInt64} (hk : k.toNat < 64) :
    (x <<< k).toBitVec = x.toBitVec <<< k.toNat := by
  have hmod : (k.toBitVec % 64).toNat = k.toNat := Nat.mod_eq_of_lt hk
  rw [UInt64.toBitVec_shiftLeft, BitVec.shiftLeft_eq', hmod]

theorem toBitVec_shiftRight_of_lt (x : UInt64) {k : UInt64} (hk : k.toNat < 64) :
    (x >>> k).toBitVec = x.toBitVec >>> k.toNat := by
  have hmod : (k.toBitVec % 64).toNat = k.toNat := Nat.mod_eq_of_lt hk
  rw [UInt64.toBitVec_shiftRight, BitVec.ushiftRight_eq', hmod]

theorem toBitVec_shiftSigned (x : UInt64) {k : UInt64} (hk : k.toNat < 64) :
    (shiftSigned x k).toBitVec = x.toBitVec.sshiftRight k.toNat := by
  -- The count is taken modulo 64 as a signed number, which it is not changed by.
  have hsmod : ∀ n : Fin 64, (BitVec.ofNat 64 n).smod 64 = BitVec.ofNat 64 n := by decide
  have hcount : k.toBitVec.smod 64 = k.toBitVec := by
    have hword : BitVec.ofNat 64 k.toNat = k.toBitVec := (BitVec.ofNat_toNat ..).trans (BitVec.setWidth_eq _)
    rw [← hword]
    exact hsmod ⟨k.toNat, hk⟩
  have hshift : (shiftSigned x k).toBitVec = x.toBitVec.sshiftRight' (k.toBitVec.smod 64) :=
    Int64.toBitVec_shiftRight _ _
  rw [hshift, hcount]
  rfl

/-! ## Instructions -/

variable {m : Machine} {b : Bitness} {i : Instruction} {code : List UInt8}

theorem first_eq_second_of_isOnItself (h : i.isOnItself = true) : i.first = i.second := by
  unfold Instruction.isOnItself at h
  split at h
  · next r r' hoperands =>
    cases eq_of_beq h
    simp [Instruction.first, Instruction.second, hoperands]
  · cases h

theorem cut_fetch (hb : m.bitness = b) {o : Operand} {w : Width} (ho : o.IsOfWidth w) :
    (m.fetch o).bits.toBitVec.setWidth w.bits = (m.processor b).read w ((m.processor b).place o) := by
  rw [toBitVec_fetch hb ho, setWidth_setWidth_bits, BitVec.setWidth_eq]

/-- The machine gives the first operand the result that the processor gives it. -/
def Yields (m : Machine) (b : Bitness) (i : Instruction) : Prop :=
  ∃ z, m.step i = m.assign i.first z ∧ z.bits.toBitVec.setWidth i.first.width.bits =
    (m.processor b).result i.operation i.first.width i.second.width ((m.processor b).place i.first)
      ((m.processor b).place i.second)

theorem yields_same (hb : m.bitness = b) (hx : i.first.IsOfWidth i.first.width) (hy : i.second.IsOfWidth i.first.width)
    (hop : i.operation ∈ [.mov, .add, .sub, .and, .or, .xor]) : m.Yields b i := by
  have hX := cut_fetch hb hx
  have hY := cut_fetch hb hy
  have hzero : (0 : UInt64).toBitVec.setWidth i.first.width.bits = 0 := BitVec.setWidth_ofNat_of_le (Width.bits_le _) 0
  have hitself : i.isOnItself = true → (m.processor b).read i.first.width ((m.processor b).place i.second) =
      (m.processor b).read i.first.width ((m.processor b).place i.first) := by
    intro h
    rw [first_eq_second_of_isOnItself h]
  unfold Yields
  simp only [List.mem_cons, List.not_mem_nil, or_false] at hop
  rcases hop with hop | hop | hop | hop | hop | hop <;> simp only [step, hop]
  · exact ⟨_, rfl, hY⟩
  · refine ⟨_, rfl, ?_⟩
    rw [Value.bits_add, UInt64.toBitVec_add, BitVec.setWidth_add _ _ i.first.width.bits_le, hX, hY]
    rfl
  · -- A register minus itself is zero by a rule of its own, and so is the exclusive or below.
    split
    · next h =>
      refine ⟨_, rfl, ?_⟩
      simp only [Processor.result]
      rw [hitself h, BitVec.sub_self]
      exact hzero
    · refine ⟨_, rfl, ?_⟩
      rw [Value.bits_sub, UInt64.toBitVec_sub, setWidth_sub, hX, hY]
      rfl
  · refine ⟨_, rfl, ?_⟩
    rw [Value.bits_plain, UInt64.toBitVec_and, BitVec.setWidth_and, hX, hY]
    rfl
  · refine ⟨_, rfl, ?_⟩
    rw [Value.bits_plain, UInt64.toBitVec_or, BitVec.setWidth_or, hX, hY]
    rfl
  · split
    · next h =>
      refine ⟨_, rfl, ?_⟩
      simp only [Processor.result]
      rw [hitself h, BitVec.xor_self]
      exact hzero
    · refine ⟨_, rfl, ?_⟩
      rw [Value.bits_plain, UInt64.toBitVec_xor, BitVec.setWidth_xor, hX, hY]
      rfl

theorem yields_widened (hb : m.bitness = b) (hy : i.second.IsPlaceOf i.second.width)
    (hop : i.operation ∈ [.movzx, .movsx, .movsxd]) : m.Yields b i := by
  have hY := cut_fetch hb hy.isOfWidth
  have hbytes := m.operandBytes_of_isPlaceOf hy
  unfold Yields
  simp only [List.mem_cons, List.not_mem_nil, or_false] at hop
  rcases hop with hop | hop | hop <;> simp only [step, hop, hbytes]
  · refine ⟨_, rfl, ?_⟩
    rw [Value.bits_plain, toBitVec_fetch hb hy.isOfWidth, setWidth_setWidth_bits]
    rfl
  all_goals
    refine ⟨_, rfl, ?_⟩
    rw [Value.bits_plain, Width.toBitVec_signExtend, Width.setWidth_signExtend, hY]
    rfl

theorem toNat_count (hb : m.bitness = b) {w : Width} {o : Operand} (ho : o.IsOfWidth .byte) :
    (shiftCount w.bytes (m.fetch o).bits).toNat = (m.processor b).count w ((m.processor b).place o) := by
  have hword : (m.fetch o).bits.toNat = ((m.processor b).read .byte ((m.processor b).place o)).toNat := by
    have h := congrArg BitVec.toNat (toBitVec_fetch hb ho)
    rwa [BitVec.toNat_setWidth_of_le Width.byte.bits_le] at h
  rw [toNat_shiftCount, hword]
  rfl

theorem yields_shifted (hb : m.bitness = b) (hx : i.first.IsPlaceOf i.first.width) (hy : i.second.IsOfWidth .byte)
    (hop : i.operation ∈ [.shl, .shr, .sar]) : m.Yields b i := by
  have hX := cut_fetch hb hx.isOfWidth
  have hbytes := m.operandBytes_of_isPlaceOf hx
  have hcount := toNat_count (w := i.first.width) hb hy
  have hlt := shiftCount_lt i.first.width (m.fetch i.second).bits
  unfold Yields
  simp only [List.mem_cons, List.not_mem_nil, or_false] at hop
  rcases hop with hop | hop | hop <;> simp only [step, hop, combine, hbytes]
  · refine ⟨_, rfl, ?_⟩
    rw [Value.bits_plain, toBitVec_shiftLeft_of_lt _ hlt, hcount, setWidth_shiftLeft, hX]
    rfl
  · refine ⟨_, rfl, ?_⟩
    rw [Value.bits_plain, toBitVec_shiftRight_of_lt _ hlt, hcount, Width.lowBytes_bytes, Width.toBitVec_and_mask, hX,
      setWidth_ushiftRight]
    rfl
  · refine ⟨_, rfl, ?_⟩
    rw [Value.bits_plain, toBitVec_shiftSigned _ hlt, hcount, Width.toBitVec_signExtend, hX, setWidth_sshiftRight]
    rfl

theorem yields_changed (hb : m.bitness = b) (hx : i.first.IsOfWidth i.first.width)
    (hop : i.operation ∈ [.inc, .dec, .neg, .not]) : m.Yields b i := by
  have hX := cut_fetch hb hx
  have hle := i.first.width.bits_le
  have hone : (1 : BitVec 64).setWidth i.first.width.bits = 1 := BitVec.setWidth_ofNat_of_le hle 1
  have hzero : (0 : UInt64).toBitVec.setWidth i.first.width.bits = 0 := BitVec.setWidth_ofNat_of_le hle 0
  unfold Yields
  simp only [List.mem_cons, List.not_mem_nil, or_false] at hop
  rcases hop with hop | hop | hop | hop <;> simp only [step, hop, change]
  · refine ⟨_, rfl, ?_⟩
    rw [UInt64.toBitVec_add, BitVec.setWidth_add _ _ hle, hX]
    exact congrArg _ hone
  · refine ⟨_, rfl, ?_⟩
    rw [UInt64.toBitVec_sub, setWidth_sub, hX]
    exact congrArg _ hone
  · refine ⟨_, rfl, ?_⟩
    rw [Value.bits_plain, UInt64.toBitVec_sub, setWidth_sub, hX, hzero]
    exact BitVec.zero_sub _
  · refine ⟨_, rfl, ?_⟩
    rw [Value.bits_plain, UInt64.toBitVec_not, BitVec.setWidth_not hle, hX]
    rfl

theorem first_eq {x : Operand} {rest : List Operand} (h : i.operands = x :: rest) : i.first = x := by
  simp [Instruction.first, h]

theorem second_eq {x y : Operand} {rest : List Operand} (h : i.operands = x :: y :: rest) : i.second = y := by
  simp [Instruction.second, h]

/-- Every operation with one result has a place for it, and gives it that of the processor. -/
theorem yields_of_hasShape (hb : m.bitness = b) (hs : i.HasShape code) (hpush : i.operation ≠ .push)
    (hpop : i.operation ≠ .pop) (hxchg : i.operation ≠ .xchg) :
    i.first.IsPlaceOf i.first.width ∧ m.Yields b i := by
  unfold Instruction.HasShape at hs
  cases hop : i.operation
  case mov | add | sub | and | or | xor =>
    simp only [hop] at hs
    obtain ⟨w, x, y, hoperands, hx, hy⟩ := hs
    obtain rfl := hx.isOfWidth.width_eq
    rw [← first_eq hoperands] at hx hy
    rw [← second_eq hoperands] at hy
    exact ⟨hx, yields_same hb hx.isOfWidth hy.isOfWidth (by simp [hop])⟩
  case movzx | movsx | movsxd =>
    simp only [hop] at hs
    obtain ⟨w, v, x, y, hoperands, -, hx, hy⟩ := hs
    obtain rfl := hx.isOfWidth.width_eq
    obtain rfl := hy.isOfWidth.width_eq
    rw [← first_eq hoperands] at hx
    rw [← second_eq hoperands] at hy
    exact ⟨hx, yields_widened hb hy (by simp [hop])⟩
  case shl | shr | sar =>
    simp only [hop] at hs
    obtain ⟨w, x, y, hoperands, hx, hy⟩ := hs
    obtain rfl := hx.isOfWidth.width_eq
    rw [← first_eq hoperands] at hx
    rw [← second_eq hoperands] at hy
    exact ⟨hx, yields_shifted hb hx hy.isOfWidth (by simp [hop])⟩
  case inc | dec | neg | not =>
    simp only [hop] at hs
    obtain ⟨w, x, hoperands, hx⟩ := hs
    obtain rfl := hx.isOfWidth.width_eq
    rw [← first_eq hoperands] at hx
    exact ⟨hx, yields_changed hb hx.isOfWidth (by simp [hop])⟩
  case push => exact absurd hop hpush
  case pop => exact absurd hop hpop
  case xchg => exact absurd hop hxchg
  all_goals
    simp only [hop] at hs

end Machine

theorem Processor.writes_result {b : Bitness} (s : Processor b) {i : Instruction} (hpush : i.operation ≠ .push)
    (hpop : i.operation ≠ .pop) (hxchg : i.operation ≠ .xchg) :
    s.writes i = [⟨i.first.width, s.place i.first,
      s.result i.operation i.first.width i.second.width (s.place i.first) (s.place i.second)⟩] := by
  unfold writes
  dsimp only
  split
  · contradiction
  · contradiction
  · contradiction
  · rfl

namespace Machine

variable {m : Machine} {b : Bitness} {i : Instruction} {code : List UInt8}

/-! ## Writes -/

/--
A machine becomes what its processor becomes by some writes; a register that is
not written keeps its mark, and so does a pointer of which no byte is written.
-/
structure Performs (b : Bitness) (m m' : Machine) (writes : List (Processor.Write b)) : Prop where
  image : m'.image = m.image
  bitness : m'.bitness = m.bitness
  state : m'.processor b = writes.foldl Processor.write (m.processor b)
  registers : ∀ g, (∀ e ∈ writes, ¬ e.place.IsIn g) → m'.registers.value g = m.registers.value g
  spills : ∀ x, (∀ e ∈ writes, ∀ j < b.pointerBytes, ¬ e.Covers (x + .ofNat _ j)) →
    m'.memory.slots.contains (b.spread x) = m.memory.slots.contains (b.spread x)

namespace Performs

variable {m' m'' : Machine} {writes writes' : List (Processor.Write b)} {w : Width}

theorem trans (h : Performs b m m' writes) (h' : Performs b m' m'' writes') :
    Performs b m m'' (writes ++ writes') where
  image := h'.image.trans h.image
  bitness := h'.bitness.trans h.bitness
  state := by rw [h'.state, h.state, List.foldl_append]
  registers g hg := by
    rw [List.forall_mem_append] at hg
    exact (h'.registers g hg.2).trans (h.registers g hg.1)
  spills x hx := by
    rw [List.forall_mem_append] at hx
    exact (h'.spills x hx.2).trans (h.spills x hx.1)

theorem store (hb : m.bitness = b) (w : Width) (a : UInt64) (x : Value) :
    Performs b m (m.store a w.bytes x) [⟨w, .memory (b.cut a), x.bits.toBitVec.setWidth w.bits⟩] where
  image := rfl
  bitness := rfl
  state := processor_store hb w a x
  registers _ _ := rfl
  spills y hy := by
    subst hb
    rw [List.forall_mem_singleton] at hy
    have hpos : 0 < w.bytes := by cases w <;> decide
    refine Memory.contains_store_of_not_meets (Bitness.spread_and_mask y) (Bitness.not_meets_spread hpos ?_)
    exact fun j hj hlt => hy j hj ⟨_, rfl, hlt⟩

theorem writeRegister (m : Machine) (b : Bitness) (r : Register) (x : Value) :
    Performs b m (m.writeRegister r x) [⟨r.width, .register r, x.bits.toBitVec.setWidth r.width.bits⟩] where
  image := rfl
  bitness := bitness_writeRegister m r x
  state := processor_writeRegister m b r x
  registers g hg := by
    rw [List.forall_mem_singleton] at hg
    cases r with
    | gpr g' _ =>
      have hne : g' ≠ g := fun heq => hg ⟨_, rfl, congrArg some heq⟩
      exact (RegisterFile.value_put ..).trans (if_neg hne)
    | highByte h =>
      have hne : h.owner ≠ g := fun heq => hg ⟨_, rfl, congrArg some heq⟩
      exact (RegisterFile.value_put ..).trans (if_neg hne)
    | _ => rfl
  spills _ _ := rfl

/-- An operand is assigned the low bits of a word. -/
theorem assign (hb : m.bitness = b) {o : Operand} (ho : o.IsPlaceOf w) (x : Value) :
    Performs b m (m.assign o x) [⟨w, (m.processor b).place o, x.bits.toBitVec.setWidth w.bits⟩] := by
  cases o with
  | register r =>
    obtain ⟨-, rfl⟩ := ho
    exact writeRegister m b r x
  | memory o =>
    have hsize : o.size = w.bytes := ho
    rw [Machine.assign, hsize, Processor.place, ← cut_address hb]
    exact store hb w _ x
  | _ => cases ho

theorem setStackTop (hb : m.bitness = b) (a : UInt64) :
    Performs b m (m.setStackTop a) [Processor.moveStack (b.cut a)] := by
  subst hb
  have hcut : (a &&& m.bitness.addressMask).toBitVec.setWidth _ = m.bitness.cut a := Bitness.cut_and_mask a
  rw [← hcut]
  exact writeRegister m m.bitness m.bitness.stackPointer (.plain (a &&& m.bitness.addressMask))

end Performs

theorem cut_stackTop_setStackTop (hb : m.bitness = b) (a : UInt64) : b.cut (m.setStackTop a).stackTop = b.cut a := by
  have hmoved := Performs.setStackTop hb a
  rw [← stackTop_processor (hmoved.bitness.trans hb), hmoved.state]
  exact Processor.named_write_self (r := b.stackPointer) rfl rfl (b.cut a)

/-- An operation with one result writes it. -/
theorem performs_result (hb : m.bitness = b) (hs : i.HasShape code) (hpush : i.operation ≠ .push)
    (hpop : i.operation ≠ .pop) (hxchg : i.operation ≠ .xchg) :
    Performs b m (m.step i) ((m.processor b).writes i) := by
  obtain ⟨hx, z, hstep, hz⟩ := yields_of_hasShape hb hs hpush hpop hxchg
  rw [hstep, Processor.writes_result _ hpush hpop hxchg, ← hz]
  exact .assign hb hx z

/-- A push stores what was read before the stack pointer moved. -/
theorem performs_push (hb : m.bitness = b) (hs : i.HasShape code) (hop : i.operation = .push) :
    Performs b m (m.step i) ((m.processor b).writes i) := by
  simp only [Instruction.HasShape, hop] at hs
  obtain ⟨w, x, hoperands, hx, hbytes⟩ := hs
  obtain rfl := hx.isOfWidth.width_eq
  rw [← first_eq hoperands] at hx hbytes
  have hstep : m.step i = m.push i := by simp only [step, hop]
  rw [hstep, push, hbytes]
  generalize htop : m.stackTop - i.first.width.bytes.toUInt64 = top
  have hcut : (m.processor b).stackTop - .ofNat _ i.first.width.bytes = b.cut top := by
    rw [← htop, Bitness.cut_sub, Bitness.cut_toUInt64, stackTop_processor hb]
  simp only [Processor.writes, hop, hcut]
  have hmoved := Performs.setStackTop hb top
  have hstored := Performs.store (hmoved.bitness.trans hb) i.first.width (m.setStackTop top).stackTop (m.fetch i.first)
  rw [cut_stackTop_setStackTop hb, cut_fetch hb hx.isOfWidth] at hstored
  exact hmoved.trans hstored

/-- A pop writes what was read before the stack pointer moved to where its destination is after that. -/
theorem performs_pop (hb : m.bitness = b) (hs : i.HasShape code) (hop : i.operation = .pop) :
    Performs b m (m.step i) ((m.processor b).writes i) := by
  simp only [Instruction.HasShape, hop] at hs
  obtain ⟨w, x, hoperands, hx, hbytes⟩ := hs
  obtain rfl := hx.isOfWidth.width_eq
  rw [← first_eq hoperands] at hx hbytes
  have hstep : m.step i = m.pop i := by simp only [step, hop]
  rw [hstep, pop, hbytes]
  generalize htop : m.stackTop + i.first.width.bytes.toUInt64 = top
  have hcut : (m.processor b).stackTop + .ofNat _ i.first.width.bytes = b.cut top := by
    rw [← htop, Bitness.cut_add, Bitness.cut_toUInt64, stackTop_processor hb]
  simp only [Processor.writes, hop, hcut]
  have hmoved := Performs.setStackTop hb top
  have hassigned := Performs.assign (hmoved.bitness.trans hb) hx (m.load m.stackTop i.first.width.bytes)
  rw [hmoved.state, toBitVec_load hb, setWidth_setWidth_bits, BitVec.setWidth_eq, ← stackTop_processor hb] at hassigned
  exact hmoved.trans hassigned

/-- An exchange reads both operands before it writes one. -/
theorem performs_exchange (hb : m.bitness = b) (hs : i.HasShape code) (hop : i.operation = .xchg) :
    Performs b m (m.step i) ((m.processor b).writes i) := by
  simp only [Instruction.HasShape, hop] at hs
  obtain ⟨w, x, r, hoperands, hx, hr⟩ := hs
  obtain rfl := hx.isOfWidth.width_eq
  rw [← first_eq hoperands] at hx hr
  have hy := second_eq hoperands
  have hstep : m.step i = m.exchange i := by simp only [step, hop]
  rw [hstep, exchange, hy]
  simp only [Processor.writes, hop, hy]
  have hfirst := Performs.assign hb hx (m.fetch (.register r))
  have hsecond := Performs.assign (hfirst.bitness.trans hb) hr (m.fetch i.first)
  rw [cut_fetch hb hr.isOfWidth] at hfirst
  rw [cut_fetch hb hx.isOfWidth] at hsecond
  exact hfirst.trans hsecond

/-- **A machine performs the writes of the processor.** -/
theorem performs_step (hb : m.bitness = b) (hs : i.HasShape code) :
    Performs b m (m.step i) ((m.processor b).writes i) := by
  by_cases hpush : i.operation = .push
  · exact performs_push hb hs hpush
  · by_cases hpop : i.operation = .pop
    · exact performs_pop hb hs hpop
    · by_cases hxchg : i.operation = .xchg
      · exact performs_exchange hb hs hxchg
      · exact performs_result hb hs hpush hpop hxchg

/-- What is exchanged holds what the other one held, also if both are parts of one register. -/
theorem read_exchange (s : Processor b) {w : Width} {x : Operand} {r : Register} (hx : x.IsPlaceOf w)
    (hr : (Operand.register r).IsPlaceOf w) :
    let t := (s.write ⟨w, s.place x, s.read w (.register r)⟩).write ⟨w, .register r, s.read w (s.place x)⟩
    t.read w (s.place x) = s.read w (.register r) ∧ t.read w (.register r) = s.read w (s.place x) := by
  refine ⟨?_, Processor.named_write_self hr.1 hr.2 _⟩
  cases x with
  | register r' =>
    by_cases heq : r = r'
    · subst heq
      exact Processor.named_write_self hr.1 hr.2 _
    · refine (Processor.named_write_of_ne hx.2 hr.2 heq _).trans ?_
      exact Processor.named_write_self hx.1 hx.2 _
  | memory o =>
    have hnumber := Processor.number_congr (Processor.memory_write_register (s.write ⟨w, .memory (s.address o),
      s.read w (.register r)⟩) r (s.read w (.memory (s.address o)))) (s.address o) w.bytes
    exact (congrArg (BitVec.ofNat w.bits) hnumber).trans (Processor.read_store s (s.address o) _)
  | _ => cases hx

end Machine

/-- The operations whose results are told by the processor. -/
def Operation.computed : List Operation :=
  [.mov, .movzx, .movsx, .movsxd, .add, .sub, .and, .or, .xor, .shl, .shr, .sar, .inc, .dec, .neg, .not, .xchg,
    .push, .pop]

theorem Operation.shapes_ne_nil {o : Operation} (h : o ∈ computed) : o.shapes ≠ [] := by
  have hall : ∀ o ∈ computed, o.shapes ≠ [] := by decide
  exact hall o h

namespace Machine

/-- A machine executes an instruction of some code as the processor does, and changes nothing else. -/
structure Executes (m : Machine) (i : Instruction) (code : List UInt8) : Prop where
  /-- Widths fit together, and constants are those of the code with their signs. -/
  shape : i.HasShape code
  /-- The places that are written, and nothing else, become what the processor makes of them. -/
  performs : Performs m.bitness m (m.step i) ((m.processor m.bitness).writes i)
  bytes : ∀ x, (∀ e ∈ (m.processor m.bitness).writes i, ¬ e.Covers x) →
    ((m.step i).processor m.bitness).memory x = (m.processor m.bitness).memory x
  exchange : i.operation = .xchg →
    let s := m.processor m.bitness
    let t := (m.step i).processor m.bitness
    t.read i.first.width (s.place i.first) = s.read i.first.width (s.place i.second) ∧
      t.read i.first.width (s.place i.second) = s.read i.first.width (s.place i.first)

/--
**Instructions compute what the processor computes.** The operands of a decoded
instruction are general registers, memory and constants.
-/
theorem step_executes (m : Machine) (ip : UInt64) (bytes : List UInt8) :
    let i := Encoding.decode m.bitness ip bytes
    i.operation ∈ Operation.computed → (∀ o ∈ i.operands, o.IsGeneral) → m.Executes i (bytes.take i.length) := by
  intro i hop hgeneral
  have hs : i.HasShape (bytes.take i.length) := Encoding.decode_hasShape (Operation.shapes_ne_nil hop) hgeneral
  have hperforms := performs_step (m := m) rfl hs
  refine ⟨hs, hperforms, fun x hx => ?_, fun hxchg => ?_⟩
  · rw [hperforms.state]
    exact Processor.memory_foldl_write hx
  · simp only [Instruction.HasShape, hxchg] at hs
    obtain ⟨w, x, r, hoperands, hx, hr⟩ := hs
    obtain rfl := hx.isOfWidth.width_eq
    rw [← first_eq hoperands] at hx hr
    have hy := second_eq hoperands
    simp only [hperforms.state, Processor.writes, hxchg, hy]
    exact read_exchange (m.processor m.bitness) hx hr

/-- The two low bytes of a register are exchanged. -/
theorem step_executes_halves :
    let m := (Machine.initial (.ofBytes 0x10000 .x64 #[]) 0x800000).writeRegister (.gpr .ax .qword)
      (.plain 0x1122334455667788)
    let i := Encoding.decode m.bitness 0x10000 [0x86, 0xc4]
    i.operation = .xchg ∧ i.operands = [.register (.highByte .ah), .register (.gpr .ax .byte)] ∧
      m.Executes i [0x86, 0xc4] ∧ (m.step i).registers.value .ax = .plain 0x1122334455668877 := by
  intro m i
  have hop : i.operation = .xchg := by decide +kernel
  have hoperands : i.operands = [.register (.highByte .ah), .register (.gpr .ax .byte)] := by decide +kernel
  have hgeneral : ∀ o ∈ i.operands, o.IsGeneral := by
    rw [hoperands]
    exact List.forall_mem_cons.2 ⟨rfl, List.forall_mem_singleton.2 rfl⟩
  have hexecutes := step_executes m 0x10000 [0x86, 0xc4] (by rw [hop]; decide) hgeneral
  exact ⟨hop, hoperands, hexecutes, by decide +kernel⟩

end Machine

end KernelOffsets
