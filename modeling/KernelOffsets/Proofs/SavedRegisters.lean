/-
Registers that are saved on the stack. Every instruction keeps the pointer in
a slot that it does not write (`Machine.valueAt_step`). So a block that
pushes some registers, runs anything that spares their slots, and pops them
in the opposite order leaves them and the stack pointer as they were
(`Machine.saved_restored`). The proof goes by the outermost push and pop,
around a block that spares the slot between them.
-/
import KernelOffsets.Proofs.SizedOperands
import KernelOffsets.Proofs.WellFormed
import KernelOffsets.Proofs.WrittenRegisters

namespace KernelOffsets

/-- A push or a pop of a register of full width. -/
structure Instruction.Moves (b : Bitness) (o : Operation) (g : Gpr) (i : Instruction) : Prop where
  operation : i.operation = o
  operands : i.operands = [.register (b.wide g)]
  size : i.stackBytes = b.pointerBytes

/-- A decoded push or pop of a whole register moves a pointer. -/
theorem Encoding.decode_moves {mode : Bitness} {ip : UInt64} {bytes : List UInt8} {o : Operation} {g : Gpr}
    (ho : o = .push ∨ o = .pop) (hop : (decode mode ip bytes).operation = o)
    (hoperands : (decode mode ip bytes).operands = [.register (mode.wide g)]) :
    (decode mode ip bytes).Moves mode o g := by
  have hshaped : (decode mode ip bytes).operation.shapes ≠ [] := by
    rcases ho with rfl | rfl <;> simp [hop, Operation.shapes]
  have hgeneral : ∀ d ∈ (decode mode ip bytes).operands, d.IsGeneral := by
    simp [hoperands, Operand.IsGeneral, Bitness.wide, Register.gpr?]
  have hshape := decode_hasShape hshaped hgeneral
  refine ⟨hop, hoperands, ?_⟩
  unfold Instruction.HasShape at hshape
  rcases ho with rfl | rfl
  all_goals
    rw [hop, hoperands] at hshape
    obtain ⟨w, x, hx, hplace, hsize⟩ := hshape
    cases hx
    rw [hsize, ← hplace.2, ← mode.bytes_pointerWidth]
    rfl

namespace Machine

variable {m m' : Machine} {i : Instruction} {g h : Gpr} {x : UInt64} {v : Value}

/-! ## Slots that are spared -/

theorem valueAt_assign_slot {d : Operand} (hx : x &&& m.bitness.addressMask = x) (h : ¬ m.Touches d (.slot x)) :
    (m.assign d v).valueAt (.slot x) = m.valueAt (.slot x) := by
  cases d with
  | register r => exact valueAt_writeRegister_slot m r v x
  | memory o => exact load_store_of_not_meets hx (Bool.eq_false_iff.2 h)
  | _ => rfl

theorem valueAt_setStackTop_slot (m : Machine) (a x : UInt64) :
    (m.setStackTop a).valueAt (.slot x) = m.valueAt (.slot x) :=
  valueAt_writeRegister_slot m _ _ x

theorem valueAt_clobberAll_slot (m : Machine) (rs : List Register) (x : UInt64) :
    (rs.foldl clobber m).valueAt (.slot x) = m.valueAt (.slot x) := by
  induction rs generalizing m with
  | nil => rfl
  | cons r rs ih => exact (ih (m.clobber r)).trans (valueAt_writeRegister_slot m r _ x)

/-- A pointer that no store may overwrite stays. -/
theorem valueAt_forget_slot (hx : x &&& m.bitness.addressMask = x) (hrepeated : i.repeated = false)
    (hends : (m.storesOf i).any (Memory.ends m.bitness x) = false) :
    (m.forget i).valueAt (.slot x) = m.valueAt (.slot x) := by
  have himage : (m.forget i).image = m.image := by rw [forget, clobberAll_eq]
  have hmode : (m.forget i).bitness = m.bitness := (Overwrites.forget m i).mode
  have hslot : (m.forget i).memory.slots.contains x = m.memory.slots.contains x := by
    rw [slots_forget, hrepeated, hends, Bool.not_false, Bool.true_and, Bool.and_true]
  have hbytes : ∀ j < m.bitness.pointerBytes,
      (m.forget i).memory.bytes[(x + j.toUInt64) &&& m.bitness.addressMask]? =
        m.memory.bytes[(x + j.toUInt64) &&& m.bitness.addressMask]? := by
    intro j hj
    rw [bytes_forget, if_neg]
    intro hcovers
    obtain ⟨o, ho, -, k, hk, hsame⟩ := covers_storesOf.1 hcovers
    rw [(ends_storesOf hx).2 ⟨o, ho, .inr (.inr ⟨k, hk, j, hj, hsame⟩)⟩] at hends
    cases hends
  simp only [valueAt, hmode]
  exact load_eq_of_bytes himage hmode hbytes (by rw [hx, hslot])

theorem valueAt_stepOther_slot (hx : x &&& m.bitness.addressMask = x) (h : ¬ m.MayChange i (.slot x)) :
    (m.stepOther i).valueAt (.slot x) = m.valueAt (.slot x) := by
  have hforget : ¬ ((∃ r ∈ i.changes, m.Touches (.register r) (.slot x)) ∨
      ∃ a, Place.slot x = .slot a ∧ (i.repeated = true ∨ ∃ o ∈ i.stores, o.size = 0 ∨
        ∀ y, m.registers.knownAddress? o = some y → m.bitness.meets y o.size a = true)) →
      (m.forget i).valueAt (.slot x) = m.valueAt (.slot x) := by
    intro h
    refine valueAt_forget_slot hx (Bool.eq_false_iff.2 fun hr => h (.inr ⟨x, rfl, .inl hr⟩)) ?_
    rw [Bool.eq_false_iff, Ne, ends_storesOf hx]
    rintro ⟨o, ho, hstore⟩
    refine h (.inr ⟨x, rfl, .inr ⟨o, ho, ?_⟩⟩)
    rcases Nat.eq_zero_or_pos o.size with hzero | hpos
    · exact .inl hzero
    · refine .inr fun y hy => ?_
      obtain ⟨hcomputable, rfl⟩ := RegisterFile.knownAddress?_eq_some_iff.1 hy
      have hoverlaps := (hstore.resolve_left (not_not_intro hcomputable)).resolve_left (Nat.ne_of_gt hpos)
      exact (Bitness.meets_iff _ _ _ _ hpos).2 hoverlaps
  unfold MayChange at h
  unfold stepOther
  cases hflow : i.flow with
  | call | indirectCall => exact valueAt_clobberAll_slot m _ x
  | conditionalBranch | unconditionalBranch | indirectBranch => rfl
  | _ =>
    rw [hflow] at h
    exact hforget h

/-- **An instruction keeps the pointer** in a slot that it does not write. -/
theorem valueAt_step (hx : x &&& m.bitness.addressMask = x) (h : ¬ m.Writes i (.slot x)) :
    (m.step i).valueAt (.slot x) = m.valueAt (.slot x) := by
  unfold step combine change
  unfold Writes at h
  cases hop : i.operation with
  | nop | cmp | test | bt => rfl
  | lea =>
    rw [hop] at h
    cases hsecond : i.second with
    | memory o => exact valueAt_assign_slot hx fun ht => h ⟨⟨o, hsecond⟩, ht⟩
    | _ => rfl
  | push =>
    rw [hop] at h
    have hmode : (m.pushed i).bitness = m.bitness := (Overwrites.setStackTop m _).mode
    have hmeets : (m.pushed i).bitness.meets (m.pushed i).stackTop i.stackBytes x = false := by
      rw [hmode]
      exact Bool.eq_false_iff.2 fun hm => h (.inr ⟨x, rfl, hm⟩)
    exact (load_store_of_not_meets (hmode ▸ hx) hmeets).trans (valueAt_setStackTop_slot m _ x)
  | pop =>
    rw [hop] at h
    have hmode : (m.popped i).bitness = m.bitness := (Overwrites.setStackTop m _).mode
    exact (valueAt_assign_slot (hmode ▸ hx) fun ht => h (.inr ht)).trans (valueAt_setStackTop_slot m _ x)
  | xchg =>
    rw [hop] at h
    have hmode : (m.assign i.first (m.fetch i.second)).bitness = m.bitness := bitness_assign m _ _
    exact (valueAt_assign_slot (hmode ▸ hx) fun ht => h (.inr ht)).trans
      (valueAt_assign_slot hx fun ht => h (.inl ht))
  | sub | xor =>
    rw [hop] at h
    dsimp only
    split <;> exact valueAt_assign_slot hx h
  | invalid | unmodelled name =>
    rw [hop] at h
    exact valueAt_stepOther_slot hx h
  | _ =>
    rw [hop] at h
    exact valueAt_assign_slot hx h

/-- The instructions of a path store at known addresses and known numbers of bytes, none of which is in a slot. -/
def Spares (x : UInt64) : Machine → List Instruction → Prop
  | _, [] => True
  | m, i :: path => ¬ m.Writes i (.slot x) ∧ Spares x (m.step i) path

theorem valueAt_steps {path : List Instruction} (hx : x &&& m.bitness.addressMask = x) (h : Spares x m path) :
    (path.foldl step m).valueAt (.slot x) = m.valueAt (.slot x) := by
  induction path generalizing m with
  | nil => rfl
  | cons i path ih =>
    have hmode : (m.step i).bitness = m.bitness := (overwrites_step m i).mode
    exact (ih (hmode ▸ hx) h.2).trans (valueAt_step hx h.1)

/-! ## The stack pointer -/

theorem value_writeRegister_wide (m : Machine) (g h : Gpr) (v : Value) :
    (m.writeRegister (m.bitness.wide g) v).registers.value h =
      if g = h then v.mask m.bitness.addressMask else m.registers.value h :=
  m.registers.value_write_wide g h v

theorem stackTop_eq (m : Machine) : m.stackTop = (m.registers.value .sp).bits &&& m.bitness.addressMask :=
  congrArg Value.bits (m.registers.read_wide .sp)

theorem value_setStackTop (m : Machine) (a : UInt64) (h : Gpr) :
    (m.setStackTop a).registers.value h =
      if .sp = h then .plain (a &&& m.bitness.addressMask) else m.registers.value h := by
  refine (value_writeRegister_wide m .sp h _).trans ?_
  rw [Value.mask, Value.bits_plain, UInt64.and_assoc, UInt64.and_self]
  rfl

theorem bitness_setStackTop (m : Machine) (a : UInt64) : (m.setStackTop a).bitness = m.bitness :=
  bitness_writeRegister m _ _

theorem stackTop_setStackTop (m : Machine) (a : UInt64) :
    (m.setStackTop a).stackTop = a &&& m.bitness.addressMask := by
  rw [stackTop_eq, value_setStackTop, if_pos rfl, bitness_setStackTop, Value.bits_plain, UInt64.and_assoc, UInt64.and_self]

/-! ## One push -/

/-- The address of the pointer that a number of pushes from now stores, from zero on. -/
def slotBelow (m : Machine) (k : Nat) : UInt64 :=
  (m.stackTop - ((k + 1) * m.bitness.pointerBytes).toUInt64) &&& m.bitness.addressMask

theorem slotBelow_zero (m : Machine) :
    m.slotBelow 0 = (m.stackTop - m.bitness.pointerBytes.toUInt64) &&& m.bitness.addressMask := by
  rw [slotBelow, Nat.zero_add, Nat.one_mul]

theorem slotBelow_within (m : Machine) (k : Nat) : m.slotBelow k &&& m.bitness.addressMask = m.slotBelow k :=
  Bitness.same_and_mask _ _

theorem step_push (hi : i.Moves m.bitness .push g) :
    m.step i = (m.setStackTop (m.stackTop - m.bitness.pointerBytes.toUInt64)).store (m.slotBelow 0)
      m.bitness.pointerBytes (m.registers.read (m.bitness.wide g)) := by
  have hfirst : i.first = .register (m.bitness.wide g) := by rw [Instruction.first, hi.operands]
  simp only [step, hi.operation, push, hfirst, hi.size, fetch, stackTop_setStackTop, slotBelow_zero]

/-- What a push leaves behind. -/
structure Pushed (m : Machine) (g : Gpr) (m' : Machine) : Prop where
  mode : m'.bitness = m.bitness
  stackPointer : m'.registers.value .sp = .plain (m.slotBelow 0)
  others : ∀ h, h ≠ .sp → m'.registers.value h = m.registers.value h
  below : ∀ k, m'.slotBelow k = m.slotBelow (k + 1)
  stored : m.bitness.Same (m'.valueAt (.slot (m.slotBelow 0))).bits (m.registers.value g).bits ∧
    (m'.valueAt (.slot (m.slotBelow 0))).based = (m.registers.value g).based
  /-- Slots and bytes that the stored pointer does not meet are as before. -/
  slots : ∀ x, x &&& m.bitness.addressMask = x → m.bitness.meets (m.slotBelow 0) m.bitness.pointerBytes x = false →
    m'.valueAt (.slot x) = m.valueAt (.slot x)
  bytes : ∀ x, (∀ j < m.bitness.pointerBytes, (m.slotBelow 0 + j.toUInt64) &&& m.bitness.addressMask ≠ x) →
    m'.memory.bytes[x]? = m.memory.bytes[x]?

/-- Pointers below the top are counted from wherever the top is. -/
theorem sub_slots (a : UInt64) (n k : Nat) :
    a - n.toUInt64 - ((k + 1) * n).toUInt64 = a - ((k + 1 + 1) * n).toUInt64 := by
  rw [Nat.succ_mul (k + 1), Nat.toUInt64_eq, Nat.toUInt64_eq, Nat.toUInt64_eq, UInt64.ofNat_add]
  grind

theorem pushed_step (hi : i.Moves m.bitness .push g) : m.Pushed g (m.step i) := by
  generalize hmoved : m.setStackTop (m.stackTop - m.bitness.pointerBytes.toUInt64) = moved
  have hmode : moved.bitness = m.bitness := hmoved ▸ bitness_setStackTop m _
  have htop : moved.stackTop = m.slotBelow 0 := by
    rw [← hmoved, stackTop_setStackTop, slotBelow_zero]
  have hvalue : ∀ h, moved.registers.value h = if .sp = h then .plain (m.slotBelow 0) else m.registers.value h := by
    intro h
    rw [← hmoved, value_setStackTop, slotBelow_zero]
  have hslot : ∀ x, moved.valueAt (.slot x) = m.valueAt (.slot x) :=
    fun x => hmoved ▸ valueAt_setStackTop_slot m _ x
  have hbytes : moved.memory = m.memory := hmoved ▸ rfl
  have hstep : m.step i = moved.store (m.slotBelow 0) moved.bitness.pointerBytes (m.registers.read (m.bitness.wide g)) := by
    rw [step_push hi, hmoved, hmode]
  rw [hstep]
  constructor
  case mode => exact hmode
  case stackPointer => exact (hvalue .sp).trans (if_pos rfl)
  case others => exact fun h hne => (hvalue h).trans (if_neg (Ne.symm hne))
  case below =>
    intro k
    have hbelow : moved.slotBelow k = m.slotBelow (k + 1) := by
      have hsame := (Bitness.same_and_mask m.bitness (m.stackTop - m.bitness.pointerBytes.toUInt64)).sub
        (.refl _ ((k + 1) * m.bitness.pointerBytes).toUInt64)
      rw [sub_slots] at hsame
      rw [slotBelow, htop, hmode, slotBelow_zero]
      exact hsame
    exact hbelow
  case stored =>
    have hread : m.registers.read (m.bitness.wide g) = (m.registers.value g).mask m.bitness.addressMask :=
      m.registers.read_wide g
    have hself := load_store_self (m := moved) (v := m.registers.read (m.bitness.wide g))
      (.refl moved.bitness (m.slotBelow 0))
    rw [hread] at hself ⊢
    exact ⟨hmode ▸ hself.1.trans (hmode ▸ Bitness.same_and_mask _ _), hself.2⟩
  case slots =>
    intro x hx hmeets
    exact (load_store_of_not_meets (hmode ▸ hx) (hmode ▸ hmeets)).trans (hslot x)
  case bytes =>
    intro x hx
    refine (Memory.getElem?_writeBytes_of_ne ?_).trans (by rw [hbytes])
    rw [hmode]
    exact hx

/-! ## One pop -/

/-- What a pop leaves behind. -/
structure Popped (m : Machine) (g : Gpr) (m' : Machine) : Prop where
  mode : m'.bitness = m.bitness
  memory : m'.memory = m.memory
  slots : ∀ x, m'.valueAt (.slot x) = m.valueAt (.slot x)
  stackPointer : g ≠ .sp →
    m'.registers.value .sp = .plain ((m.stackTop + m.bitness.pointerBytes.toUInt64) &&& m.bitness.addressMask)
  others : ∀ h, h ≠ .sp → h ≠ g → m'.registers.value h = m.registers.value h
  loaded : m'.registers.value g = ⟨(m.valueAt (.slot m.stackTop)).bits &&& m.bitness.addressMask,
    (m.valueAt (.slot m.stackTop)).based⟩

theorem popped_step (hi : i.Moves m.bitness .pop g) : m.Popped g (m.step i) := by
  generalize hmoved : m.setStackTop (m.stackTop + m.bitness.pointerBytes.toUInt64) = moved
  have hmode : moved.bitness = m.bitness := hmoved ▸ bitness_setStackTop m _
  have hvalue : ∀ h, moved.registers.value h = if .sp = h then
      .plain ((m.stackTop + m.bitness.pointerBytes.toUInt64) &&& m.bitness.addressMask) else m.registers.value h :=
    fun h => hmoved ▸ value_setStackTop m _ h
  have hstep : m.step i = moved.writeRegister (moved.bitness.wide g) (m.valueAt (.slot m.stackTop)) := by
    have hfirst : i.first = .register (m.bitness.wide g) := by rw [Instruction.first, hi.operands]
    simp only [step, hi.operation, pop, hfirst, hi.size, hmoved, assign, hmode, valueAt]
  have hafter := value_writeRegister_wide moved g
  rw [hstep]
  constructor
  case mode => exact (bitness_writeRegister moved _ _).trans hmode
  case memory => exact hmoved ▸ rfl
  case slots =>
    intro x
    exact (valueAt_writeRegister_slot moved _ _ x).trans (hmoved ▸ valueAt_setStackTop_slot m _ x)
  case stackPointer =>
    intro hne
    rw [hafter, if_neg hne, hvalue, if_pos rfl]
  case others =>
    intro h hsp hne
    rw [hafter, if_neg (Ne.symm hne), hvalue, if_neg (Ne.symm hsp)]
  case loaded => rw [hafter, if_pos rfl, hmode, Value.mask]

/-! ## Blocks -/

/-- The pointers that are pushed in the address space share no bytes. -/
theorem meets_slotBelow {k : Nat} (hroom : (k + 1 + 1) * m.bitness.pointerBytes ≤ m.bitness.addresses) :
    m.bitness.meets (m.slotBelow (k + 1)) m.bitness.pointerBytes (m.slotBelow 0) = false := by
  have hpos := m.bitness.pointerBytes_pos
  generalize hd : m.bitness.pointerBytes - 1 = d
  have hdistance : m.stackTop - m.bitness.pointerBytes.toUInt64 =
      m.stackTop - ((k + 1 + 1) * m.bitness.pointerBytes).toUInt64 - d.toUInt64 +
        ((k + 1) * m.bitness.pointerBytes + d).toUInt64 := by
    rw [Nat.succ_mul (k + 1)]
    simp only [Nat.toUInt64_eq, UInt64.ofNat_add]
    grind
  have hsame : m.bitness.Same (m.slotBelow 0)
      (m.stackTop - ((k + 1 + 1) * m.bitness.pointerBytes).toUInt64 - d.toUInt64 +
        ((k + 1) * m.bitness.pointerBytes + d).toUInt64) := by
    rw [slotBelow_zero, ← hdistance]
    exact Bitness.same_and_mask _ _
  have hstart : m.bitness.Same (m.slotBelow (k + 1) - d.toUInt64)
      (m.stackTop - ((k + 1 + 1) * m.bitness.pointerBytes).toUInt64 - d.toUInt64) :=
    (Bitness.same_and_mask _ _).sub (.refl _ _)
  rw [Nat.succ_mul (k + 1)] at hroom
  have hfar : m.bitness.pointerBytes ≤ (k + 1) * m.bitness.pointerBytes := Nat.le_mul_of_pos_left _ (Nat.succ_pos k)
  rw [Bitness.meets, decide_eq_false_iff_not, hd, hstart.past_eq hsame, Bitness.past_add, Nat.mod_eq_of_lt (by omega)]
  omega

theorem and_addressMask (hnarrow : m.bitness = .x86 → m.registers.IsNarrow) (g : Gpr) :
    (m.registers.value g).bits &&& m.bitness.addressMask = (m.registers.value g).bits := by
  cases hb : m.bitness with
  | x64 => exact Bitness.and_addressMask_x64 _
  | x86 => exact Bitness.and_addressMask_of_lt (hnarrow hb g)

theorem Pushed.isNarrow (h : m.Pushed g m') (hnarrow : m.bitness = .x86 → m.registers.IsNarrow)
    (hb : m'.bitness = .x86) : m'.registers.IsNarrow := by
  rw [h.mode] at hb
  intro r
  by_cases hr : r = .sp
  · rw [hr, h.stackPointer, Value.bits_plain, slotBelow, hb]
    exact IsShort.and_right (by decide) _
  · rw [h.others r hr]
    exact hnarrow hb r

/-- What is as it was after a block that saves registers around some instructions. -/
structure Restores (gs : List Gpr) (between : List Instruction) (m pushed popped : Machine) : Prop where
  mode : popped.bitness = m.bitness
  stackPointer : popped.registers.value .sp = m.registers.value .sp
  registers : ∀ g ∈ gs, popped.registers.value g = m.registers.value g
  slots : ∀ x, x &&& m.bitness.addressMask = x →
    (∀ k < gs.length, m.bitness.meets (m.slotBelow k) m.bitness.pointerBytes x = false) →
    Spares x pushed between → popped.valueAt (.slot x) = m.valueAt (.slot x)

/-- One more register may be saved around a block that leaves the others as they were. -/
theorem Restores.cons {gs : List Gpr} {between : List Instruction} {pushed inner popped : Machine}
    (hpush : m.Pushed g m') (h : Restores gs between m' pushed inner) (hpop : inner.Popped g popped)
    (hsp : (m.registers.value .sp).based = false) (hnarrow : m.bitness = .x86 → m.registers.IsNarrow)
    (hg : g ≠ .sp) (hgs : .sp ∉ gs) (hroom : (gs.length + 1) * m.bitness.pointerBytes ≤ m.bitness.addresses)
    (hspares : Spares (m.slotBelow 0) pushed between) : Restores (g :: gs) between m pushed popped := by
  have hmode : inner.bitness = m.bitness := h.mode.trans hpush.mode
  have htop : inner.stackTop = m.slotBelow 0 := by
    rw [stackTop_eq, h.stackPointer, hpush.stackPointer, hmode, Value.bits_plain, slotBelow_within]
  have hslot : inner.valueAt (.slot (m.slotBelow 0)) = m'.valueAt (.slot (m.slotBelow 0)) := by
    refine h.slots _ (hpush.mode ▸ m.slotBelow_within 0) (fun k hk => ?_) hspares
    rw [hpush.mode, hpush.below k]
    exact meets_slotBelow (Nat.le_trans (Nat.mul_le_mul_right _ (by omega)) hroom)
  have hsaved : popped.registers.value g = m.registers.value g := by
    rw [hpop.loaded, htop, hslot, hmode, hpush.stored.2, hpush.stored.1, and_addressMask hnarrow]
  constructor
  case mode => exact hpop.mode.trans hmode
  case stackPointer =>
    rw [hpop.stackPointer hg, htop, hmode]
    have hback := (Bitness.same_and_mask m.bitness (m.stackTop - m.bitness.pointerBytes.toUInt64)).add
      (.refl _ m.bitness.pointerBytes.toUInt64)
    rw [UInt64.sub_add_cancel] at hback
    rw [slotBelow_zero, hback, stackTop_eq, UInt64.and_assoc, UInt64.and_self, and_addressMask hnarrow]
    exact congrArg (Value.mk _) hsp.symm
  case registers =>
    intro r hr
    by_cases hrg : r = g
    · exact hrg ▸ hsaved
    · have hmem : r ∈ gs := (List.mem_cons.1 hr).resolve_left hrg
      have hrsp : r ≠ .sp := fun he => hgs (he ▸ hmem)
      rw [hpop.others r hrsp hrg, h.registers r hmem, hpush.others r hrsp]
  case slots =>
    intro x hx hapart hx'
    rw [hpop.slots, h.slots x (hpush.mode ▸ hx) (fun k hk => ?_) hx', hpush.slots x hx (hapart 0 (Nat.succ_pos _))]
    rw [hpush.mode, hpush.below k]
    exact hapart (k + 1) (Nat.succ_lt_succ hk)

/-- The bytes outside of the pushed pointers are as before. -/
theorem bytes_pushes {b : Bitness} {gs : List Gpr} {pushes : List Instruction}
    (hpush : List.Forall₂ (Instruction.Moves b .push) gs pushes) :
    ∀ {m : Machine}, m.bitness = b → ∀ {x : UInt64}, (∀ k < gs.length, ∀ j < m.bitness.pointerBytes,
      (m.slotBelow k + j.toUInt64) &&& m.bitness.addressMask ≠ x) →
      (pushes.foldl step m).memory.bytes[x]? = m.memory.bytes[x]? := by
  induction hpush with
  | nil => exact fun _ _ _ => rfl
  | cons hi _ ih =>
    intro m hb x hx
    have hpushed := pushed_step (m := m) (hb ▸ hi)
    refine (ih (hpushed.mode.trans hb) fun k hk => ?_).trans (hpushed.bytes x (hx 0 (Nat.succ_pos _)))
    rw [hpushed.mode, hpushed.below k]
    exact hx (k + 1) (Nat.succ_lt_succ hk)

/-- A pop only writes registers. -/
theorem memory_pops {b : Bitness} {gs : List Gpr} {pops : List Instruction}
    (hpop : List.Forall₂ (Instruction.Moves b .pop) gs pops) :
    ∀ {m : Machine}, m.bitness = b → (pops.foldl step m).memory = m.memory := by
  induction hpop with
  | nil => exact fun _ => rfl
  | cons hi _ ih =>
    intro m hb
    have hpopped := popped_step (m := m) (hb ▸ hi)
    exact (ih (hpopped.mode.trans hb)).trans hpopped.memory

/-- By the outermost register that is saved. -/
theorem restores_block {b : Bitness} {between : List Instruction} {gs : List Gpr} :
    ∀ {m : Machine} {pushes pops : List Instruction}, m.bitness = b → (m.registers.value .sp).based = false →
      (m.bitness = .x86 → m.registers.IsNarrow) → .sp ∉ gs → gs.length * m.bitness.pointerBytes ≤ m.bitness.addresses →
      List.Forall₂ (Instruction.Moves b .push) gs pushes → List.Forall₂ (Instruction.Moves b .pop) gs pops.reverse →
      (between.foldl step (pushes.foldl step m)).registers.value .sp = (pushes.foldl step m).registers.value .sp →
      (∀ k < gs.length, Spares (m.slotBelow k) (pushes.foldl step m) between) →
      Restores gs between m (pushes.foldl step m) (pops.foldl step (between.foldl step (pushes.foldl step m))) := by
  induction gs with
  | nil =>
    intro m pushes pops hb hsp hnarrow hgs hroom hpush hpop hkeep hspares
    cases hpush
    obtain rfl : pops = [] := List.reverse_eq_nil_iff.1 (List.forall₂_nil_left_iff.1 hpop)
    refine ⟨bitness_steps m between, hkeep, by simp, fun x hx _ h => valueAt_steps hx h⟩
  | cons g gs ih =>
    intro m pushes pops hb hsp hnarrow hgs hroom hpush hpop hkeep hspares
    rw [List.mem_cons, not_or] at hgs
    obtain ⟨hg, hgs⟩ := hgs
    obtain ⟨first, pushes, hfirst, hpushes, rfl⟩ := List.forall₂_cons_left_iff.1 hpush
    obtain ⟨last, rest, hlast, hrest, hpops⟩ := List.forall₂_cons_left_iff.1 hpop
    obtain rfl : pops = rest.reverse ++ [last] := by
      rw [← List.reverse_reverse pops, hpops, List.reverse_cons]
    have hpushed := pushed_step (m := m) (hb ▸ hfirst)
    have hpop' : List.Forall₂ (Instruction.Moves b .pop) gs rest.reverse.reverse := by rwa [List.reverse_reverse]
    have hinner : Restores gs between (m.step first) _ _ := ih (hpushed.mode.trans hb)
      (by rw [hpushed.stackPointer]; rfl) (hpushed.isNarrow hnarrow) hgs ?_ hpushes hpop' hkeep fun k hk => ?_
    · have hmode := hinner.mode.trans hpushed.mode
      rw [List.foldl_append]
      refine hinner.cons hpushed (popped_step ?_) hsp hnarrow (Ne.symm hg) hgs hroom (hspares 0 (Nat.succ_pos _))
      rw [hmode, hb]
      exact hlast
    · rw [hpushed.mode]
      exact Nat.le_trans (Nat.mul_le_mul_right _ (Nat.le_succ _)) hroom
    · rw [hpushed.below k]
      exact hspares (k + 1) (Nat.succ_lt_succ hk)

/--
**Saved registers come back.** Some registers are pushed, instructions follow
that spare the pushed pointers and leave the stack pointer as it was, and the
registers are popped in the opposite order: each of them holds the value that
it had, with its mark, and so does the stack pointer. The pushes change no
byte outside of the pointers, and the pops none at all. Neither has the stack
to be aligned, nor has it to end before the address space does.
-/
theorem saved_restored (m : Machine) (gs : List Gpr) (pushes between pops : List Instruction)
    (hsp : (m.registers.value .sp).based = false) (hnarrow : m.bitness = .x86 → m.registers.IsNarrow)
    (hgs : .sp ∉ gs) (hroom : gs.length * m.bitness.pointerBytes ≤ m.bitness.addresses)
    (hpush : List.Forall₂ (Instruction.Moves m.bitness .push) gs pushes)
    (hpop : List.Forall₂ (Instruction.Moves m.bitness .pop) gs.reverse pops)
    (hkeep : (between.foldl step (pushes.foldl step m)).registers.value .sp =
      (pushes.foldl step m).registers.value .sp)
    (hspares : ∀ k < gs.length, Spares (m.slotBelow k) (pushes.foldl step m) between) :
    let pushed := pushes.foldl step m
    let worked := between.foldl step pushed
    let popped := pops.foldl step worked
    (∀ g ∈ gs, popped.registers.value g = m.registers.value g) ∧
      popped.registers.value .sp = m.registers.value .sp ∧
      (∀ x, (∀ k < gs.length, ∀ j < m.bitness.pointerBytes,
          (m.slotBelow k + j.toUInt64) &&& m.bitness.addressMask ≠ x) →
        pushed.memory.bytes[x]? = m.memory.bytes[x]?) ∧
      popped.memory = worked.memory := by
  intro pushed worked popped
  have hpop' : List.Forall₂ (Instruction.Moves m.bitness .pop) gs pops.reverse := by
    rw [← List.forall₂_reverse_iff, List.reverse_reverse]
    exact hpop
  have hrestores := restores_block rfl hsp hnarrow hgs hroom hpush hpop' hkeep hspares
  have hworked : worked.bitness = m.bitness := (bitness_steps pushed between).trans (bitness_steps m pushes)
  exact ⟨hrestores.registers, hrestores.stackPointer, fun x => bytes_pushes hpush rfl, memory_pops hpop hworked⟩

/-- The base and another register are saved at the end of the address space, and on both sides of it. -/
theorem saved_restored_around :
    let m := (((initial (.ofBytes 0x10000 .x86 #[]) 0x6).writeRegister (.gpr .cx .dword) (.onBase 0x1000)).writeRegister
      (.gpr .bx .dword) (.plain 0x4000))
    let pushes := [Encoding.decode .x86 0x10000 [0x51], Encoding.decode .x86 0x10001 [0x53]]
    let between := [Encoding.decode .x86 0x10002 [0x31, 0xc9], Encoding.decode .x86 0x10004 [0x89, 0x0b]]
    let pops := [Encoding.decode .x86 0x10006 [0x5b], Encoding.decode .x86 0x10007 [0x59]]
    let popped := pops.foldl step (between.foldl step (pushes.foldl step m))
    m.slotBelow 0 = 0x2 ∧ m.slotBelow 1 = 0xfffffffe ∧
      popped.registers.value .cx = .onBase 0x1000 ∧ popped.registers.value .sp = .plain 0x6 := by
  intro m pushes between pops popped
  have hmode : m.bitness = .x86 := by decide +kernel
  have hnarrow : m.bitness = .x86 → m.registers.IsNarrow := by
    intro _ g
    cases g <;> decide +kernel
  have hpush : List.Forall₂ (Instruction.Moves m.bitness .push) [.cx, .bx] pushes := by
    rw [hmode]
    exact .cons (Encoding.decode_moves (.inl rfl) (by decide +kernel) (by decide +kernel))
      (.cons (Encoding.decode_moves (.inl rfl) (by decide +kernel) (by decide +kernel)) .nil)
  have hpop : List.Forall₂ (Instruction.Moves m.bitness .pop) [.bx, .cx] pops := by
    rw [hmode]
    exact .cons (Encoding.decode_moves (.inr rfl) (by decide +kernel) (by decide +kernel))
      (.cons (Encoding.decode_moves (.inr rfl) (by decide +kernel) (by decide +kernel)) .nil)
  have hspares : ∀ k < 2, Spares (m.slotBelow k) (pushes.foldl step m) between := by
    have hclear : (Encoding.decode .x86 0x10002 [0x31, 0xc9]).operation = .xor ∧
        (Encoding.decode .x86 0x10002 [0x31, 0xc9]).first = .register (.gpr .cx .dword) := by decide +kernel
    have hstore : (Encoding.decode .x86 0x10004 [0x89, 0x0b]).operation = .mov ∧
        (Encoding.decode .x86 0x10004 [0x89, 0x0b]).first =
          .memory ⟨.segment .ds, .gpr .bx .dword, .absent, 1, 0, 4⟩ := by decide +kernel
    have hapart : ∀ k < 2, ((pushes.foldl step m).step (Encoding.decode .x86 0x10002 [0x31, 0xc9])).bitness.meets
        (((pushes.foldl step m).step (Encoding.decode .x86 0x10002 [0x31, 0xc9])).registers.address
          ⟨.segment .ds, .gpr .bx .dword, .absent, 1, 0, 4⟩).bits 4 (m.slotBelow k) = false := by decide +kernel
    intro k hk
    simp only [between, Spares, Writes, Touches, hclear, hstore, hapart k hk, Bool.false_eq_true, not_false_iff, and_true]
  have hrestored := saved_restored m [.cx, .bx] pushes between pops (by decide +kernel) hnarrow (by decide)
    (by rw [hmode]; decide) hpush hpop (by decide +kernel) hspares
  refine ⟨by decide +kernel, by decide +kernel, ?_, ?_⟩
  · exact (hrestored.1 .cx (by decide)).trans (by decide +kernel)
  · exact hrestored.2.1.trans (by decide +kernel)

end Machine

end KernelOffsets
