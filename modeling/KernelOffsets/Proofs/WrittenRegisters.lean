/-
Which registers an instruction writes, and whether these are the ones that it
is said to change. The machine keeps the value of every other register and
marks exactly the written ones (`Machine.overwrites_step`). Whatever a decoded
instruction changes is written in its step, calls apart, with one exception: a
loop counts its register down, but is taken for a branch that does nothing
(`Encoding.overwrites_of_isChanging`).
-/
import KernelOffsets.Proofs.BaseTransfer
import KernelOffsets.Proofs.Forgetting
import Mathlib.Data.List.Induction

namespace KernelOffsets

/-- Whether an operand is a register or a part of it. -/
def Operand.names (g : Gpr) : Operand → Bool
  | .register r => r.gpr? == some g
  | _ => false

namespace Instruction

/-- Whether the processor may change a register or a part of it. -/
def isChanging (i : Instruction) (g : Gpr) : Bool :=
  i.changes.any (·.gpr? == some g)

/-- Whether an instruction without a rule makes a register unknown. -/
def forgets (b : Bitness) (i : Instruction) (g : Gpr) : Bool :=
  match i.flow with
  | .call | .indirectCall => b.volatile.any (·.gpr? == some g)
  | .conditionalBranch | .unconditionalBranch | .indirectBranch => false
  | _ => i.isChanging g

/-- An address that is computed is that of a memory operand. -/
def IsFormed (i : Instruction) : Prop := i.operation = .lea → Encoding.isMemory i.second = true

/-- Whether the machine writes a register. -/
def overwrites (b : Bitness) (i : Instruction) (g : Gpr) : Bool :=
  match i.operation with
  | .nop | .cmp | .test | .bt => false
  | .lea => Encoding.isMemory i.second && i.first.names g
  | .push => g == .sp
  | .pop => g == .sp || i.first.names g
  | .xchg => i.first.names g || i.second.names g
  | .invalid | .unmodelled _ => i.forgets b g
  | _ => i.first.names g

/-- Whether the instruction is a call, which is skipped. -/
def isCall (i : Instruction) : Bool :=
  i.flow == .call || i.flow == .indirectCall

/-- Whether the instruction is a branch that counts a register down. -/
def countsDown (i : Instruction) : Bool :=
  i.flow == .conditionalBranch && i.operation.isLoop

end Instruction

/-! ## Machines -/

theorem RegisterFile.hasWritten_write (f : RegisterFile) (r : Register) (v : Value) (g : Gpr) :
    (f.write r v).hasWritten g = (r.gpr? == some g || f.hasWritten g) := by
  cases r <;> simp [write, Register.gpr?, hasWritten_put]
  all_goals rfl

theorem RegisterFile.value_write {f : RegisterFile} {r : Register} {g : Gpr} (v : Value)
    (h : (r.gpr? == some g) = false) : (f.write r v).value g = f.value g := by
  cases r <;> simp_all [write, Register.gpr?, value_put]

namespace Machine

variable {m m' m'' : Machine} {W W' : Gpr → Bool}

/-- Some registers are written, and no others are marked as written or have a new value. -/
structure Overwrites (m m' : Machine) (W : Gpr → Bool) : Prop where
  mode : m'.bitness = m.bitness
  written : ∀ g, m'.registers.hasWritten g = (W g || m.registers.hasWritten g)
  kept : ∀ g, W g = false → m'.registers.value g = m.registers.value g

namespace Overwrites

theorem refl (m : Machine) : Overwrites m m fun _ => false :=
  ⟨rfl, fun _ => rfl, fun _ _ => rfl⟩

theorem trans (h : Overwrites m m' W) (h' : Overwrites m' m'' W') : Overwrites m m'' fun g => W g || W' g := by
  refine ⟨h'.mode.trans h.mode, fun g => ?_, fun g hg => ?_⟩
  · rw [h'.written, h.written, ← Bool.or_assoc, Bool.or_comm (W' g)]
  · obtain ⟨hg, hg'⟩ := Bool.or_eq_false_iff.1 hg
    rw [h'.kept g hg', h.kept g hg]

theorem writeRegister (m : Machine) (r : Register) (v : Value) :
    Overwrites m (m.writeRegister r v) fun g => r.gpr? == some g :=
  ⟨bitness_writeRegister m r v, m.registers.hasWritten_write r v, fun _ => RegisterFile.value_write v⟩

theorem assign (m : Machine) (d : Operand) (v : Value) : Overwrites m (m.assign d v) d.names := by
  cases d with
  | register r => exact writeRegister m r v
  | _ => exact ⟨rfl, fun _ => rfl, fun _ _ => rfl⟩

theorem clobberAll (m : Machine) (rs : List Register) :
    Overwrites m (rs.foldl clobber m) fun g => rs.any (·.gpr? == some g) := by
  induction rs generalizing m with
  | nil => exact refl m
  | cons r rs ih => exact (writeRegister m r (.plain 0)).trans (ih (m.clobber r))

theorem forget (m : Machine) (i : Instruction) : Overwrites m (m.forget i) i.isChanging := by
  have hregisters := clobberAll m i.changes
  rw [clobberAll_eq] at hregisters
  unfold Machine.forget
  rw [clobberAll_eq]
  exact ⟨hregisters.mode, hregisters.written, hregisters.kept⟩

theorem setStackTop (m : Machine) (address : UInt64) : Overwrites m (m.setStackTop address) (· == .sp) := by
  obtain ⟨hmode, hwritten, hkept⟩ := writeRegister m m.bitness.stackPointer (.plain (address &&& m.bitness.addressMask))
  have hname : ∀ g, (m.bitness.stackPointer.gpr? == some g) = (g == .sp) := by
    intro g
    exact Bool.beq_comm
  simp only [hname] at hwritten hkept
  exact ⟨hmode, hwritten, hkept⟩

theorem push (m : Machine) (i : Instruction) : Overwrites m (m.push i) (· == .sp) := by
  obtain ⟨hmode, hwritten, hkept⟩ := setStackTop m (m.stackTop - i.stackBytes.toUInt64)
  exact ⟨hmode, hwritten, hkept⟩

theorem stepOther (m : Machine) (i : Instruction) : Overwrites m (m.stepOther i) (i.forgets m.bitness) := by
  unfold Machine.stepOther Instruction.forgets
  cases i.flow with
  | call | indirectCall => exact clobberAll m _
  | conditionalBranch | unconditionalBranch | indirectBranch => exact refl m
  | _ => exact forget m i

end Overwrites

/-- **One instruction** writes the registers that it overwrites, and no others. -/
theorem overwrites_step (m : Machine) (i : Instruction) : m.Overwrites (m.step i) (i.overwrites m.bitness) := by
  unfold step Instruction.overwrites combine change
  cases hop : i.operation with
  | nop | cmp | test | bt => exact .refl m
  | lea =>
    cases hsecond : i.second with
    | memory o => exact .assign m i.first _
    | _ => exact .refl m
  | push => exact .push m i
  | pop => exact (Overwrites.setStackTop m _).trans (.assign _ i.first _)
  | xchg => exact (Overwrites.assign m i.first _).trans (.assign _ i.second _)
  | sub | xor =>
    dsimp only
    split <;> exact .assign m i.first _
  | invalid | unmodelled name => exact .stepOther m i
  | _ => exact .assign m i.first _

end Machine

/-! ## What is said to change -/

namespace Encoding

variable {e : Encoding} {mode : Bitness} {g : Gpr}

theorem gpr?_widened (e : Encoding) (r : Register) : (e.widened r).gpr? = r.gpr? := by
  unfold widened
  split <;> rfl

/-- A rule writes the only register that a change beside the operands can mean where there is a rule. -/
theorem eq_sp_of_isWrittenBy {o : Operation} {x : Implied} (h : x.isWrittenBy o = true) {r : Register}
    (hr : r ∈ e.impliedRegisters x) (hg : r.gpr? = some g) : (o = .push ∨ o = .pop) ∧ g = .sp := by
  cases x with
  | stackPointer =>
    obtain rfl := List.mem_singleton.1 hr
    refine ⟨by simpa [Implied.isWrittenBy] using h, (Option.some.inj hg).symm⟩
  | slots s n => cases hr
  | _ => cases h

/-- The changed registers are the changed operands and the implied ones. -/
theorem isChanging_iff {ip : UInt64} {n : Nat} (hlegal : e.isLegal (e.operands (ip + n.toUInt64)) = true) :
    (e.instruction ip n).isChanging g = true ↔
      ((e.instruction ip n).operands.take e.form.changed).any (·.names g) = true ∨
        ∃ x ∈ e.form.implied, ∃ r ∈ e.impliedRegisters x, r.gpr? = some g := by
  have hexplicit : ∀ operands : List Operand, (registersOf operands).any (·.gpr? == some g) = true ↔
      operands.any (·.names g) = true := by
    intro operands
    unfold registersOf
    rw [List.any_filterMap]
    refine iff_of_eq (congrArg (List.any operands · = true) (funext fun o => ?_))
    cases o <;> rfl
  rw [instruction_of_isLegal hlegal]
  simp only [Instruction.isChanging, List.any_map, List.any_append, Bool.or_eq_true, Function.comp_def,
    gpr?_widened, hexplicit]
  simp only [List.any_eq_true, List.mem_flatMap, beq_iff_eq]
  grind

end Encoding

namespace Instruction

variable {i : Instruction} {g : Gpr}

theorem names_of_take_one (h : (i.operands.take 1).any (·.names g) = true) : i.first.names g = true := by
  unfold first
  cases ho : i.operands with
  | nil => simp [ho] at h
  | cons o rest => simpa [ho] using h

theorem names_of_take_two (h : (i.operands.take 2).any (·.names g) = true) :
    (i.first.names g || i.second.names g) = true := by
  unfold first second
  rcases ho : i.operands with - | ⟨o, - | ⟨o', rest⟩⟩
  · simp [ho] at h
  · simp_all
  · simpa [ho] using h

/-- A rule writes its destinations, and the stack pointer if it moves it. -/
theorem overwrites_eq_forgets {b : Bitness} (h : i.operation.destinations? = none) :
    i.overwrites b g = i.forgets b g := by
  unfold overwrites
  cases hop : i.operation with
  | invalid | unmodelled name => rfl
  | _ => simp [hop, Operation.destinations?] at h

theorem overwrites_of_destinations {b : Bitness} {k : Nat} (hk : i.operation.destinations? = some k)
    (formed : i.IsFormed)
    (h : (i.operands.take k).any (·.names g) = true ∨ (i.operation = .push ∨ i.operation = .pop) ∧ g = .sp) :
    i.overwrites b g = true := by
  unfold overwrites
  cases hop : i.operation with
  | invalid | unmodelled name => simp [hop, Operation.destinations?] at hk
  | nop | cmp | test | bt =>
    obtain rfl : 0 = k := by simpa [hop, Operation.destinations?] using hk
    simp [hop] at h
  | push =>
    obtain rfl : 0 = k := by simpa [hop, Operation.destinations?] using hk
    simpa [hop] using h
  | pop =>
    obtain rfl : 1 = k := by simpa [hop, Operation.destinations?] using hk
    obtain hfirst | ⟨-, rfl⟩ := h
    · simp only [names_of_take_one hfirst, Bool.or_true]
    · rfl
  | xchg =>
    obtain rfl : 2 = k := by simpa [hop, Operation.destinations?] using hk
    exact names_of_take_two (h.resolve_right (by simp [hop]))
  | lea =>
    obtain rfl : 1 = k := by simpa [hop, Operation.destinations?] using hk
    exact Bool.and_eq_true_iff.2 ⟨formed hop, names_of_take_one (h.resolve_right (by simp [hop]))⟩
  | _ =>
    obtain rfl : 1 = k := by simpa [hop, Operation.destinations?] using hk
    exact names_of_take_one (h.resolve_right (by simp [hop]))

end Instruction

namespace Encoding

variable {e : Encoding} {mode : Bitness} {g : Gpr}

theorem isMemory_second (h : OperandCode.areReferring e.form.operands = true) {ip : UInt64} {n : Nat}
    (hlegal : e.isLegal (e.operands (ip + n.toUInt64)) = true) : isMemory (e.instruction ip n).second = true := by
  rw [instruction_of_isLegal hlegal]
  unfold OperandCode.areReferring at h
  split at h
  · next code bytes hcodes => simp only [Instruction.second, operands, hcodes, operandsOf]; rfl
  · cases h

theorem isFormed_instruction {ip : UInt64} {n : Nat} (regular : e.IsRegular mode)
    (hlegal : e.isLegal (e.operands (ip + n.toUInt64)) = true) : (e.instruction ip n).IsFormed := by
  intro hlea
  have hop : e.form.operation = .lea := by rwa [instruction_of_isLegal hlegal] at hlea
  have htracked := (Bool.and_eq_true_iff.1 regular.form).2
  simp only [Form.isTracked, hop, Operation.destinations?, bne_self_eq_false, Bool.false_or] at htracked
  exact isMemory_second (Bool.and_eq_true_iff.1 htracked).2 hlegal

/-- A rule writes whatever its instruction changes. -/
theorem overwrites_of_rule {ip : UInt64} {n k : Nat} (regular : e.IsRegular mode)
    (hlegal : e.isLegal (e.operands (ip + n.toUInt64)) = true) (hk : e.form.operation.destinations? = some k)
    (h : (e.instruction ip n).isChanging g = true) : (e.instruction ip n).overwrites mode g = true := by
  have htracked := (Bool.and_eq_true_iff.1 regular.form).2
  simp only [Form.isTracked, hk, Bool.and_eq_true, decide_eq_true_eq, List.all_eq_true] at htracked
  obtain ⟨⟨hchanged, himplied⟩, -⟩ := htracked
  have hop : (e.instruction ip n).operation = e.form.operation := by rw [instruction_of_isLegal hlegal]
  refine Instruction.overwrites_of_destinations (hop ▸ hk) (isFormed_instruction regular hlegal) ?_
  obtain hexplicit | ⟨x, hx, r, hr, hg⟩ := (isChanging_iff hlegal).1 h
  · obtain ⟨o, ho, hname⟩ := List.any_eq_true.1 hexplicit
    exact .inl (List.any_eq_true.2 ⟨o, (List.take_prefix_take_left hchanged).subset ho, hname⟩)
  · exact .inr (hop ▸ eq_sp_of_isWrittenBy (himplied x hx) hr hg)

/-- A branch changes nothing, unless it counts a register down. -/
theorem isChanging_of_branch {ip : UInt64} {n : Nat} (regular : e.IsRegular mode)
    (hlegal : e.isLegal (e.operands (ip + n.toUInt64)) = true) (hk : e.form.operation.destinations? = none)
    (hbranch : e.form.flow ∈ [.conditionalBranch, .unconditionalBranch, .indirectBranch]) :
    (e.instruction ip n).isChanging g = true ↔ (e.instruction ip n).countsDown = true ∧ g = .cx := by
  have htracked := (Bool.and_eq_true_iff.1 regular.form).2
  have hcounts : (e.instruction ip n).countsDown = (e.form.flow == .conditionalBranch && e.form.operation.isLoop) := by
    rw [instruction_of_isLegal hlegal]
    rfl
  have hstill : e.form.changed = 0 ∧ e.form.implied = if (e.instruction ip n).countsDown then
      [.register .cx .address] else [] := by
    rw [hcounts]
    simp only [Form.isTracked, hk] at htracked
    simp only [List.mem_cons, List.not_mem_nil, or_false] at hbranch
    rcases hbranch with hf | hf | hf <;> simpa [hf] using htracked
  rw [isChanging_iff hlegal, hstill.1, hstill.2]
  cases (e.instruction ip n).countsDown with
  | false => simp
  | true =>
    have hcount : (∃ x ∈ [Implied.register .cx .address], ∃ r ∈ e.impliedRegisters x, r.gpr? = some g) ↔ .cx = g := by
      simp [impliedRegisters, Register.gpr?]
    simpa [eq_comm] using hcount

/-- An instruction without a rule makes whatever it changes unknown, unless it is a call or a loop. -/
theorem forgets_of_isChanging {ip : UInt64} {n : Nat} (regular : e.IsRegular mode)
    (hlegal : e.isLegal (e.operands (ip + n.toUInt64)) = true) (hk : e.form.operation.destinations? = none)
    (hcall : (e.instruction ip n).isCall = false) (h : (e.instruction ip n).isChanging g = true) :
    (e.instruction ip n).forgets mode g = true ∨ (e.instruction ip n).countsDown = true ∧ g = .cx := by
  have hflow : (e.instruction ip n).flow = e.form.flow := by rw [instruction_of_isLegal hlegal]
  unfold Instruction.forgets
  unfold Instruction.isCall at hcall
  rw [hflow] at hcall ⊢
  cases hf : e.form.flow with
  | call | indirectCall => simp [hf] at hcall
  | conditionalBranch | unconditionalBranch | indirectBranch =>
    exact .inr ((isChanging_of_branch regular hlegal hk (by simp [hf])).1 h)
  | _ => exact .inl h

/-- **A decoded instruction** that is no call writes the registers that it changes, but for the register that a loop
counts down. -/
theorem overwrites_of_isChanging {ip : UInt64} {bytes : List UInt8} (hcall : (decode mode ip bytes).isCall = false)
    (h : (decode mode ip bytes).isChanging g = true) :
    (decode mode ip bytes).overwrites mode g = true ∨ (decode mode ip bytes).countsDown = true ∧ g = .cx := by
  obtain ⟨n, hnone⟩ | ⟨e, n, regular, hlegal, hsome⟩ := decode_eq mode ip bytes
  · rw [hnone] at h
    cases h
  · rw [hsome] at hcall h ⊢
    cases hk : e.form.operation.destinations? with
    | some k => exact .inl (overwrites_of_rule regular hlegal hk h)
    | none =>
      have hop : (e.instruction ip n).operation = e.form.operation := by rw [instruction_of_isLegal hlegal]
      rw [Instruction.overwrites_eq_forgets (hop ▸ hk)]
      exact forgets_of_isChanging regular hlegal hk hcall h

theorem exists_name_of_isLoop {o : Operation} (h : o.isLoop = true) : ∃ name, o = .unmodelled name := by
  obtain ⟨name, -, ho⟩ := List.any_eq_true.1 h
  exact ⟨name, eq_of_beq ho⟩

/-- A loop changes the register that it counts down, and writes nothing. -/
theorem isChanging_of_countsDown {ip : UInt64} {bytes : List UInt8} (h : (decode mode ip bytes).countsDown = true) :
    (decode mode ip bytes).isChanging .cx = true ∧ ∀ b g, (decode mode ip bytes).overwrites b g = false := by
  obtain ⟨hflow, hloop⟩ := Bool.and_eq_true_iff.1 h
  obtain ⟨name, hop⟩ := exists_name_of_isLoop hloop
  constructor
  · obtain ⟨n, hnone⟩ | ⟨e, n, regular, hlegal, hsome⟩ := decode_eq mode ip bytes
    · rw [hnone] at h
      cases h
    · rw [hsome, instruction_of_isLegal hlegal] at hflow hop
      rw [hsome] at h ⊢
      refine (isChanging_of_branch regular hlegal ?_ ?_).2 ⟨h, rfl⟩
      · rw [show e.form.operation = _ from hop]
        rfl
      · rw [show e.form.flow = _ from eq_of_beq hflow]
        decide
  · intro b g
    simp only [Instruction.overwrites, hop, Instruction.forgets, eq_of_beq hflow]

end Encoding

namespace Machine

variable {m : Machine} {i : Instruction} {g : Gpr}

/-! ## Paths -/

theorem overwrites_iff_writes : i.overwrites m.bitness g = true ↔ m.Writes i (.register g) := by
  have hnames : ∀ (m : Machine) (o : Operand), o.names g = true ↔ m.Touches o (.register g) := by
    intro m o
    cases o <;> simp [Operand.names, Touches]
  have hmemory : Encoding.isMemory i.second = true ↔ ∃ o, i.second = .memory o := by
    cases i.second <;> simp [Encoding.isMemory]
  unfold Instruction.overwrites Writes
  cases hop : i.operation with
  | invalid | unmodelled name =>
    dsimp only
    unfold Instruction.forgets MayChange Instruction.isChanging
    cases i.flow <;> simp [Touches]
  | lea => simp only [Bool.and_eq_true, hmemory, hnames m]
  | push => simp
  | pop => simp [hnames (m.popped i)]
  | xchg => simp only [Bool.or_eq_true, ← hnames]
  | nop | cmp | test | bt => simp
  | _ => exact hnames m i.first

/-- A written register is only marked if the operation carries marks. -/
theorem carriesMark_of_overwrites (h : i.overwrites m.bitness g = true)
    (hbased : ((m.step i).registers.value g).based = true) : i.operation.carriesMark = true := by
  cases hcarries : i.operation.carriesMark with
  | true => rfl
  | false =>
    obtain ⟨hkept, -⟩ := (keeps_step m hcarries).marked (p := .register g) trivial hbased
    exact absurd (overwrites_iff_writes.1 h) hkept

theorem overwrites_steps (m : Machine) (path : List Instruction) :
    Overwrites m (path.foldl step m) fun g => path.any (·.overwrites m.bitness g) := by
  induction path generalizing m with
  | nil => exact .refl m
  | cons i path ih =>
    have hstep := overwrites_step m i
    have hrest := ih (m.step i)
    rw [hstep.mode] at hrest
    exact hstep.trans hrest

theorem bitness_steps (m : Machine) (path : List Instruction) : (path.foldl step m).bitness = m.bitness :=
  (overwrites_steps m path).mode

/-- **What a register holds** after a path is what the last instruction left there that overwrites it. -/
theorem exists_lastWrite (m : Machine) (path : List Instruction) (g : Gpr) :
    ∃ front back, path = front ++ back ∧ (∀ i ∈ back, i.overwrites m.bitness g = false) ∧
      (path.foldl step m).registers.value g = (front.foldl step m).registers.value g ∧
      (∀ i ∈ front.getLast?, i.overwrites m.bitness g = true) := by
  induction path using List.reverseRecOn with
  | nil => exact ⟨[], [], rfl, by simp, rfl, by simp⟩
  | append_singleton path i ih =>
    cases hi : i.overwrites m.bitness g with
    | true =>
      refine ⟨path ++ [i], [], by simp, by simp, rfl, ?_⟩
      simpa using hi
    | false =>
      obtain ⟨front, back, rfl, hback, hvalue, hfront⟩ := ih
      refine ⟨front, back ++ [i], List.append_assoc .., ?_, ?_, hfront⟩
      · simpa [or_imp, forall_and, hi] using hback
      · rw [List.foldl_append, List.foldl_cons, List.foldl_nil, ← hvalue]
        exact (overwrites_step _ i).kept g ((bitness_steps m _).symm ▸ hi)

/--
**No change is missed** but that of a loop. What an instruction overwrites is
marked as written, and every other register keeps its value. A decoded
instruction that is no call marks all registers that it changes as written,
unless it is a loop, whose register is marked only if it was before. So a
marked register at the end of a path holds what it did at the start or what an
instruction left there that carries marks, and no later instruction changes
it, calls and loops apart.
-/
theorem changes_written (m : Machine) :
    (∀ i, m.Overwrites (m.step i) (i.overwrites m.bitness)) ∧
    (∀ ip bytes, let i := Encoding.decode m.bitness ip bytes
      i.isCall = false →
        ((∀ g, i.isChanging g = true → (m.step i).registers.hasWritten g = true) ↔
          (i.countsDown = true → m.registers.hasWritten .cx = true))) ∧
    ∀ path : List Instruction, (∀ i ∈ path, ∃ ip bytes, i = Encoding.decode m.bitness ip bytes) →
      ∀ g, ((path.foldl step m).registers.value g).based = true →
        ∃ front back, path = front ++ back ∧
          (path.foldl step m).registers.value g = (front.foldl step m).registers.value g ∧
          (∀ i ∈ back, i.overwrites m.bitness g = false ∧
            (i.isChanging g = true → i.isCall = true ∨ i.countsDown = true ∧ g = .cx)) ∧
          ∀ i ∈ front.getLast?, i.overwrites m.bitness g = true ∧ i.operation.carriesMark = true := by
  refine ⟨overwrites_step m, fun ip bytes => ?_, fun path hdecoded g hbased => ?_⟩
  · intro i hcall
    have hwritten := (overwrites_step m i).written
    constructor
    · intro h hloop
      obtain ⟨hchanging, hnothing⟩ := Encoding.isChanging_of_countsDown hloop
      have hcx := h .cx hchanging
      rwa [hwritten, hnothing, Bool.false_or] at hcx
    · intro h g hchanging
      rw [hwritten]
      obtain hover | ⟨hloop, rfl⟩ := Encoding.overwrites_of_isChanging hcall hchanging
      · rw [hover, Bool.true_or]
      · rw [h hloop, Bool.or_true]
  · obtain ⟨front, back, rfl, hback, hvalue, hfront⟩ := exists_lastWrite m path g
    refine ⟨front, back, rfl, hvalue, fun i hi => ⟨hback i hi, fun hchanging => ?_⟩, fun i hi => ⟨hfront i hi, ?_⟩⟩
    · obtain ⟨ip, bytes, hdecode⟩ := hdecoded i (List.mem_append_right _ hi)
      cases hcall : i.isCall with
      | true => exact .inl rfl
      | false =>
        have hcases := Encoding.overwrites_of_isChanging (hdecode ▸ hcall) (hdecode ▸ hchanging)
        rw [← hdecode, hback i hi] at hcases
        exact .inr (hcases.resolve_left Bool.false_ne_true)
    · obtain ⟨start, rfl⟩ := List.getLast?_eq_some_iff.1 hi
      rw [hvalue, List.foldl_append, List.foldl_cons, List.foldl_nil] at hbased
      exact carriesMark_of_overwrites ((bitness_steps m start).symm ▸ hfront i hi) hbased

/-- A copy of the base is found behind a loop, which goes unnoticed. -/
theorem changes_written_copied :
    let m := (initial (.ofBytes 0x10000 .x64 #[]) 0x800000).writeRegister (.gpr .cx .qword) (.onBase 0x1000)
    let path := [Encoding.decode .x64 0x10000 [0x48, 0x89, 0xca], Encoding.decode .x64 0x10003 [0xe2, 0xfb]]
    ((path.foldl step m).registers.value .dx).based = true ∧
      ∃ front back, path = front ++ back ∧
        (path.foldl step m).registers.value .dx = (front.foldl step m).registers.value .dx ∧
        (∀ i ∈ back, i.overwrites m.bitness .dx = false ∧
          (i.isChanging .dx = true → i.isCall = true ∨ i.countsDown = true ∧ Gpr.dx = .cx)) ∧
        ∀ i ∈ front.getLast?, i.overwrites m.bitness .dx = true ∧ i.operation.carriesMark = true := by
  intro m path
  have hmode : m.bitness = .x64 := by decide +kernel
  have hbased : ((path.foldl step m).registers.value .dx).based = true := by decide +kernel
  refine ⟨hbased, (changes_written m).2.2 path ?_ .dx hbased⟩
  simp only [path, List.forall_mem_cons, hmode]
  exact ⟨⟨_, _, rfl⟩, ⟨_, _, rfl⟩, by simp⟩

/-- A loop leaves the register unmarked that it counts down. -/
theorem not_changes_written_loop :
    ¬ ∀ (m : Machine) (ip : UInt64) (bytes : List UInt8),
      let i := Encoding.decode m.bitness ip bytes
      i.isCall = false → ∀ g, i.isChanging g = true → (m.step i).registers.hasWritten g = true := by
  intro h
  have hunwritten := h (initial (.ofBytes 0x10000 .x64 #[]) 0x800000) 0x10000 [0xe2, 0x00] (by decide +kernel) .cx
    (by decide +kernel)
  revert hunwritten
  decide +kernel

end Machine

end KernelOffsets
