/-
Paths on which the answer is exact. On a path of whole registers, pointer-sized
slots and constants (`Lineage.follows`) every register stays the base plus a
distance or a constant (`Lineage.Known.run`). A search along such a path
answers with that distance, or says which of the reasons to have no answer
applies (`Resolver.emulatedOffset_exact`).
-/
import KernelOffsets.Proofs.StraightLine
import KernelOffsets.Proofs.Verdict

namespace KernelOffsets

/-! ## The instructions -/

/-- Whether an operand is a whole register, by a name of the width of a pointer. -/
def Operand.isWhole (b : Bitness) : Operand → Bool
  | .register (.gpr _ w) => w == b.pointerWidth
  | _ => false

/-- Whether a write to an operand replaces a whole register; one of 32 bits clears the upper half. -/
def Operand.replaces (b : Bitness) : Operand → Bool
  | .register (.gpr _ w) => w == b.pointerWidth || w == .dword
  | _ => false

/-- Whether an operand is a constant of the code. -/
def Operand.isImmediate : Operand → Bool
  | .immediate _ _ => true
  | _ => false

/-- Whether it is the base plus a distance or a constant. -/
def Origin.isKnown : Origin → Bool
  | .base _ | .constant _ => true
  | _ => false

namespace Lineage

variable (σ : Lineage)

/-- Whether an operand is a pointer-sized slot at a displacement from a register that is a constant. -/
def isSlot : Operand → Bool
  | .memory o =>
    o.size == σ.bitness.pointerBytes && o.index == .absent &&
      (Operand.register o.base).isWhole σ.bitness && (σ.read o.base).isConstant
  | _ => false

/-- Whether an operand can be written without leaving whole registers and slots. -/
def isPlace (o : Operand) : Bool :=
  o.isWhole σ.bitness || σ.isSlot o

/-- Whether an operand can be read: an immediate, a whole register, or a slot with a known pointer. -/
def isSource (o : Operand) : Bool :=
  o.isImmediate || o.isWhole σ.bitness || (σ.isSlot o && (σ.fetch o).isKnown)

/-- Whether an operand can be read and written. -/
def isVariable (o : Operand) : Bool :=
  σ.isPlace o && σ.isSource o

/-- Whether an operand is a displacement from a whole register. -/
def isDisplaced : Operand → Bool
  | .memory o => (Operand.register o.base).isWhole σ.bitness && o.index == .absent
  | _ => false

/-- Whether a push or pop moves one pointer at a known address. -/
def isStackMove (i : Instruction) : Bool :=
  i.stackBytes == σ.bitness.pointerBytes && σ.stackTop.isConstant

/-- Whether an instruction keeps whole registers and slots the base plus a distance or constants. -/
def admits (i : Instruction) : Bool :=
  match i.operation with
  | .mov => σ.isPlace i.first && σ.isSource i.second
  | .lea => i.first.isWhole σ.bitness && σ.isDisplaced i.second
  | .add =>
    σ.isVariable i.first && σ.isSource i.second &&
      ((σ.fetch i.first).isConstant || (σ.fetch i.second).isConstant)
  | .sub =>
    i.isOnItself && i.first.replaces σ.bitness ||
      σ.isVariable i.first && σ.isSource i.second && (σ.fetch i.second).isConstant
  | .xor => i.isOnItself && i.first.replaces σ.bitness
  | .inc | .dec => σ.isVariable i.first
  | .push => σ.isSource i.first && σ.isStackMove i
  | .pop => i.first.isWhole σ.bitness && σ.isStackMove i && (σ.load σ.stackTop i.stackBytes).isKnown
  | .xchg => i.first.isWhole σ.bitness && i.second.isWhole σ.bitness
  | .nop | .cmp | .test | .bt => true
  | .unmodelled _ =>
    match i.flow with
    | .call | .indirectCall | .conditionalBranch | .unconditionalBranch | .indirectBranch => true
    | _ => false
  | _ => false

/-- Whether each instruction of a path is admitted after those before it. -/
def follows : Lineage → List Instruction → Bool
  | _, [] => true
  | σ, i :: path => σ.admits i && (σ.step i).follows path

/-- Every register is the base plus a distance or a constant. -/
def Known : Prop := ∀ g, (σ.registers g).isKnown = true

variable {σ : Lineage}

/-! ## Registers stay known -/

theorem isKnown_of_isConstant {o : Origin} (h : o.isConstant = true) : o.isKnown = true := by
  cases o <;> first | rfl | cases h

theorem isKnown_atWidth {b : Bitness} {w : Width} {o : Origin} (h : o.isKnown = true)
    (hw : b.pointerBytes ≤ w.bytes) : (o.atWidth b w).isKnown = true := by
  cases o <;> simp_all [Origin.atWidth, Origin.isKnown]

theorem isKnown_add {o p : Origin} (ho : o.isKnown = true) (hp : p.isKnown = true)
    (h : (o.isConstant || p.isConstant) = true) : (o.add p).isKnown = true := by
  cases o <;> cases p <;> simp_all [Origin.add, Origin.isKnown, Origin.isConstant]

theorem isKnown_sub {o p : Origin} (ho : o.isKnown = true) (hp : p.isConstant = true) :
    (o.sub p).isKnown = true := by
  cases o <;> cases p <;> simp_all [Origin.sub, Origin.isKnown, Origin.isConstant]

theorem Known.put (h : σ.Known) (g : Gpr) {o : Origin} (ho : o.isKnown = true) : (σ.put g o).Known := by
  intro k
  simp only [Lineage.put]
  split
  · exact ho
  · exact h k

theorem Known.store (h : σ.Known) (a : Origin) (n : Nat) (o : Origin) : (σ.store a n o).Known := by
  cases a with
  | constant c =>
    simp only [Lineage.store]
    split
    · exact h
    · exact h
  | _ => exact h

theorem isWhole_register {b : Bitness} {o : Operand} (h : o.isWhole b = true) :
    ∃ g, o = .register (b.wide g) := by
  cases o with
  | register r =>
    cases r with
    | gpr g w =>
      rw [Operand.isWhole, beq_iff_eq] at h
      exact ⟨g, by rw [h]; rfl⟩
    | _ => cases h
  | _ => cases h

theorem Known.read_whole (h : σ.Known) (g : Gpr) : (σ.read (σ.bitness.wide g)).isKnown = true :=
  isKnown_atWidth (h g) σ.bitness.pointerBytes_le_pointerWidth

theorem merge_pointerWidth (b : Bitness) (old o : Origin) :
    Origin.merge b b.pointerWidth old o = o.atWidth b b.pointerWidth := by
  cases b <;> rfl

theorem Known.assign_whole (h : σ.Known) {d : Operand} (hd : d.isWhole σ.bitness = true) {o : Origin}
    (ho : o.isKnown = true) : (σ.assign d o).Known := by
  obtain ⟨g, rfl⟩ := isWhole_register hd
  refine h.put g ?_
  rw [merge_pointerWidth]
  exact isKnown_atWidth ho σ.bitness.pointerBytes_le_pointerWidth

theorem Known.assign_place (h : σ.Known) {d : Operand} (hd : σ.isPlace d = true) {o : Origin}
    (ho : o.isKnown = true) : (σ.assign d o).Known := by
  rcases Bool.or_eq_true_iff.1 hd with hw | hs
  · exact h.assign_whole hw ho
  · cases d with
    | memory a => exact h.store _ _ _
    | _ => cases hs

/-- A register that is replaced by zero. -/
theorem Known.assign_zero (h : σ.Known) {d : Operand} (hd : d.replaces σ.bitness = true) :
    (σ.assign d (.constant 0)).Known := by
  cases d with
  | register r =>
    cases r with
    | gpr g w =>
      refine h.put g ?_
      rw [Operand.replaces, Bool.or_eq_true, beq_iff_eq, beq_iff_eq] at hd
      rcases hd with rfl | rfl
      · rw [merge_pointerWidth]; rfl
      · rfl
    | _ => cases hd
  | _ => cases hd

theorem Known.fetch (h : σ.Known) {o : Operand} (ho : σ.isSource o = true) : (σ.fetch o).isKnown = true := by
  simp only [isSource, Bool.or_eq_true, Bool.and_eq_true] at ho
  rcases ho with (hi | hw) | ⟨-, hk⟩
  · cases o with
    | immediate bits w => rfl
    | _ => cases hi
  · obtain ⟨g, rfl⟩ := isWhole_register hw
    exact h.read_whole g
  · exact hk

theorem volatile_eq_map : ∀ b : Bitness, ∃ gs : List Gpr, b.volatile = gs.map b.wide
  | .x86 => ⟨[.ax, .cx, .dx], rfl⟩
  | .x64 => ⟨[.ax, .cx, .dx, .r8, .r9, .r10, .r11], rfl⟩

theorem Known.clobberAll (h : σ.Known) {gs : List Gpr} :
    ((gs.map σ.bitness.wide).foldl Lineage.clobber σ).Known := by
  induction gs generalizing σ with
  | nil => exact h
  | cons g gs ih =>
    have hg : (σ.clobber (σ.bitness.wide g)).Known :=
      h.assign_zero (d := .register (σ.bitness.wide g)) (by simp [Operand.replaces, Bitness.wide])
    exact ih hg

theorem Known.setStackTop (h : σ.Known) {o : Origin} (ho : o.isConstant = true) : (σ.setStackTop o).Known := by
  refine h.assign_whole (d := .register σ.bitness.stackPointer) (by simp [Operand.isWhole, Bitness.stackPointer, Bitness.wide]) ?_
  cases o with
  | constant c => rfl
  | _ => cases ho

/-- A displacement from a whole register is as known as the register. -/
theorem Known.address (h : σ.Known) {o : MemoryOperand} (ho : σ.isDisplaced (.memory o) = true) :
    (σ.address o).isKnown = true := by
  rw [isDisplaced, Bool.and_eq_true, beq_iff_eq] at ho
  obtain ⟨g, hg⟩ := isWhole_register ho.1
  have hbase : o.base = σ.bitness.wide g := Operand.register.inj hg
  have hindex : (σ.scaled o.index o.scale).isConstant = true := by
    rw [scaled, ho.2]
    split <;> rfl
  have haddress : σ.address o =
      ((Origin.constant o.displacement).add (σ.read o.base)).add (σ.scaled o.index o.scale) := by
    rw [Lineage.address, hbase]
    rfl
  rw [haddress, hbase]
  refine isKnown_add (isKnown_add rfl (h.read_whole g) rfl) (isKnown_of_isConstant hindex) ?_
  rw [hindex, Bool.or_true]

theorem Known.push (h : σ.Known) {i : Instruction} (hi : σ.isStackMove i = true) : (σ.push i).Known := by
  have hmove : (σ.setStackTop (σ.stackTop.map (· - i.stackBytes.toUInt64))).Known := by
    refine h.setStackTop ?_
    rw [isStackMove, Bool.and_eq_true] at hi
    cases hs : σ.stackTop <;> simp_all [Origin.map, Origin.isConstant]
  exact hmove.store _ _ _

theorem Known.pop (h : σ.Known) {i : Instruction} (hi : σ.isStackMove i = true)
    (hd : i.first.isWhole σ.bitness = true) (hv : (σ.load σ.stackTop i.stackBytes).isKnown = true) :
    (σ.pop i).Known := by
  have hmove : (σ.setStackTop (σ.stackTop.map (· + i.stackBytes.toUInt64))).Known := by
    refine h.setStackTop ?_
    rw [isStackMove, Bool.and_eq_true] at hi
    cases hs : σ.stackTop <;> simp_all [Origin.map, Origin.isConstant]
  exact hmove.assign_whole (by rw [bitness_setStackTop]; exact hd) hv

/-- **One instruction** that is admitted keeps the registers known. -/
theorem Known.step (h : σ.Known) {i : Instruction} (hi : σ.admits i = true) : (σ.step i).Known := by
  unfold Lineage.step
  unfold admits at hi
  cases hop : i.operation <;> simp only [hop, Bool.and_eq_true, Bool.or_eq_true] at hi ⊢ <;>
    try exact absurd hi Bool.false_ne_true
  case mov => exact h.assign_place hi.1 (h.fetch hi.2)
  case lea =>
    obtain ⟨hd, hs⟩ := hi
    cases hsecond : i.second with
    | memory o => exact h.assign_whole hd (h.address (hsecond ▸ hs))
    | _ => exact h
  case add =>
    obtain ⟨⟨hfirst, hsecond⟩, hconstant⟩ := hi
    rw [isVariable, Bool.and_eq_true] at hfirst
    exact h.assign_place hfirst.1
      (isKnown_add (h.fetch hfirst.2) (h.fetch hsecond) (Bool.or_eq_true_iff.2 hconstant))
  case sub =>
    rcases hi with ⟨hself, hd⟩ | ⟨⟨hfirst, hsecond⟩, hconstant⟩
    · rw [if_pos hself]
      exact h.assign_zero hd
    · rw [isVariable, Bool.and_eq_true] at hfirst
      refine h.assign_place hfirst.1 ?_
      split
      · rfl
      · exact isKnown_sub (h.fetch hfirst.2) hconstant
  case xor =>
    rw [if_pos hi.1]
    exact h.assign_zero hi.2
  case inc =>
    rw [isVariable, Bool.and_eq_true] at hi
    exact h.assign_place hi.1 (isKnown_add (h.fetch hi.2) rfl (by simp [Origin.isConstant]))
  case dec =>
    rw [isVariable, Bool.and_eq_true] at hi
    exact h.assign_place hi.1 (isKnown_sub (h.fetch hi.2) rfl)
  case push => exact h.push hi.2
  case pop => exact h.pop hi.1.2 hi.1.1 hi.2
  case xchg =>
    obtain ⟨hfirst, hsecond⟩ := hi
    have hsource : ∀ {o : Operand}, o.isWhole σ.bitness = true → σ.isSource o = true := by
      intro o ho
      simp [isSource, ho]
    have hexchanged := h.assign_whole hfirst (h.fetch (hsource hsecond))
    exact hexchanged.assign_whole (by rw [bitness_assign]; exact hsecond) (h.fetch (hsource hfirst))
  case nop | cmp | test | bt => exact h
  case unmodelled name =>
    unfold stepOther
    cases hflow : i.flow <;> simp only [hflow] at hi ⊢ <;> try exact absurd hi Bool.false_ne_true
    case call | indirectCall =>
      obtain ⟨gs, hgs⟩ := volatile_eq_map σ.bitness
      rw [hgs]
      exact h.clobberAll
    all_goals exact h

/-- **A path** of admitted instructions keeps the registers known. -/
theorem Known.run (h : σ.Known) {path : List Instruction} (hp : σ.follows path = true) : (σ.run path).Known := by
  induction path generalizing σ with
  | nil => exact h
  | cons i path ih =>
    rw [follows, Bool.and_eq_true] at hp
    exact ih (h.step hp.1) hp.2

theorem known_initial (image : Image) (stackTop : UInt64) (g : Gpr) : (initial image stackTop g).Known := by
  intro k
  simp only [initial]
  split
  · rfl
  · split <;> rfl

theorem isInvalid_of_admits {i : Instruction} (h : σ.admits i = true) : i.isInvalid = false := by
  rw [Instruction.isInvalid, beq_eq_false_iff_ne]
  intro hop
  rw [admits, hop] at h
  cases h

theorem isInvalid_of_follows {path : List Instruction} (h : σ.follows path = true) :
    ∀ i ∈ path, i.isInvalid = false := by
  induction path generalizing σ with
  | nil => intro i hi; cases hi
  | cons j path ih =>
    rw [follows, Bool.and_eq_true] at h
    intro i hi
    rcases List.mem_cons.1 hi with rfl | hi
    · exact isInvalid_of_admits h.1
    · exact ih h.2 i hi

end Lineage

/-! ## The answer -/

namespace Resolver

variable (s : Resolver) (register : SharedRegister)

/--
The answer that the lineage of a path gives. A budget that does not last is
the first reason to have none; then whether the register was written; then
what it is made of.
-/
def exactAnswer (call : UInt64) (path : List Instruction) : Except Failure UInt64 :=
  let b := s.image.bitness
  let r := register.within b
  match path[s.settings.maxInstructions]? with
  | some i => .error (.divergence i.ip .budgetExhausted)
  | none =>
    if (s.lineageOf register path).written register.gpr then
      match (s.lineageOf register path).registers register.gpr with
      | .base k =>
        if s.settings.sentinel.toNat + (k &&& b.addressMask).toNat < b.addresses then .ok (k &&& b.addressMask)
        else .error (.divergence call (.negativeOffset r))
      | _ => .error (.divergence call (.notBaseRelative r))
    else .error (.divergence call (.registerNotWritten r))

/-- The replay of an admitted path gives the answer that its lineage gives. -/
theorem answer_of_follows {call : UInt64} {path : List Instruction}
    (hpath : (Lineage.initial s.image s.settings.stackTop register.gpr).follows path = true) :
    s.answer register call path = s.exactAnswer register call path := by
  have hvalid := Lineage.isInvalid_of_follows hpath
  have hstop := Machine.stop_replay (fun _ _ => ()) hvalid s.settings.maxInstructions
    (s.machineAt (register.within s.image.bitness))
  rw [exactAnswer]
  cases hbudget : path[s.settings.maxInstructions]? with
  | some i =>
    rw [hbudget] at hstop
    simp only [answer, pointerAfter, hstop]
    rfl
  | none =>
    rw [hbudget] at hstop
    rw [answer_eq_judgement hstop]
    have hg := s.covers_lineageOf register path register.gpr
    have hknown : (s.lineageOf register path).Known := (Lineage.known_initial _ _ _).run hpath
    cases hw : (s.lineageOf register path).written register.gpr with
    | false => exact judgement_unwritten hw
    | true =>
      cases ho : (s.lineageOf register path).registers register.gpr with
      | base k =>
        rw [ho] at hg
        exact judgement_marked hw hg.1 hg.2
      | constant c =>
        rw [ho] at hg
        exact judgement_unmarked hw hg.1
      | perhaps k | mixed =>
        have hreg := hknown register.gpr
        rw [ho] at hreg
        cases hreg

/--
**Exact distance.** A search along an admitted path answers with the distance
that the path puts between the base and the register, modulo the address
space; or says that the budget does not last, that the register was not
written, that it holds a constant, or that the pointer passes the end of the
address space and so compares below the base.
-/
theorem emulatedOffset_exact {anchor target : String} {call : UInt64} {path : List Instruction}
    (hlocated : s.locate anchor target = .ok (call, path))
    (hpath : (Lineage.initial s.image s.settings.stackTop register.gpr).follows path = true) :
    (s.emulatedOffset anchor target register).result = s.exactAnswer register call path := by
  rw [result_of_locate register hlocated]
  exact s.answer_of_follows register hpath

/-- The base is pushed, a call is skipped, and the base is popped and moved on by 0x440. -/
def spilledAcrossCall : List UInt8 :=
  [0x51, 0xe8, 0, 0, 0, 0, 0x58, 0x48, 0x8d, 0x88, 0x40, 0x04, 0, 0, 0xe8, 0xed, 0xff, 0, 0]

theorem emulatedOffset_exact_spilled :
    ((alone .x64 spilledAcrossCall).emulatedOffset "anchor" "target" .cx).result = .ok 0x440 := by
  have hlocated := locate_alone .x64 spilledAcrossCall {} 0x1000e
    (by decide) (by decide) (by decide +kernel) (by decide +kernel)
  exact (emulatedOffset_exact _ .cx hlocated (by decide +kernel)).trans (by decide +kernel)

end Resolver

end KernelOffsets
