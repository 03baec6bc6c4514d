/-
How marks travel in one instruction. The results of the instructions that
carry a mark are sums of sources (`Machine.Sums`); a result may be marked only
if exactly one of its summands was marked before and enters with coefficient
one, and whatever else an instruction writes ends up unmarked
(`Machine.Lawful`). This holds of every decoded instruction but one: the
address of `lea` stays marked if a marked index is scaled and added to a
marked base (`Machine.lawful_iff`).
-/
import KernelOffsets.Proofs.Places
import KernelOffsets.Resolver

namespace KernelOffsets

/-- A source that enters a result. -/
structure Summand where
  coefficient : UInt64
  source : Source
  deriving DecidableEq, Repr

/-! ## What decoding promises -/

/-- What decoding promises about the operands of an instruction. -/
structure Instruction.IsSized (b : Bitness) (i : Instruction) : Prop where
  arithmetic : i.operation.isArithmetic = true →
    ∃ n ≤ b.pointerBytes, i.first.isOfSize n = true ∧ i.second.isOfSize n = true
  memory : ∀ {o}, i.second = .memory o → ∃ n, o.base.isOfSize n = true ∧ o.index.isOfSize n = true

theorem Encoding.decode_isSized (mode : Bitness) (ip : UInt64) (bytes : List UInt8) :
    (decode mode ip bytes).IsSized mode := by
  refine ⟨fun h => ?_, fun {o} ho => ?_⟩
  · obtain ⟨n, hn, hsize⟩ := decode_arithmetic h
    have operand : ∀ {o}, o = .missing ∨ o ∈ (decode mode ip bytes).operands → o.isOfSize n = true := by
      rintro o (rfl | ho)
      · rfl
      · exact hsize o ho
    exact ⟨n, hn, operand (Instruction.first_mem _), operand (Instruction.second_mem _)⟩
  · obtain hmissing | hmem := (decode mode ip bytes).second_mem
    · rw [hmissing] at ho
      cases ho
    · exact decode_memory (ho ▸ hmem)

/-- The operations that can leave a mark. -/
def Operation.carriesMark : Operation → Bool
  | mov | lea | add | sub | inc | dec | push | pop | xchg => true
  | _ => false

namespace Machine

/-! ## Sums -/

/-- The word that some summands add up to. -/
def total (m : Machine) (ts : List Summand) : UInt64 :=
  ts.foldr (fun t sum => t.coefficient * (m.valueOf t.source).bits + sum) 0

/-- The coefficients of the summands that are marked. -/
def marks (m : Machine) (ts : List Summand) : List UInt64 :=
  (ts.filter fun t => (m.valueOf t.source).based).map (·.coefficient)

/-- The machine after its stack pointer has moved for a push. -/
def pushed (m : Machine) (i : Instruction) : Machine :=
  m.setStackTop (m.stackTop - i.stackBytes.toUInt64)

/-- The machine after its stack pointer has moved for a pop. -/
def popped (m : Machine) (i : Instruction) : Machine :=
  m.setStackTop (m.stackTop + i.stackBytes.toUInt64)

/-- The slot of a pointer at an address. -/
def slotAt (m : Machine) (address : UInt64) : Place :=
  .slot (address &&& m.bitness.addressMask)

/-- The places that an instruction of full width leaves a sum in, with the summands. -/
inductive Sums (m : Machine) (i : Instruction) : Place → List Summand → Prop where
  | mov {p s} (op : i.operation = .mov) (dest : m.place? i.first = some p) (source : m.source? i.second = some s) :
      Sums m i p [⟨1, s⟩]
  | lea {p o s t} (op : i.operation = .lea) (dest : m.place? i.first = some p) (reference : i.second = .memory o)
      (base : o.base.source? m.bitness = some s) (index : o.index.source? m.bitness = some t) :
      Sums m i p [⟨1, .constant o.displacement⟩, ⟨1, s⟩, ⟨o.scale, t⟩]
  | add {p s} (op : i.operation = .add) (dest : m.place? i.first = some p) (source : m.source? i.second = some s) :
      Sums m i p [⟨1, .place p⟩, ⟨1, s⟩]
  | sub {p s} (op : i.operation = .sub) (dest : m.place? i.first = some p) (source : m.source? i.second = some s) :
      Sums m i p [⟨1, .place p⟩, ⟨-1, s⟩]
  | inc {p} (op : i.operation = .inc) (dest : m.place? i.first = some p) :
      Sums m i p [⟨1, .place p⟩, ⟨1, .constant 1⟩]
  | dec {p} (op : i.operation = .dec) (dest : m.place? i.first = some p) :
      Sums m i p [⟨1, .place p⟩, ⟨-1, .constant 1⟩]
  | push {s} (op : i.operation = .push) (size : i.stackBytes = m.bitness.pointerBytes)
      (source : m.source? i.first = some s) : Sums m i (m.slotAt (m.pushed i).stackTop) [⟨1, s⟩]
  | pop {p} (op : i.operation = .pop) (size : i.stackBytes = m.bitness.pointerBytes)
      (dest : (m.popped i).place? i.first = some p) : Sums m i p [⟨1, .place (m.slotAt m.stackTop)⟩]
  | exchangeFirst {p s} (op : i.operation = .xchg) (dest : m.place? i.first = some p)
      (source : m.source? i.second = some s) : Sums m i p [⟨1, s⟩]
  | exchangeSecond {p s} (op : i.operation = .xchg)
      (dest : (m.assign i.first (m.fetch i.second)).place? i.second = some p)
      (source : m.source? i.first = some s) : Sums m i p [⟨1, s⟩]

/-! ## The law -/

/-- What an instruction without a rule may change. -/
def MayChange (m : Machine) (i : Instruction) (p : Place) : Prop :=
  match i.flow with
  | .call | .indirectCall => ∃ r ∈ m.bitness.volatile, m.Touches (.register r) p
  | .conditionalBranch | .unconditionalBranch | .indirectBranch => False
  | _ =>
    (∃ r ∈ i.changes, m.Touches (.register r) p) ∨
      ∃ a, p = .slot a ∧ (i.repeated = true ∨ ∃ o ∈ i.stores, o.size = 0 ∨
        ∀ x, m.registers.knownAddress? o = some x → m.bitness.meets x o.size a = true)

/-- Whether an instruction writes to a place or may do so. -/
def Writes (m : Machine) (i : Instruction) (p : Place) : Prop :=
  match i.operation with
  | .nop | .cmp | .test | .bt => False
  | .lea => (∃ o, i.second = .memory o) ∧ m.Touches i.first p
  | .push =>
    p = .register .sp ∨ ∃ a, p = .slot a ∧ m.bitness.meets (m.pushed i).stackTop i.stackBytes a = true
  | .pop => p = .register .sp ∨ (m.popped i).Touches i.first p
  | .xchg => m.Touches i.first p ∨ (m.assign i.first (m.fetch i.second)).Touches i.second p
  | .invalid | .unmodelled _ => m.MayChange i p
  | _ => m.Touches i.first p

/-- An instruction leaves in a place a sum in which exactly one summand is marked, with coefficient one. -/
def Transfers (m : Machine) (i : Instruction) (p : Place) : Prop :=
  ∃ ts, m.Sums i p ts ∧ m.bitness.Same ((m.step i).valueAt p).bits (m.total ts) ∧ m.marks ts = [1]

/-- A place that is marked after an instruction was neither written nor changed, or the mark was transferred. -/
def Lawful (m : Machine) (i : Instruction) : Prop :=
  ∀ p, p.IsWithin m.bitness → ((m.step i).valueAt p).based = true →
    (m.Writes i p ∨ (m.step i).valueAt p ≠ m.valueAt p) → m.Transfers i p

/-- `lea` adds a multiple of a marked index to a marked base. -/
def AddsMultiple (m : Machine) (i : Instruction) (p : Place) : Prop :=
  i.operation = .lea ∧ m.place? i.first = some p ∧ ∃ o, i.second = .memory o ∧ o.scale ≠ 1 ∧
    (m.registers.read o.base).based = true ∧ (m.registers.read o.index).based = true

/-! ## What writes no mark -/

variable {m m' m'' : Machine} {i : Instruction} {p : Place} {v : Value} {W W' : Place → Prop}

/-- Every place that is marked in the second machine was not written and is as in the first one. -/
structure Keeps (m m' : Machine) (written : Place → Prop) : Prop where
  mode : m'.bitness = m.bitness
  marked : ∀ {p}, p.IsWithin m.bitness → (m'.valueAt p).based = true → ¬ written p ∧ m'.valueAt p = m.valueAt p

namespace Keeps

theorem refl (m : Machine) : Keeps m m fun _ => False :=
  ⟨rfl, fun _ _ => ⟨id, rfl⟩⟩

theorem trans (h : Keeps m m' W) (h' : Keeps m' m'' W') : Keeps m m'' fun p => W p ∨ W' p := by
  refine ⟨h'.mode.trans h.mode, fun {p} hp hv => ?_⟩
  obtain ⟨hw', hkeep'⟩ := h'.marked (h.mode ▸ hp) hv
  rw [hkeep'] at hv ⊢
  obtain ⟨hw, hkeep⟩ := h.marked hp hv
  exact ⟨fun hor => hor.elim hw hw', hkeep⟩

/-- Less may be said to be written. -/
theorem mono (h : Keeps m m' W) (hW : ∀ p, W' p → W p) : Keeps m m' W' := by
  refine ⟨h.mode, fun hp hv => ?_⟩
  obtain ⟨hw, hkeep⟩ := h.marked hp hv
  exact ⟨fun hw' => hw (hW _ hw'), hkeep⟩

theorem assign (m : Machine) (d : Operand) (hv : v.based = false) : Keeps m (m.assign d v) (m.Touches d) := by
  refine ⟨bitness_assign m d v, fun hp h => ?_⟩
  obtain hkeep | ⟨-, hmark⟩ := assign_based hp h
  · exact hkeep
  · rw [hv] at hmark
    cases hmark

theorem clobberAll (m : Machine) (rs : List Register) :
    Keeps m (rs.foldl clobber m) fun p => ∃ r ∈ rs, m.Touches (.register r) p := by
  induction rs generalizing m with
  | nil =>
    refine (refl m).mono ?_
    rintro p ⟨r, hr, -⟩
    cases hr
  | cons r rs ih =>
    refine ((assign m (.register r) (v := .plain 0) rfl).trans (ih (m.clobber r))).mono ?_
    rintro p ⟨r', hr', ht⟩
    obtain rfl | hr' := List.mem_cons.1 hr'
    · exact .inl ht
    · cases p with
      | register g => exact .inr ⟨r', hr', ht⟩
      | slot a => cases ht

theorem setStackTop (m : Machine) (address : UInt64) :
    Keeps m (m.setStackTop address) fun p => p = .register .sp := by
  refine (assign m (.register m.bitness.stackPointer) (v := .plain (address &&& m.bitness.addressMask)) rfl).mono ?_
  rintro p rfl
  rfl

/-- A store of unmarked bytes. -/
theorem store (m : Machine) (a : UInt64) (n : Nat) (hv : v.based = false) :
    Keeps m (m.store a n v) fun p => ∃ x, p = .slot x ∧ m.bitness.meets a n x = true := by
  refine ⟨rfl, fun {p} hp h => ?_⟩
  cases p with
  | register g => exact ⟨nofun, rfl⟩
  | slot x =>
    obtain ⟨hmeets, hkeep⟩ | ⟨hmark, -⟩ := store_based hp h
    · refine ⟨?_, hkeep⟩
      rintro ⟨y, hy, hw⟩
      cases hy
      rw [hmeets] at hw
      cases hw
    · rw [hv] at hmark
      cases hmark

theorem forgetSpills (m : Machine) :
    Keeps m { m with memory := m.memory.forgetSpills } fun p => ∃ x, p = .slot x := by
  refine ⟨rfl, fun {p} _ h => ?_⟩
  cases p with
  | register g => exact ⟨nofun, rfl⟩
  | slot x => simp [valueAt, load, Memory.load] at h

theorem storeUnknown (m : Machine) (target : Option UInt64 × Nat) :
    Keeps m { m with memory := Machine.storeUnknown m.memory m.bitness target } fun p =>
      ∃ x, p = .slot x ∧ (target.2 = 0 ∨ ∀ a, target.1 = some a → m.bitness.meets a target.2 x = true) := by
  obtain ⟨a, n⟩ := target
  cases a with
  | none => exact (forgetSpills m).mono fun p ⟨x, hx, _⟩ => ⟨x, hx⟩
  | some a =>
    cases n with
    | zero => exact (forgetSpills m).mono fun p ⟨x, hx, _⟩ => ⟨x, hx⟩
    | succ n =>
      refine (store m a (n + 1) (v := .plain 0) rfl).mono ?_
      rintro p ⟨x, hx, hzero | hmeets⟩
      · cases hzero
      · exact ⟨x, hx, hmeets a rfl⟩

theorem storeAll (m : Machine) (targets : List (Option UInt64 × Nat)) :
    Keeps m { m with memory := targets.foldl (Machine.storeUnknown · m.bitness) m.memory } fun p =>
      ∃ x, p = .slot x ∧ ∃ target ∈ targets,
        target.2 = 0 ∨ ∀ a, target.1 = some a → m.bitness.meets a target.2 x = true := by
  induction targets generalizing m with
  | nil =>
    refine (refl m).mono ?_
    rintro p ⟨x, -, target, ht, -⟩
    cases ht
  | cons target targets ih =>
    refine ((storeUnknown m target).trans (ih _)).mono ?_
    rintro p ⟨x, hx, other, hmem, hother⟩
    obtain rfl | hmem := List.mem_cons.1 hmem
    · exact .inl ⟨x, hx, hother⟩
    · exact .inr ⟨x, hx, other, hmem, hother⟩

theorem forget (m : Machine) (i : Instruction) :
    Keeps m (m.forget i) fun p =>
      (∃ r ∈ i.changes, m.Touches (.register r) p) ∨
        ∃ a, p = .slot a ∧ (i.repeated = true ∨ ∃ o ∈ i.stores, o.size = 0 ∨
          ∀ x, m.registers.knownAddress? o = some x → m.bitness.meets x o.size a = true) := by
  have cleared : Keeps m { m with memory := if i.repeated then m.memory.forgetSpills else m.memory }
      fun p => ∃ x, p = .slot x ∧ i.repeated = true := by
    cases i.repeated with
    | true => exact (forgetSpills m).mono fun p ⟨x, hx, _⟩ => ⟨x, hx⟩
    | false => exact (refl m).mono nofun
  refine ((cleared.trans (storeAll _ (m.storesOf i))).trans (clobberAll _ i.changes)).mono ?_
  rintro p (⟨r, hr, ht⟩ | ⟨a, rfl, hrepeated | ⟨o, ho, hsize⟩⟩)
  · cases p with
    | register g => exact .inr ⟨r, hr, ht⟩
    | slot a => cases ht
  · exact .inl (.inl ⟨a, rfl, hrepeated⟩)
  · exact .inl (.inr ⟨a, rfl, _, List.mem_map_of_mem ho, hsize⟩)

theorem stepOther (m : Machine) (i : Instruction) : Keeps m (m.stepOther i) (m.MayChange i) := by
  unfold Machine.stepOther MayChange
  cases i.flow with
  | call | indirectCall => exact clobberAll m _
  | conditionalBranch | unconditionalBranch | indirectBranch => exact refl m
  | _ => exact forget m i

end Keeps

/-- **Every operation outside the list leaves what it writes unmarked.** -/
theorem keeps_step (m : Machine) (h : i.operation.carriesMark = false) : Keeps m (m.step i) (m.Writes i) := by
  unfold step Writes combine change
  cases hop : i.operation with
  | mov | lea | add | sub | inc | dec | push | pop | xchg =>
    rw [hop] at h
    cases h
  | nop | cmp | test | bt => exact .refl m
  | invalid | unmodelled name => exact .stepOther m i
  | xor =>
    dsimp only
    split <;> exact .assign m i.first rfl
  | _ => exact .assign m i.first rfl

/-! ## What carries a mark -/

/-- A word is a sum in which exactly one summand is marked, with coefficient one. -/
def Carries (m : Machine) (i : Instruction) (p : Place) (x : UInt64) : Prop :=
  ∃ ts, m.Sums i p ts ∧ m.bitness.Same x (m.total ts) ∧ m.marks ts = [1]

/-- Why a place may be marked after an instruction. -/
def Accounts (m : Machine) (i : Instruction) (p : Place) : Prop :=
  (¬ m.Writes i p ∧ (m.step i).valueAt p = m.valueAt p) ∨ m.Transfers i p ∨ m.AddsMultiple i p

variable {o : Operand} {s t : Source} {c : UInt64}

theorem total_one (m : Machine) (s : Source) : m.total [⟨1, s⟩] = (m.valueOf s).bits := by
  simp [total]

theorem total_two (m : Machine) (s t : Source) (c : UInt64) :
    m.total [⟨1, s⟩, ⟨c, t⟩] = (m.valueOf s).bits + c * (m.valueOf t).bits := by
  simp [total]

/-- A constant is never marked. -/
theorem marks_constant (m : Machine) (x : UInt64) (ts : List Summand) :
    m.marks (⟨1, .constant x⟩ :: ts) = m.marks ts := rfl

/-- A marked operand is a sum of its own. -/
theorem carries_fetch (hs : m.source? o = some s) (h : (m.fetch o).based = true) (hsum : m.Sums i p [⟨1, s⟩]) :
    m.Carries i p (m.fetch o).bits := by
  obtain ⟨hbased, hbits⟩ := fetch_source hs
  rw [h] at hbased
  refine ⟨_, hsum, ?_, ?_⟩
  · rw [total_one]
    exact hbits
  · simp [marks, ← hbased]

/-- An instruction that writes its first operand. -/
theorem accounts_assign (hp : p.IsWithin m.bitness) (h : ((m.step i).valueAt p).based = true)
    (hstep : m.step i = m.assign i.first v) (hwrites : m.Writes i p → m.Touches i.first p)
    (hv : m.place? i.first = some p → v.based = true → m.Carries i p v.bits ∨ m.AddsMultiple i p) :
    m.Accounts i p := by
  rw [hstep] at h
  obtain ⟨htouches, hkeep⟩ | ⟨hplace, hmark⟩ := assign_based hp h
  · exact .inl ⟨fun hw => htouches (hwrites hw), hstep ▸ hkeep⟩
  · obtain ⟨ts, hsum, htotal, hmarks⟩ | hmultiple := hv hplace hmark
    · refine .inr (.inl ⟨ts, hsum, ?_, hmarks⟩)
      rw [hstep]
      exact (assign_place hplace).2.trans htotal
    · exact .inr (.inr hmultiple)

theorem accounts_mov (op : i.operation = .mov) (hp : p.IsWithin m.bitness)
    (h : ((m.step i).valueAt p).based = true) : m.Accounts i p := by
  refine accounts_assign hp h (v := m.fetch i.second) (by simp only [step, op]) (by simp only [Writes, op, imp_self]) ?_
  intro hplace hmark
  obtain ⟨⟨q, hs⟩, -⟩ := source_of_based hmark
  exact .inl (carries_fetch hs hmark (.mov op hplace hs))

/-- A sum of two sources one of which is marked; a second one that is marked counts once. -/
theorem carries_two (hsum : m.Sums i p [⟨1, s⟩, ⟨c, t⟩]) {x : UInt64}
    (hx : m.bitness.Same x ((m.valueOf s).bits + c * (m.valueOf t).bits))
    (hmark : (m.valueOf s).based = true ∧ (m.valueOf t).based = false ∨
      (m.valueOf s).based = false ∧ (m.valueOf t).based = true ∧ c = 1) :
    m.Carries i p x := by
  refine ⟨_, hsum, (total_two m s t c).symm ▸ hx, ?_⟩
  obtain ⟨hs, ht⟩ | ⟨hs, ht, rfl⟩ := hmark <;> simp [marks, hs, ht]

/-- If one of two operands of a size is marked, then both are of full width. -/
theorem sources_of_based (hi : i.IsSized m.bitness) (hop : i.operation.isArithmetic = true)
    (h : (m.fetch i.first).based = true ∨ (m.fetch i.second).based = true) :
    ∃ t, m.source? i.second = some t := by
  obtain ⟨n, hn, hfirst, hsecond⟩ := hi.arithmetic hop
  have hpointer : m.bitness.pointerBytes ≤ n := by
    obtain h | h := h
    · exact (source_of_based h).2 n hfirst
    · exact (source_of_based h).2 n hsecond
  exact source_of_isOfSize (Nat.le_antisymm hn hpointer ▸ hsecond)

theorem accounts_add (hi : i.IsSized m.bitness) (op : i.operation = .add) (hp : p.IsWithin m.bitness)
    (h : ((m.step i).valueAt p).based = true) : m.Accounts i p := by
  refine accounts_assign hp h (v := (m.fetch i.first).add (m.fetch i.second)) (by simp only [step, op, combine])
    (by simp only [Writes, op, imp_self]) fun hplace hmark => ?_
  have hone : (m.fetch i.first).based = true ∧ (m.fetch i.second).based = false ∨
      (m.fetch i.first).based = false ∧ (m.fetch i.second).based = true := by
    revert hmark
    simp only [Value.add]
    cases (m.fetch i.first).based <;> cases (m.fetch i.second).based <;> simp
  obtain ⟨t, ht⟩ := sources_of_based hi (by rw [op]; rfl) (hone.imp And.left And.right)
  obtain ⟨hfirst, hx⟩ := fetch_source (place?_eq_some.1 hplace)
  obtain ⟨hsecond, hy⟩ := fetch_source ht
  rw [hfirst, hsecond] at hone
  refine .inl (carries_two (.add op hplace ht) ?_ (hone.imp id fun h => ⟨h.1, h.2, rfl⟩))
  rw [UInt64.one_mul]
  exact hx.add hy

theorem add_neg_one_mul (x y : UInt64) : x + -1 * y = x - y := by
  rw [UInt64.neg_mul, UInt64.one_mul, UInt64.sub_eq_add_neg]

theorem accounts_sub (hi : i.IsSized m.bitness) (op : i.operation = .sub) (hp : p.IsWithin m.bitness)
    (h : ((m.step i).valueAt p).based = true) : m.Accounts i p := by
  have hwrites : m.Writes i p → m.Touches i.first p := by simp only [Writes, op, imp_self]
  cases hself : i.isOnItself with
  | true =>
    exact accounts_assign hp h (v := .plain 0) (by simp only [step, op, hself, if_true]) hwrites fun _ => nofun
  | false =>
    refine accounts_assign hp h (v := (m.fetch i.first).sub (m.fetch i.second))
      (by simp only [step, op, hself, Bool.false_eq_true, if_false, combine]) hwrites fun hplace hmark => ?_
    simp only [Value.sub, Bool.and_eq_true, Bool.not_eq_true'] at hmark
    obtain ⟨t, ht⟩ := sources_of_based hi (by rw [op]; rfl) (.inl hmark.1)
    obtain ⟨hfirst, hx⟩ := fetch_source (place?_eq_some.1 hplace)
    obtain ⟨hsecond, hy⟩ := fetch_source ht
    rw [hfirst, hsecond] at hmark
    refine .inl (carries_two (.sub op hplace ht) ?_ (.inl hmark))
    rw [add_neg_one_mul]
    exact hx.sub hy

theorem accounts_inc (op : i.operation = .inc) (hp : p.IsWithin m.bitness)
    (h : ((m.step i).valueAt p).based = true) : m.Accounts i p := by
  refine accounts_assign hp h (v := ⟨(m.fetch i.first).bits + 1, (m.fetch i.first).based⟩)
    (by simp only [step, op, change]) (by simp only [Writes, op, imp_self]) fun hplace hmark => ?_
  obtain ⟨hfirst, hx⟩ := fetch_source (place?_eq_some.1 hplace)
  exact .inl (carries_two (.inc op hplace) (hx.add (.refl _ 1)) (.inl ⟨hfirst ▸ hmark, rfl⟩))

theorem accounts_dec (op : i.operation = .dec) (hp : p.IsWithin m.bitness)
    (h : ((m.step i).valueAt p).based = true) : m.Accounts i p := by
  refine accounts_assign hp h (v := ⟨(m.fetch i.first).bits - 1, (m.fetch i.first).based⟩)
    (by simp only [step, op, change]) (by simp only [Writes, op, imp_self]) fun hplace hmark => ?_
  obtain ⟨hfirst, hx⟩ := fetch_source (place?_eq_some.1 hplace)
  refine .inl (carries_two (.dec op hplace) ?_ (.inl ⟨hfirst ▸ hmark, rfl⟩))
  rw [add_neg_one_mul]
  exact hx.sub (.refl _ 1)

/-- If one of the registers of a reference is marked, then both names are of full width. -/
theorem sources_of_reference {r : MemoryOperand} (hi : i.IsSized m.bitness) (hr : i.second = .memory r)
    (h : (m.registers.read r.base).based = true ∨ (m.registers.read r.index).based = true) :
    ∃ s t, r.base.source? m.bitness = some s ∧ r.index.source? m.bitness = some t := by
  obtain ⟨n, hbase, hindex⟩ := hi.memory hr
  have hn : m.bitness.pointerBytes ≤ n := by
    obtain h | h := h
    · exact (source_of_based (o := .register r.base) h).2 n hbase
    · exact (source_of_based (o := .register r.index) h).2 n hindex
  obtain ⟨s, hs⟩ := register_source hbase hn
  obtain ⟨t, ht⟩ := register_source hindex hn
  exact ⟨s, t, hs, ht⟩

/-- A marked address is a sum with one marked summand, or a multiple was added to it. -/
theorem address_based {r : MemoryOperand} (hi : i.IsSized m.bitness) (op : i.operation = .lea)
    (hr : i.second = .memory r) (hplace : m.place? i.first = some p)
    (hmark : (m.registers.address r).based = true) :
    m.Carries i p (m.registers.address r).bits ∨ m.AddsMultiple i p := by
  have haddress : m.registers.address r = (((Value.plain r.displacement).add (m.registers.read r.base)).add
      (m.registers.scaled r.index r.scale)).mask m.bitness.addressMask := by
    unfold RegisterFile.address at hmark ⊢
    split at hmark
    · cases hmark
    · rfl
  rw [haddress] at hmark ⊢
  have hone : (m.registers.read r.base).based ≠ ((m.registers.read r.index).based && r.scale == 1) := by
    simpa [Value.add, RegisterFile.scaled] using hmark
  by_cases hboth : r.scale ≠ 1 ∧ (m.registers.read r.base).based = true ∧ (m.registers.read r.index).based = true
  · exact .inr ⟨op, hplace, r, hr, hboth⟩
  have hsome : (m.registers.read r.base).based = true ∨ (m.registers.read r.index).based = true := by
    revert hone
    cases (m.registers.read r.base).based <;> cases (m.registers.read r.index).based <;> simp
  obtain ⟨s, t, hs, ht⟩ := sources_of_reference hi hr hsome
  obtain ⟨hsmark, hsbits⟩ := fetch_source (m := m) (o := .register r.base) hs
  obtain ⟨htmark, htbits⟩ := fetch_source (m := m) (o := .register r.index) ht
  simp only [fetch] at hsmark htmark hsbits htbits
  refine .inl ⟨_, .lea op hplace hr hs ht, ?_, ?_⟩
  · have hsum := ((Bitness.Same.refl m.bitness r.displacement).add hsbits).add (htbits.mul (.refl _ r.scale))
    have htotal : m.total [⟨1, .constant r.displacement⟩, ⟨1, s⟩, ⟨r.scale, t⟩] =
        r.displacement + (m.valueOf s).bits + (m.valueOf t).bits * r.scale := by
      simp [total, valueOf, UInt64.add_assoc, UInt64.mul_comm]
    rw [htotal]
    exact (Bitness.same_and_mask _ _).trans hsum
  · rw [hsmark, htmark] at hone hboth
    rw [marks_constant]
    revert hone hboth
    cases hsb : (m.valueOf s).based <;> cases htb : (m.valueOf t).based <;> simp [marks, hsb, htb]

theorem accounts_lea (hi : i.IsSized m.bitness) (op : i.operation = .lea) (hp : p.IsWithin m.bitness)
    (h : ((m.step i).valueAt p).based = true) : m.Accounts i p := by
  by_cases hr : ∃ r, i.second = .memory r
  · obtain ⟨r, hr⟩ := hr
    refine accounts_assign hp h (v := m.registers.address r) (by simp only [step, op, hr]) ?_ (address_based hi op hr)
    simp only [Writes, op]
    exact And.right
  · refine .inl ⟨?_, ?_⟩
    · simp only [Writes, op, hr, false_and, not_false_iff]
    · have hstep : m.step i = m := by
        unfold step
        rw [op]
        dsimp only
        split
        · next r hr' => exact absurd ⟨r, hr'⟩ hr
        · rfl
      rw [hstep]

theorem accounts_push (op : i.operation = .push) (hp : p.IsWithin m.bitness)
    (h : ((m.step i).valueAt p).based = true) : m.Accounts i p := by
  have hmoved : Keeps m (m.pushed i) fun p => p = .register .sp := .setStackTop m _
  have hstep : m.step i = (m.pushed i).store (m.pushed i).stackTop i.stackBytes (m.fetch i.first) := by
    simp only [step, op]
    rfl
  have hmode := hmoved.mode
  unfold Accounts Transfers
  rw [hstep] at h ⊢
  cases p with
  | register g =>
    obtain ⟨hsp, hkeep⟩ := hmoved.marked hp h
    refine .inl ⟨?_, hkeep⟩
    simp only [Writes, op]
    rintro (hw | ⟨a, ha, -⟩)
    · exact hsp hw
    · cases ha
  | slot x =>
    obtain ⟨hmeets, hsame⟩ | ⟨hmark, hsize, rfl⟩ := store_based (m := m.pushed i) (hmode ▸ hp) h
    · simp only [valueAt, bitness_store] at h hsame ⊢
      rw [hsame] at h ⊢
      obtain ⟨hsp, hkeep⟩ := hmoved.marked hp h
      refine .inl ⟨?_, hkeep⟩
      simp only [Writes, op]
      rintro (hw | ⟨a, ha, hw⟩)
      · cases hw
      · cases ha
        rw [← hmode, hmeets] at hw
        cases hw
    · obtain ⟨⟨q, hs⟩, -⟩ := source_of_based hmark
      have hself := load_store_self (m := m.pushed i) (v := m.fetch i.first)
        (Bitness.same_and_mask (m.pushed i).bitness (m.pushed i).stackTop)
      rw [hmode] at hsize hself
      obtain ⟨ts, hsum, htotal, hmarks⟩ := carries_fetch hs hmark (.push op hsize hs)
      refine .inr (.inl ⟨ts, ?_, ?_, hmarks⟩)
      · rw [hmode]
        exact hsum
      · simp only [valueAt, bitness_store, hmode, hsize]
        exact hself.1.trans htotal

theorem accounts_pop (op : i.operation = .pop) (hp : p.IsWithin m.bitness)
    (h : ((m.step i).valueAt p).based = true) : m.Accounts i p := by
  have hmoved : Keeps m (m.popped i) fun p => p = .register .sp := .setStackTop m _
  have hstep : m.step i = (m.popped i).assign i.first (m.load m.stackTop i.stackBytes) := by
    simp only [step, op]
    rfl
  have hmode := hmoved.mode
  unfold Accounts Transfers
  rw [hstep] at h ⊢
  obtain ⟨htouches, hsame⟩ | ⟨hplace, hmark⟩ := assign_based (hmode ▸ hp) h
  · rw [hsame] at h ⊢
    obtain ⟨hsp, hkeep⟩ := hmoved.marked hp h
    refine .inl ⟨?_, hkeep⟩
    simp only [Writes, op]
    exact fun hw => hw.elim hsp htouches
  · have hsize : i.stackBytes = m.bitness.pointerBytes := by
      simp only [load, Memory.load, Bool.and_eq_true, beq_iff_eq] at hmark
      exact hmark.1
    have hsource : m.valueOf (.place (m.slotAt m.stackTop)) = m.load m.stackTop i.stackBytes := by
      rw [hsize]
      exact load_congr (Bitness.same_and_mask _ _) _
    refine .inr (.inl ⟨_, .pop op hsize hplace, ?_, ?_⟩)
    · rw [total_one, hsource, ← hmode]
      exact (assign_place hplace).2
    · simp [marks, hsource, hmark]

theorem accounts_xchg (op : i.operation = .xchg) (hp : p.IsWithin m.bitness)
    (h : ((m.step i).valueAt p).based = true) : m.Accounts i p := by
  generalize hm' : m.assign i.first (m.fetch i.second) = m'
  have hmode : m'.bitness = m.bitness := by rw [← hm', bitness_assign]
  have hstep : m.step i = m'.assign i.second (m.fetch i.first) := by
    simp only [step, op, exchange, hm']
  unfold Accounts Transfers
  rw [hstep] at h ⊢
  obtain ⟨hsecond, hsame⟩ | ⟨hplace, hmark⟩ := assign_based (hmode ▸ hp) h
  · rw [hsame] at h ⊢
    rw [← hm'] at h ⊢
    obtain ⟨hfirst, hkeep⟩ | ⟨hplace, hmark⟩ := assign_based hp h
    · refine .inl ⟨?_, hkeep⟩
      simp only [Writes, op, hm']
      exact fun hw => hw.elim hfirst hsecond
    · obtain ⟨⟨q, hs⟩, -⟩ := source_of_based hmark
      obtain ⟨ts, hsum, htotal, hmarks⟩ := carries_fetch hs hmark (.exchangeFirst op hplace hs)
      exact .inr (.inl ⟨ts, hsum, (assign_place hplace).2.trans htotal, hmarks⟩)
  · obtain ⟨⟨q, hs⟩, -⟩ := source_of_based hmark
    obtain ⟨ts, hsum, htotal, hmarks⟩ := carries_fetch hs hmark (.exchangeSecond op (hm' ▸ hplace) hs)
    refine .inr (.inl ⟨ts, hsum, ?_, hmarks⟩)
    rw [← hmode]
    exact (assign_place hplace).2.trans (hmode ▸ htotal)

/-! ## The law of a decoded instruction -/

/-- **One instruction:** every place that is marked afterwards is accounted for. -/
theorem accounts_step (hi : i.IsSized m.bitness) (hp : p.IsWithin m.bitness)
    (h : ((m.step i).valueAt p).based = true) : m.Accounts i p := by
  cases hop : i.operation with
  | mov => exact accounts_mov hop hp h
  | lea => exact accounts_lea hi hop hp h
  | add => exact accounts_add hi hop hp h
  | sub => exact accounts_sub hi hop hp h
  | inc => exact accounts_inc hop hp h
  | dec => exact accounts_dec hop hp h
  | push => exact accounts_push hop hp h
  | pop => exact accounts_pop hop hp h
  | xchg => exact accounts_xchg hop hp h
  | _ => exact .inl ((keeps_step m (by rw [hop]; rfl)).marked hp h)

/-- A multiple that is added to a marked base leaves a mark for two marked summands. -/
theorem not_lawful_of_addsMultiple (h : m.AddsMultiple i p) : ¬ m.Lawful i := by
  obtain ⟨op, hplace, r, hr, hscale, hbase, hindex⟩ := h
  have hstep : m.step i = m.assign i.first (m.registers.address r) := by simp only [step, op, hr]
  have hmark : (m.registers.address r).based = true := by
    unfold RegisterFile.address
    split
    · next w hb =>
      rw [hb] at hbase
      cases hbase
    · simp [Value.add, RegisterFile.scaled, hbase, hscale]
  intro lawful
  have hafter : ((m.step i).valueAt p).based = true := by
    rw [hstep, (assign_place hplace).1, hmark]
  have hwrites : m.Writes i p := by
    simp only [Writes, op]
    exact ⟨⟨r, hr⟩, touches_place hplace⟩
  obtain ⟨ts, hsum, -, hmarks⟩ := lawful p (within_place hplace) hafter (.inl hwrites)
  cases hsum with
  | lea _ _ hr' hs ht =>
    rw [hr] at hr'
    cases hr'
    have hsmark := (fetch_source (m := m) (o := .register r.base) hs).1
    have htmark := (fetch_source (m := m) (o := .register r.index) ht).1
    simp only [fetch, hbase, hindex] at hsmark htmark
    rw [marks_constant] at hmarks
    simp [marks, ← hsmark, ← htmark] at hmarks
  | _ => simp_all

/-- **How marks travel:** a decoded instruction keeps to the law unless it adds a multiple of a marked index to a
marked base, which only `lea` can do. -/
theorem lawful_iff (m : Machine) (ip : UInt64) (bytes : List UInt8) :
    let i := Encoding.decode m.bitness ip bytes
    m.Lawful i ↔ ∀ p, ¬ m.AddsMultiple i p := by
  intro i
  constructor
  · intro lawful p h
    exact not_lawful_of_addsMultiple h lawful
  · intro none p hp h hchanged
    obtain ⟨hkept, hsame⟩ | htransfers | hmultiple := accounts_step (Encoding.decode_isSized _ ip bytes) hp h
    · exact (hchanged.elim hkept (· hsame)).elim
    · exact htransfers
    · exact absurd hmultiple (none p)

/-- The law is broken by `lea ecx, [ecx+ecx*2]` right after the base was injected: three times the base is marked. -/
theorem not_lawful_tripled :
    ¬ ∀ (s : Resolver) (register : SharedRegister) (path : List Instruction) (ip : UInt64) (bytes : List UInt8),
      let m := path.foldl step (s.machineAt (register.within s.image.bitness))
      m.Lawful (Encoding.decode m.bitness ip bytes) := by
  intro lawful
  refine not_lawful_of_addsMultiple (p := .register .cx) ?_
    (lawful ⟨.ofBytes 0x10000 .x86 #[], fun _ => none, {}⟩ .cx [] 0x10000 [0x8d, 0x0c, 0x49])
  exact ⟨by decide +kernel, by decide +kernel, ⟨.segment .ds, .gpr .cx .dword, .gpr .cx .dword, 2, 0, 0⟩,
    by decide +kernel, by decide, by decide +kernel, by decide +kernel⟩

end Machine

end KernelOffsets
