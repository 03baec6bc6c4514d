/-
A lineage tells the truth about every replay. `Origin.Covers` says what it
means for a value to have an origin under a base, `Lineage.Describes` that
all registers, marks, bytes and spilled pointers of a machine are as a lineage
says. Every rule of the machine keeps this (`Lineage.Describes.step`), so it
holds after any path (`Lineage.Describes.run`), whatever the base is.
-/
import KernelOffsets.Proofs.Lineage
import KernelOffsets.Proofs.Spill

namespace KernelOffsets

/-! ## Values and their origins -/

/-- Whether a value is what its origin says, if `s` is the base. Words count modulo the address space. -/
def Origin.Covers (b : Bitness) (s : UInt64) : Origin → Value → Prop
  | .base k, v => v.based = true ∧ b.Same v.bits (s + k)
  | .perhaps k, v => v.based = true → b.Same v.bits (s + k)
  | .constant c, v => v.based = false ∧ b.Same v.bits c
  | .mixed, _ => True

namespace Origin.Covers

variable {b : Bitness} {s : UInt64} {o p : Origin} {v w : Value}

theorem plain (b : Bitness) (s x : UInt64) : (Origin.constant x).Covers b s (.plain x) :=
  ⟨rfl, .refl b x⟩

theorem onBase (b : Bitness) (s : UInt64) : (Origin.base 0).Covers b s (.onBase s) :=
  ⟨rfl, by rw [UInt64.add_zero]; exact .refl b s⟩

/-- Only the word modulo the address space and the mark matter. -/
theorem congr (h : o.Covers b s v) (hb : b.Same w.bits v.bits) (hf : w.based = v.based) : o.Covers b s w := by
  cases o with
  | base k => exact ⟨hf.trans h.1, hb.trans h.2⟩
  | perhaps k => exact fun hw => hb.trans (h (hf ▸ hw))
  | constant c => exact ⟨hf.trans h.1, hb.trans h.2⟩
  | mixed => trivial

theorem mask_address (h : o.Covers b s v) : o.Covers b s (v.mask b.addressMask) :=
  h.congr (Bitness.same_and_mask b v.bits) rfl

theorem add (h : o.Covers b s v) (h' : p.Covers b s w) : (o.add p).Covers b s (v.add w) := by
  have assoc : ∀ {x y k c : UInt64}, b.Same x (s + k) → b.Same y c → b.Same (x + y) (s + (k + c)) := by
    intro x y k c hx hy
    rw [← UInt64.add_assoc]
    exact hx.add hy
  have comm : ∀ {x y k c : UInt64}, b.Same x c → b.Same y (s + k) → b.Same (x + y) (s + (k + c)) := by
    intro x y k c hx hy
    rw [UInt64.add_comm x y]
    exact assoc hy hx
  cases o <;> cases p <;> try exact trivial
  case constant.constant => exact ⟨by simp [Value.add, h.1, h'.1], h.2.add h'.2⟩
  case base.constant => exact ⟨by simp [Value.add, h.1, h'.1], assoc h.2 h'.2⟩
  case constant.base => exact ⟨by simp [Value.add, h.1, h'.1], comm h.2 h'.2⟩
  case perhaps.constant =>
    intro hv
    exact assoc (h (by simpa [Value.add, h'.1] using hv)) h'.2
  case constant.perhaps =>
    intro hv
    exact comm h.2 (h' (by simpa [Value.add, h.1] using hv))

theorem sub (h : o.Covers b s v) (h' : p.Covers b s w) : (o.sub p).Covers b s (v.sub w) := by
  have assoc : ∀ {x y k c : UInt64}, b.Same x (s + k) → b.Same y c → b.Same (x - y) (s + (k - c)) := by
    intro x y k c hx hy
    have regroup : s + (k - c) = s + k - c := by grind
    rw [regroup]
    exact hx.sub hy
  cases o <;> cases p <;> try exact trivial
  case constant.constant => exact ⟨by simp [Value.sub, h.1], h.2.sub h'.2⟩
  case base.constant => exact ⟨by simp [Value.sub, h.1, h'.1], assoc h.2 h'.2⟩
  case perhaps.constant =>
    intro hv
    exact assoc (h (by simpa [Value.sub, h'.1] using hv)) h'.2
  case base.base k l =>
    refine ⟨by simp [Value.sub, h'.1], ?_⟩
    have cancel : s + k - (s + l) = k - l := by grind
    exact cancel ▸ h.2.sub h'.2

theorem map {f : UInt64 → UInt64} (h : o.Covers b s v) (hf : ∀ {x y}, b.Same x y → b.Same (f x) (f y)) :
    (o.map f).Covers b s (.plain (f v.bits)) := by
  cases o with
  | constant c => exact ⟨rfl, hf h.2⟩
  | _ => trivial

theorem map₂ {f : UInt64 → UInt64 → UInt64} (h : o.Covers b s v) (h' : p.Covers b s w)
    (hf : ∀ {x y x' y'}, b.Same x y → b.Same x' y' → b.Same (f x x') (f y y')) :
    (Origin.map₂ f o p).Covers b s (.plain (f v.bits w.bits)) := by
  cases o <;> cases p <;> try exact trivial
  exact ⟨rfl, hf h.2 h'.2⟩

theorem atWidth (h : o.Covers b s v) (w : Width) :
    (o.atWidth b w).Covers b s ⟨v.bits &&& w.mask, v.based && decide (b.pointerBytes ≤ w.bytes)⟩ := by
  by_cases hw : b.pointerBytes ≤ w.bytes
  · have hv : o.Covers b s ⟨v.bits &&& w.mask, v.based && decide (b.pointerBytes ≤ w.bytes)⟩ :=
      h.congr (Bitness.same_and_width hw v.bits) (by simp [hw])
    cases o with
    | constant c => exact ⟨hv.1, h.2.and (.refl b _)⟩
    | _ => simpa only [Origin.atWidth, if_pos hw] using hv
  · cases o with
    | constant c => exact ⟨by simp [h.1], h.2.and (.refl b _)⟩
    | _ => simp only [Origin.atWidth, if_neg hw]; trivial

theorem merge (ho : o.Covers b s v) (hp : p.Covers b s w) (width : Width) :
    (Origin.merge b width o p).Covers b s (RegisterFile.merge b width v w) := by
  cases width with
  | byte | word => exact ho.map₂ hp fun hx hy => (hx.and (.refl _ _)).or (hy.and (.refl _ _))
  | dword | qword => exact hp.atWidth _

/-- A constant is read back from its bytes. -/
theorem byte? (h : o.Covers b s v) {i : Nat} {y : UInt8} (hy : o.byte? b i = some y) :
    Memory.wordByte v.bits i = y := by
  cases o with
  | constant c =>
    simp only [Origin.byte?, Option.ite_none_right_eq_some, Option.some.injEq] at hy
    obtain ⟨hi, rfl⟩ := hy
    rcases hi with hi | hi
    · exact Memory.same_iff_wordByte.1 h.2 i hi
    · simp only [Memory.wordByte, if_neg (Nat.not_lt.2 hi)]
  | _ => cases hy

theorem weaken (h : o.Covers b s v) (hb : w.based = true → v = w) : o.weaken.Covers b s w := by
  cases o with
  | base k => exact fun hw => hb hw ▸ h.2
  | perhaps k => exact fun hw => hb hw ▸ h (hb hw ▸ hw)
  | _ => trivial

theorem isConstant_of_based (h : o.Covers b s v) (hb : v.based = true) : o.isConstant = false := by
  cases o with
  | constant c => rw [h.1] at hb; cases hb
  | _ => rfl

end Origin.Covers

/-- Only a few bits of a shift count matter. -/
theorem Bitness.Same.shiftCount_eq {b : Bitness} {x y : UInt64} (h : b.Same x y) {n : Nat} :
    Machine.shiftCount n x = Machine.shiftCount n y := by
  unfold Machine.shiftCount
  split
  · exact h.and_eq (by cases b <;> rfl)
  · exact h.and_eq (by cases b <;> rfl)

/-! ## Machines and their lineage -/

namespace Lineage

/-- Whether a machine is what a lineage says, if `s` is the base. -/
structure Describes (σ : Lineage) (s : UInt64) (m : Machine) : Prop where
  mode : m.bitness = σ.bitness
  registers : ∀ g, (σ.registers g).Covers σ.bitness s (m.registers.value g)
  written : ∀ g, m.registers.hasWritten g = σ.written g
  bytes : ∀ {x y}, x &&& σ.bitness.addressMask = x → σ.bytes x = some y →
    m.memory.byteAt m.background x = y
  /-- Where nothing may be spilled, nothing is. -/
  vacant : ∀ {x}, x &&& σ.bitness.addressMask = x → σ.slots x = none → m.memory.slots.contains x = false
  spilled : ∀ {x o}, x &&& σ.bitness.addressMask = x → σ.slots x = some o →
    o.Covers σ.bitness s (m.load x σ.bitness.pointerBytes)

namespace Describes

variable {σ : Lineage} {s : UInt64} {m : Machine}

/-! ### Registers -/

/-- The registers do not matter to the memory. -/
theorem of_registers {τ : Lineage} {f : RegisterFile} (h : σ.Describes s m) (hmode : f.bitness = σ.bitness)
    (hτ : τ.bitness = σ.bitness ∧ τ.bytes = σ.bytes ∧ τ.slots = σ.slots)
    (hregisters : ∀ g, (τ.registers g).Covers σ.bitness s (f.value g))
    (hwritten : ∀ g, f.hasWritten g = τ.written g) : τ.Describes s { m with registers := f } := by
  obtain ⟨hb, hbytes, hslots⟩ := hτ
  have hm : Machine.bitness { m with registers := f } = m.bitness := hmode.trans h.mode.symm
  refine ⟨hm.trans (h.mode.trans hb.symm), hb ▸ hregisters, hwritten, ?_, ?_, ?_⟩
  · rw [hb, hbytes]; exact h.bytes
  · rw [hb, hslots]; exact h.vacant
  · rw [hb, hslots]
    intro x o hx ho
    have hload := h.spilled hx ho
    simp only [Machine.load, hm] at hload ⊢
    exact hload

theorem put (h : σ.Describes s m) (g : Gpr) {o : Origin} {v : Value} (hv : o.Covers σ.bitness s v) :
    (σ.put g o).Describes s { m with registers := m.registers.put g v } := by
  refine h.of_registers h.mode ⟨rfl, rfl, rfl⟩ ?_ ?_
  · intro k
    rw [RegisterFile.value_put]
    simp only [Lineage.put]
    split
    · exact hv
    · exact h.registers k
  · intro k
    rw [RegisterFile.hasWritten_put, h.written]
    rfl

theorem read (h : σ.Describes s m) (r : Register) : (σ.read r).Covers σ.bitness s (m.registers.read r) := by
  have hmode : m.registers.bitness = σ.bitness := h.mode
  cases r with
  | gpr g w =>
    simp only [Lineage.read, RegisterFile.read, hmode]
    exact (h.registers g).atWidth w
  | highByte k =>
    refine (h.registers k.owner).map fun hxy => ?_
    rw [hxy.highByte_eq]
    exact .refl _ _
  | _ => exact .plain _ s 0

theorem write (h : σ.Describes s m) (r : Register) {o : Origin} {v : Value} (hv : o.Covers σ.bitness s v) :
    (σ.write r o).Describes s (m.writeRegister r v) := by
  have hmode : m.registers.bitness = σ.bitness := h.mode
  cases r with
  | gpr g w =>
    simp only [Lineage.write, Machine.writeRegister, RegisterFile.write, hmode]
    exact h.put g ((h.registers g).merge hv w)
  | highByte k =>
    exact h.put k.owner ((h.registers k.owner).map₂ hv fun hx hy =>
      (hx.and (.refl _ _)).or ((hy.and (.refl _ _)).shiftLeft 8))
  | _ => exact h

theorem clobber (h : σ.Describes s m) (r : Register) : (σ.clobber r).Describes s (m.clobber r) :=
  h.write r (.plain _ s 0)

theorem clobberAll (h : σ.Describes s m) (rs : List Register) :
    (rs.foldl Lineage.clobber σ).Describes s (rs.foldl Machine.clobber m) := by
  induction rs generalizing σ m with
  | nil => exact h
  | cons r rs ih => exact ih (h.clobber r)

/-! ### Addresses -/

theorem scaled (h : σ.Describes s m) (r : Register) (scale : UInt64) :
    (σ.scaled r scale).Covers σ.bitness s (m.registers.scaled r scale) := by
  have hr := h.read r
  simp only [Lineage.scaled]
  split
  · next hs =>
    subst hs
    exact hr.congr (by simp only [RegisterFile.scaled, UInt64.mul_one]; exact .refl _ _)
      (by simp [RegisterFile.scaled])
  · next hs =>
    exact (hr.map (f := (· * scale)) fun hxy => hxy.mul (.refl _ _)).congr (.refl _ _)
      (by simp [RegisterFile.scaled, hs])

theorem address (h : σ.Describes s m) (o : MemoryOperand) :
    (σ.address o).Covers σ.bitness s (m.registers.address o) := by
  have hmode : m.registers.bitness = σ.bitness := h.mode
  have sum := (((Origin.Covers.plain σ.bitness s o.displacement).add (h.read o.base)).add
    (h.scaled o.index o.scale)).mask_address
  cases hb : o.base with
  | instructionPointer w =>
    simp only [Lineage.address, RegisterFile.address, hb, hmode]
    exact (Origin.Covers.plain σ.bitness s o.displacement).mask_address
  | _ =>
    simp only [Lineage.address, RegisterFile.address, hb, hmode]
    exact hb ▸ sum

theorem known? (h : σ.Describes s m) (r : Register) :
    (σ.known? r = none ∧ m.registers.known? r = none) ∨
    ∃ p v, σ.known? r = some p ∧ m.registers.known? r = some v.bits ∧ p.Covers σ.bitness s v := by
  cases r with
  | gpr g w => exact .inr ⟨_, _, rfl, rfl, h.read (.gpr g w)⟩
  | highByte k => exact .inr ⟨_, _, rfl, rfl, h.read (.highByte k)⟩
  | absent => exact .inr ⟨_, _, rfl, rfl, .plain _ s 0⟩
  | _ => exact .inl ⟨rfl, rfl⟩

theorem knownAddress? (h : σ.Describes s m) (o : MemoryOperand) :
    (σ.knownAddress? o = none ∧ m.registers.knownAddress? o = none) ∨
    ∃ p v, σ.knownAddress? o = some p ∧ m.registers.knownAddress? o = some v.bits ∧ p.Covers σ.bitness s v := by
  by_cases ht : o.segment.isThreadSegment = true
  · exact .inl (by simp [Lineage.knownAddress?, RegisterFile.knownAddress?, ht])
  have hmode : m.registers.bitness = σ.bitness := h.mode
  have sum : ∀ {p q : Origin} {v w : Value}, p.Covers σ.bitness s v → q.Covers σ.bitness s w →
      (((Origin.constant o.displacement).add p).add (q.map (· * o.scale))).Covers σ.bitness s
        ((((Value.plain o.displacement).add v).add (.plain (w.bits * o.scale))).mask σ.bitness.addressMask) :=
    fun hv hw => (((Origin.Covers.plain _ s _).add hv).add
      (hw.map (f := (· * o.scale)) fun hxy => hxy.mul (.refl _ _))).mask_address
  have base : (∃ w, o.base = .instructionPointer w) ∨ ∀ w, o.base ≠ .instructionPointer w := by
    cases o.base <;> simp
  rcases h.known? o.index with ⟨hi, hi'⟩ | ⟨q, w, hi, hi', hq⟩
  · refine .inl ⟨?_, ?_⟩
    · simp only [Lineage.knownAddress?, ht, hi]; cases o.base <;> rfl
    · simp only [RegisterFile.knownAddress?, ht, hi']; cases o.base <;> rfl
  · rcases base with ⟨w', hb⟩ | hb
    · refine .inr ⟨_, _, ?_, ?_, sum (.plain _ s 0) hq⟩
      · simp [Lineage.knownAddress?, ht, hi, hb]
      · simp [RegisterFile.knownAddress?, ht, hi', hb, hmode]
    · rcases h.known? o.base with ⟨hk, hk'⟩ | ⟨p, v, hk, hk', hp⟩
      · refine .inl ⟨?_, ?_⟩
        · simp [Lineage.knownAddress?, ht, hi, hk]
        · simp [RegisterFile.knownAddress?, ht, hi', hk']
      · refine .inr ⟨_, _, ?_, ?_, sum hp hq⟩
        · simp [Lineage.knownAddress?, ht, hi, hk]
        · simp [RegisterFile.knownAddress?, ht, hi', hk', hmode]

/-! ### Memory -/

theorem wordAt? (h : σ.Describes s m) : ∀ {n : Nat} {a x : UInt64}, σ.wordAt? a n = some x →
    m.memory.wordAt σ.bitness m.background a n = x
  | 0, a, x, hx => by cases hx; rfl
  | n + 1, a, x, hx => by
    simp only [Lineage.wordAt?] at hx
    split at hx
    · next low high hlow hhigh =>
      cases hx
      rw [Memory.wordAt, h.bytes (Bitness.same_and_mask _ a) hlow, h.wordAt? hhigh]
    · cases hx

theorem loadBytes (h : σ.Describes s m) {a : UInt64} {n : Nat} (hv : (m.load a n).based = false) :
    (σ.loadBytes a n).Covers σ.bitness s (m.load a n) := by
  simp only [Lineage.loadBytes]
  split
  · next x hx =>
    refine ⟨hv, ?_⟩
    rw [← h.wordAt? hx, ← h.mode]
    exact .refl _ _
  · trivial

theorem load (h : σ.Describes s m) {o : Origin} {a : Value} (ha : o.Covers σ.bitness s a) (n : Nat) :
    (σ.load o n).Covers σ.bitness s (m.load a.bits n) := by
  cases o with
  | constant c =>
    have hmode := h.mode
    have hc : m.load a.bits n = m.load c n := Machine.load_congr (hmode ▸ ha.2) n
    rw [hc]
    simp only [Lineage.load, Lineage.loadAt]
    split
    · next hn =>
      have hx := Bitness.same_and_mask σ.bitness c
      cases hslot : σ.slots (c &&& σ.bitness.addressMask) with
      | some p =>
        have hload := h.spilled hx hslot
        rw [← hn, Machine.load_congr (a := c &&& σ.bitness.addressMask) (x := c) (hmode ▸ hx)] at hload
        exact hload
      | none =>
        refine h.loadBytes ?_
        simp only [Machine.load, Memory.load, hmode, h.vacant hx hslot, Bool.and_false]
    · next hn =>
      refine h.loadBytes ?_
      simp only [Machine.load, Memory.load, hmode, beq_false_of_ne hn, Bool.false_and]
  | _ => trivial

/-- A store at a known address. -/
theorem storeAt (h : σ.Describes s m) {a c : UInt64} {n : Nat} {o : Origin} {v : Value} (ha : σ.bitness.Same a c)
    (hn : n ≤ σ.bitness.addresses) (hv : o.Covers σ.bitness s v) :
    (σ.storeAt c n o).Describes s (m.store a n v) := by
  have hmode := h.mode
  have hpast : ∀ x, σ.bitness.past a x = σ.bitness.past c x := fun x => ha.past_eq (.refl _ x)
  have hmeets : ∀ x, σ.bitness.meets a n x = σ.bitness.meets c n x := by
    intro x
    simp only [Bitness.meets, (ha.sub (.refl _ _)).past_eq (.refl _ x)]
  refine ⟨hmode, h.registers, h.written, ?_, ?_, ?_⟩
  · intro x y (hx : x &&& σ.bitness.addressMask = x) hy
    simp only [Machine.store, hmode]
    rw [Memory.byteAt_store hx hn, hpast]
    simp only [Lineage.storeAt] at hy
    split at hy
    · next hlt => rw [if_pos hlt]; exact hv.byte? hy
    · next hlt => rw [if_neg hlt]; exact h.bytes hx hy
  · intro x (hx : x &&& σ.bitness.addressMask = x) hslot
    simp only [Lineage.storeAt] at hslot
    simp only [Machine.store, hmode]
    rw [Memory.contains_store hx, hmeets, if_neg]
    · split at hslot
      · cases hslot
      · split at hslot
        · next hm => simp [hm]
        · simp [h.vacant hx hslot]
    · simp only [Bool.and_eq_true, beq_iff_eq]
      rintro ⟨⟨hb, hw⟩, hxa⟩
      rw [if_pos ⟨hw, hxa.trans ha, by simp [hv.isConstant_of_based hb]⟩] at hslot
      cases hslot
  · intro x p (hx : x &&& σ.bitness.addressMask = x) hslot
    simp only [Lineage.storeAt] at hslot
    split at hslot
    · next hcond =>
      obtain ⟨rfl, hxc, -⟩ := hcond
      cases hslot
      have hxa : σ.bitness.Same x a := (hx.trans hxc).trans ha.symm
      obtain ⟨hbits, hbased⟩ := Machine.load_store_self (m := m) (v := v) (hmode ▸ hxa)
      rw [hmode] at hbits hbased
      exact hv.congr hbits hbased
    · split at hslot
      · cases hslot
      · next hm =>
        have hkeep := Machine.load_store_of_not_meets (m := m) (a := a) (n := n) (v := v) (x := x) (hmode ▸ hx)
          (by rw [hmode, hmeets]; exact Bool.eq_false_iff.2 hm)
        rw [hmode] at hkeep
        simp only [Lineage.storeAt, hkeep]
        exact h.spilled hx hslot

/-- A store at an address of which nothing is known. -/
theorem scatter (h : σ.Describes s m) (a : UInt64) (n : Nat) {o : Origin} {v : Value}
    (hv : o.Covers σ.bitness s v) : (σ.scatter n o).Describes s (m.store a n v) := by
  have hmode := h.mode
  refine ⟨hmode, h.registers, h.written, ?_, ?_, ?_⟩
  · intro x y _ hy
    cases hy
  · intro x (hx : x &&& σ.bitness.addressMask = x) hslot
    simp only [Lineage.scatter] at hslot
    simp only [Machine.store, hmode]
    split at hslot
    · cases hslot
    · next hcond =>
      rw [Memory.contains_store hx, h.vacant hx (Option.map_eq_none_iff.1 hslot), if_neg]
      · rfl
      · simp only [Bool.and_eq_true, beq_iff_eq]
        rintro ⟨⟨hb, hw⟩, -⟩
        exact hcond ⟨hw, by simp [hv.isConstant_of_based hb]⟩
  · intro x p (hx : x &&& σ.bitness.addressMask = x) hslot
    simp only [Lineage.scatter] at hslot
    split at hslot
    · cases hslot; trivial
    · next hcond =>
      obtain ⟨q, hq, rfl⟩ := Option.map_eq_some_iff.1 hslot
      refine (h.spilled hx hq).weaken fun hb => ?_
      have hcut : (v.based && n == σ.bitness.pointerBytes) = false := by
        rw [← Bool.not_eq_true]
        simp only [Bool.and_eq_true, beq_iff_eq]
        rintro ⟨hvb, hw⟩
        exact hcond ⟨hw, by simp [hv.isConstant_of_based hvb]⟩
      have hkeep := Machine.load_store_of_based (m := m) (a := a) (n := n) (v := v) (x := x) (hmode ▸ hx)
        (hmode ▸ hcut)
      rw [hmode] at hkeep
      exact (hkeep hb).symm

theorem store (h : σ.Describes s m) {p o : Origin} {a v : Value} (n : Nat) (ha : p.Covers σ.bitness s a)
    (hv : o.Covers σ.bitness s v) : (σ.store p n o).Describes s (m.store a.bits n v) := by
  cases p with
  | constant c =>
    simp only [Lineage.store]
    split
    · next hn => exact h.storeAt ha.2 hn hv
    · exact h.scatter a.bits n hv
  | _ => exact h.scatter a.bits n hv

theorem forgetSpills (h : σ.Describes s m) :
    σ.forgetSpills.Describes s { m with memory := m.memory.forgetSpills } := by
  refine ⟨h.mode, h.registers, h.written, h.bytes, ?_, ?_⟩
  · intro x _ _
    exact Memory.contains_forgetSpills m.memory x
  · intro x o _ ho
    cases ho

/-! ### Operands -/

theorem fetch (h : σ.Describes s m) (o : Operand) : (σ.fetch o).Covers σ.bitness s (m.fetch o) := by
  cases o with
  | register r => exact h.read r
  | memory o => exact h.load (h.address o) o.size
  | immediate bits w => exact .plain _ s bits
  | _ => exact .plain _ s 0

theorem assign (h : σ.Describes s m) (d : Operand) {o : Origin} {v : Value} (hv : o.Covers σ.bitness s v) :
    (σ.assign d o).Describes s (m.assign d v) := by
  cases d with
  | register r => exact h.write r hv
  | memory a => exact h.store a.size (h.address a) hv
  | _ => exact h

theorem operandBytes (h : σ.Describes s m) (o : Operand) : m.operandBytes o = σ.operandBytes o := by
  cases o <;> simp only [Machine.operandBytes, Lineage.operandBytes, h.mode]

/-- A shift of a sort that respects the address space for operands that are no wider than it. -/
theorem shift (h : σ.Describes s m) (i : Instruction) {f : Nat → UInt64 → UInt64 → UInt64}
    (hf : ∀ {n x y x' y'}, n ∈ [1, 2, 4, σ.bitness.pointerBytes] →
      σ.bitness.Same x y → σ.bitness.Same x' y' → σ.bitness.Same (f n x x') (f n y y')) :
    (σ.shift i f).Covers σ.bitness s
      (.plain (f (m.operandBytes i.first) (m.fetch i.first).bits (m.fetch i.second).bits)) := by
  simp only [Lineage.shift, h.operandBytes]
  split
  · next hn => exact (h.fetch i.first).map₂ (h.fetch i.second) (hf hn)
  · trivial

theorem size_le_pointer {b : Bitness} {n : Nat} (hn : n ∈ [1, 2, 4, b.pointerBytes]) : n ≤ b.pointerBytes := by
  cases b <;> revert n <;> decide

/-! ### Instructions -/

theorem stackTop (h : σ.Describes s m) :
    σ.stackTop.Covers σ.bitness s (m.registers.read m.bitness.stackPointer) := by
  rw [h.mode]
  exact h.read _

theorem setStackTop (h : σ.Describes s m) {o : Origin} {x : UInt64} (hx : o.Covers σ.bitness s (.plain x)) :
    (σ.setStackTop o).Describes s (m.setStackTop x) := by
  have hw := h.write σ.bitness.stackPointer
    (hx.map (f := (· &&& σ.bitness.addressMask)) fun hxy => hxy.and (.refl _ _))
  rw [Lineage.setStackTop, Machine.setStackTop, h.mode]
  exact hw

theorem push (h : σ.Describes s m) (i : Instruction) : (σ.push i).Describes s (m.push i) := by
  have hset := h.setStackTop (h.stackTop.map (f := (· - i.stackBytes.toUInt64)) fun hxy => hxy.sub (.refl _ _))
  exact hset.store i.stackBytes hset.stackTop (by rw [bitness_setStackTop]; exact h.fetch i.first)

theorem pop (h : σ.Describes s m) (i : Instruction) : (σ.pop i).Describes s (m.pop i) := by
  have hset := h.setStackTop (h.stackTop.map (f := (· + i.stackBytes.toUInt64)) fun hxy => hxy.add (.refl _ _))
  exact hset.assign i.first (h.load h.stackTop i.stackBytes)

theorem exchange (h : σ.Describes s m) (i : Instruction) : (σ.exchange i).Describes s (m.exchange i) := by
  have hfirst := h.assign i.first (h.fetch i.second)
  exact hfirst.assign i.second (by rw [bitness_assign]; exact h.fetch i.first)

theorem storeUnknown (h : σ.Describes s m) {p : Option Origin} {a : Option UInt64} (n : Nat)
    (ha : (p = none ∧ a = none) ∨ ∃ o v, p = some o ∧ a = some v.bits ∧ o.Covers σ.bitness s v) :
    (σ.storeUnknown (p, n)).Describes s { m with memory := Machine.storeUnknown m.memory m.bitness (a, n) } := by
  obtain ⟨rfl, rfl⟩ | ⟨o, v, rfl, rfl, hv⟩ := ha
  · exact h.forgetSpills
  · cases n with
    | zero => exact h.forgetSpills
    | succ n => exact h.store (n + 1) hv (.plain _ s 0)

/-- The stores of an instruction, with addresses that were computed before the first of them. -/
theorem storeAll (h : σ.Describes s m) (stores : List MemoryOperand) :
    ∀ {τ : Lineage} {memory : Memory}, τ.Describes s { m with memory := memory } →
      ((stores.map fun o => (σ.knownAddress? o, o.size)).foldl Lineage.storeUnknown τ).Describes s
        { m with memory :=
            ((stores.map fun o => (m.registers.knownAddress? o, o.size)).foldl
              (Machine.storeUnknown · m.bitness) memory) } := by
  induction stores with
  | nil => exact id
  | cons o stores ih =>
    intro τ memory hτ
    have hmode : τ.bitness = σ.bitness := hτ.mode.symm.trans h.mode
    exact ih (hτ.storeUnknown o.size (hmode ▸ h.knownAddress? o))

theorem forget (h : σ.Describes s m) (i : Instruction) : (σ.forget i).Describes s (m.forget i) := by
  have hcleared : (if i.repeated then σ.forgetSpills else σ).Describes s
      { m with memory := if i.repeated then m.memory.forgetSpills else m.memory } := by
    cases i.repeated with
    | true => exact h.forgetSpills
    | false => exact h
  exact (h.storeAll i.stores hcleared).clobberAll i.changes

theorem stepOther (h : σ.Describes s m) (i : Instruction) : (σ.stepOther i).Describes s (m.stepOther i) := by
  have hcall := h.clobberAll σ.bitness.volatile
  have hforget := h.forget i
  simp only [Lineage.stepOther, Machine.stepOther, Machine.skipCall, h.mode]
  cases i.flow with
  | call | indirectCall => exact hcall
  | conditionalBranch | unconditionalBranch | indirectBranch => exact h
  | _ => exact hforget

/-- **One instruction:** the lineage follows the machine. -/
theorem step (h : σ.Describes s m) (i : Instruction) : (σ.step i).Describes s (m.step i) := by
  have ha := h.fetch i.first
  have hb := h.fetch i.second
  unfold Lineage.step Machine.step Machine.combine Machine.change
  cases i.operation with
  | mov => exact h.assign i.first hb
  | movzx => exact h.assign i.first (hb.map id)
  | movsx | movsxd =>
    simp only [h.operandBytes]
    exact h.assign i.first (hb.map fun hxy => hxy.signExtend _)
  | lea =>
    cases i.second with
    | memory o => exact h.assign i.first (h.address o)
    | _ => exact h
  | add => exact h.assign i.first (ha.add hb)
  | sub =>
    cases i.isOnItself with
    | true => exact h.assign i.first (.plain _ s 0)
    | false => exact h.assign i.first (ha.sub hb)
  | and => exact h.assign i.first (ha.map₂ hb fun hx hy => hx.and hy)
  | or => exact h.assign i.first (ha.map₂ hb fun hx hy => hx.or hy)
  | xor =>
    cases i.isOnItself with
    | true => exact h.assign i.first (.plain _ s 0)
    | false => exact h.assign i.first (ha.map₂ hb fun hx hy => hx.xor hy)
  | shl =>
    refine h.assign i.first (h.shift i fun _ hx hc => ?_)
    rw [hc.shiftCount_eq]
    exact hx.shiftLeft _
  | shr =>
    refine h.assign i.first (h.shift i fun hn hx hc => ?_)
    rw [hx.lowBytes_eq (size_le_pointer hn), hc.shiftCount_eq]
    exact .refl _ _
  | sar =>
    refine h.assign i.first (h.shift i fun hn hx hc => ?_)
    rw [hx.signExtend_eq hn, hc.shiftCount_eq]
    exact .refl _ _
  | inc =>
    exact h.assign i.first ((ha.add (.plain _ s 1)).congr (.refl _ _) (by simp [Value.add]))
  | dec =>
    exact h.assign i.first ((ha.sub (.plain _ s 1)).congr (.refl _ _) (by simp [Value.sub]))
  | neg => exact h.assign i.first (ha.map fun hxy => (Bitness.Same.refl _ 0).sub hxy)
  | not => exact h.assign i.first (ha.map fun hxy => hxy.not)
  | push => exact h.push i
  | pop => exact h.pop i
  | xchg => exact h.exchange i
  | nop | cmp | test | bt => exact h
  | invalid | unmodelled name => exact h.stepOther i

/-- **A path:** the lineage follows the machine. -/
theorem run (h : σ.Describes s m) (path : List Instruction) :
    (σ.run path).Describes s (path.foldl Machine.step m) := by
  induction path generalizing σ m with
  | nil => exact h
  | cons i path ih => exact ih (h.step i)

end Describes

end Lineage

end KernelOffsets
