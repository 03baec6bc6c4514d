/-
Pointers below the base. On a path of moves and displacements each copy of
the base has an integer distance from it (`Distances.after`). The machine
keeps that distance modulo the address space only, so a pointer `d` bytes
below the base looks like one that far below the end of the address space
above it. It is refused if the base lies at least `d` bytes above address
zero, and accepted with a wrapped distance otherwise
(`Resolver.emulatedOffset_belowBase`).
-/
import KernelOffsets.Proofs.ExactOffset

namespace KernelOffsets

/-! ## Integers as words -/

namespace Bitness

/-- A word as a signed number of the width of a pointer. -/
def signed (b : Bitness) (x : UInt64) : Int := Int.bmod x.toNat b.addresses

/-- An integer as a word keeps what it is modulo the address space. -/
theorem toNat_ofInt_emod (b : Bitness) (e : Int) :
    ((UInt64.ofInt e).toNat : Int) % b.addresses = e % b.addresses := by
  have hdvd : (b.addresses : Int) ∣ 2 ^ 64 := by cases b <;> decide
  have hword : ((UInt64.ofInt e).toNat : Int) = e % 2 ^ 64 := by
    rw [UInt64.ofInt, UInt64.toNat_ofNat']
    omega
  rw [hword, Int.emod_emod_of_dvd e hdvd]

theorem same_iff_emod {b : Bitness} {x y : UInt64} :
    b.Same x y ↔ (x.toNat : Int) % b.addresses = (y.toNat : Int) % b.addresses := by
  rw [same_iff_mod]
  omega

theorem same_ofInt_signed (b : Bitness) (x : UInt64) : b.Same x (UInt64.ofInt (b.signed x)) := by
  rw [same_iff_emod, toNat_ofInt_emod, signed, Int.bmod_emod]

end Bitness

/-! ## Moves -/

/-- The register that an operand is the whole of. -/
def Operand.whole? (b : Bitness) : Operand → Option Gpr
  | .register (.gpr g w) => if w = b.pointerWidth then some g else none
  | _ => none

/-- The destination of a move or displacement, the register it starts from, and how far it goes. -/
def Instruction.displacement? (b : Bitness) (i : Instruction) : Option (Gpr × Gpr × Int) := do
  let d ← i.first.whole? b
  match i.operation, i.second with
  | .mov, o => (o.whole? b).map fun r => (d, r, 0)
  | .lea, .memory o =>
    if o.index = .absent then ((Operand.register o.base).whole? b).map fun r => (d, r, b.signed o.displacement)
    else none
  | .add, .immediate x _ => some (d, d, b.signed x)
  | .sub, .immediate x _ => some (d, d, -b.signed x)
  | .inc, _ => some (d, d, 1)
  | .dec, _ => some (d, d, -1)
  | _, _ => none

/-- How far each register lies from the base, if it is a copy of the base that was moved on. -/
abbrev Distances := Gpr → Option Int

namespace Distances

/-- The base itself in one register. -/
def start (g : Gpr) : Distances := fun h => if h = g then some 0 else none

/-- The distances after an instruction; one that is no move or displacement leaves them alone. -/
def next (b : Bitness) (D : Distances) (i : Instruction) : Distances :=
  match i.displacement? b with
  | some (d, r, n) => fun h => if d = h then (D r).map (· + n) else D h
  | none => D

/-- The distances after a path. -/
def after (b : Bitness) (D : Distances) (path : List Instruction) : Distances := path.foldl (next b) D

end Distances

namespace Lineage

variable {σ : Lineage}

theorem whole?_eq_some {b : Bitness} {o : Operand} {g : Gpr} (h : o.whole? b = some g) :
    o = .register (b.wide g) := by
  cases o with
  | register r =>
    cases r with
    | gpr k w =>
      simp only [Operand.whole?, Option.ite_none_right_eq_some, Option.some.injEq] at h
      rw [h.1, h.2]
      rfl
    | _ => cases h
  | _ => cases h

theorem isWhole_wide (b : Bitness) (g : Gpr) : (Operand.register (b.wide g)).isWhole b = true := by
  simp [Operand.isWhole, Bitness.wide]

theorem read_wide (g : Gpr) :
    σ.read (σ.bitness.wide g) = (σ.registers g).atWidth σ.bitness σ.bitness.pointerWidth := rfl

theorem assign_wide (g : Gpr) (o : Origin) :
    σ.assign (.register (σ.bitness.wide g)) o = σ.put g (o.atWidth σ.bitness σ.bitness.pointerWidth) := by
  rw [← merge_pointerWidth]
  rfl

theorem base_atWidth (b : Bitness) (k : UInt64) : (Origin.base k).atWidth b b.pointerWidth = .base k := by
  simp [Origin.atWidth]

/-- A copy of the base is read as it is. -/
theorem read_of_base {g : Gpr} {k : UInt64} (h : σ.registers g = .base k) :
    σ.read (σ.bitness.wide g) = .base k := by
  rw [read_wide, h, base_atWidth]

theorem isVariable_wide (g : Gpr) : σ.isVariable (.register (σ.bitness.wide g)) = true := by
  simp [isVariable, isPlace, isSource, isWhole_wide]

theorem scaled_absent (scale : UInt64) : σ.scaled .absent scale = .constant 0 := by
  unfold scaled
  split
  · rfl
  · exact congrArg Origin.constant (UInt64.zero_mul)

/-- The address at a displacement from a whole register. -/
theorem address_wide {o : MemoryOperand} {r : Gpr} (hbase : o.base = σ.bitness.wide r) (hindex : o.index = .absent) :
    σ.address o = ((Origin.constant o.displacement).add
      ((σ.registers r).atWidth σ.bitness σ.bitness.pointerWidth)).add (.constant 0) := by
  rw [address, hbase, hindex, scaled_absent]
  rfl

/-- An instruction moves a copy of the base that is in `r` on by `n` into `d`. -/
structure Moves (σ : Lineage) (i : Instruction) (d r : Gpr) (n : Int) : Prop where
  admitted : σ.admits i = true
  /-- Only the destination changes, and how does not depend on anything but `r`. -/
  moved : ∃ o, σ.step i = σ.put d o ∧
    ∀ {k}, σ.registers r = .base k → ∃ k', o = .base k' ∧ σ.bitness.Same k' (k + UInt64.ofInt n)

theorem Moves.of_assign {i : Instruction} {d r : Gpr} {n : Int} {o : Origin} (hi : σ.admits i = true)
    (hstep : σ.step i = σ.assign (.register (σ.bitness.wide d)) o)
    (ho : ∀ {k}, σ.registers r = .base k → ∃ k', o = .base k' ∧ σ.bitness.Same k' (k + UInt64.ofInt n)) :
    σ.Moves i d r n := by
  refine ⟨hi, _, hstep.trans (assign_wide d o), fun hk => ?_⟩
  obtain ⟨k', rfl, hsame⟩ := ho hk
  exact ⟨k', base_atWidth _ k', hsame⟩

theorem Moves.of_add {i : Instruction} {d : Gpr} {n : Int} {x : UInt64} (hi : σ.admits i = true)
    (hstep : σ.step i = σ.assign (.register (σ.bitness.wide d)) ((σ.read (σ.bitness.wide d)).add (.constant x)))
    (hx : σ.bitness.Same x (UInt64.ofInt n)) : σ.Moves i d d n := by
  refine .of_assign hi hstep fun {k} hk => ⟨k + x, ?_, (Bitness.Same.refl _ k).add hx⟩
  rw [read_of_base hk]
  rfl

theorem Moves.of_sub {i : Instruction} {d : Gpr} {n : Int} {x : UInt64} (hi : σ.admits i = true)
    (hstep : σ.step i = σ.assign (.register (σ.bitness.wide d)) ((σ.read (σ.bitness.wide d)).sub (.constant x)))
    (hx : σ.bitness.Same x (UInt64.ofInt n)) : σ.Moves i d d (-n) := by
  refine .of_assign hi hstep fun {k} hk => ⟨k - x, ?_, ?_⟩
  · rw [read_of_base hk]
    rfl
  · rw [UInt64.ofInt_neg, ← UInt64.sub_eq_add_neg]
    exact (Bitness.Same.refl _ k).sub hx

theorem isOnItself_immediate {i : Instruction} {x : UInt64} {w : Width} (h : i.second = .immediate x w) :
    i.isOnItself = false := by
  unfold Instruction.second at h
  unfold Instruction.isOnItself
  split
  · next heq =>
    rw [heq] at h
    cases h
  · rfl

/-- **The displacement of an instruction** is what it does to a copy of the base. -/
theorem moves_of_displacement {i : Instruction} {d r : Gpr} {n : Int}
    (h : i.displacement? σ.bitness = some (d, r, n)) : σ.Moves i d r n := by
  simp only [Instruction.displacement?, Option.bind_eq_bind, Option.bind_eq_some_iff] at h
  obtain ⟨d', hd, h⟩ := h
  have hfirst := whole?_eq_some hd
  split at h
  · next hop =>
    obtain ⟨r', hr, heq⟩ := Option.map_eq_some_iff.1 h
    obtain ⟨rfl, rfl, rfl⟩ : d' = d ∧ r' = r ∧ 0 = n := by simpa using heq
    have hsecond := whole?_eq_some hr
    refine .of_assign (o := σ.read (σ.bitness.wide r')) ?_ ?_ fun {k} hk => ⟨k, read_of_base hk, ?_⟩
    · simp [admits, hop, hfirst, hsecond, isPlace, isSource, isWhole_wide]
    · simp only [step, hop, hfirst, hsecond, fetch]
    · rw [show UInt64.ofInt 0 = 0 from rfl, UInt64.add_zero]
      exact .refl _ k
  · next o hop hsecond =>
    obtain ⟨hindex, h⟩ := Option.ite_none_right_eq_some.1 h
    obtain ⟨r', hr, heq⟩ := Option.map_eq_some_iff.1 h
    obtain ⟨rfl, rfl, rfl⟩ : d' = d ∧ r' = r ∧ σ.bitness.signed o.displacement = n := by simpa using heq
    have hbase : o.base = σ.bitness.wide r' := Operand.register.inj (whole?_eq_some hr)
    refine .of_assign (o := σ.address o) ?_ ?_ fun {k} hk => ⟨k + o.displacement + 0, ?_, ?_⟩
    · simp [admits, hop, hfirst, hsecond, isWhole_wide, isDisplaced, hbase, hindex]
    · simp only [step, hop, hfirst, hsecond]
    · rw [address_wide hbase hindex, hk, base_atWidth]
      rfl
    · rw [UInt64.add_zero]
      exact (Bitness.Same.refl _ k).add (σ.bitness.same_ofInt_signed o.displacement)
  · next x w hop hsecond =>
    obtain ⟨rfl, rfl, rfl⟩ : d' = d ∧ d' = r ∧ σ.bitness.signed x = n := by simpa using h
    refine .of_add ?_ ?_ (σ.bitness.same_ofInt_signed x)
    · simp [admits, hop, hfirst, hsecond, isVariable_wide, isSource, Operand.isImmediate, fetch, Origin.isConstant]
    · simp only [step, hop, hfirst, hsecond, fetch]
  · next x w hop hsecond =>
    obtain ⟨rfl, rfl, rfl⟩ : d' = d ∧ d' = r ∧ -σ.bitness.signed x = n := by simpa using h
    refine .of_sub ?_ ?_ (σ.bitness.same_ofInt_signed x)
    · simp [admits, hop, hfirst, hsecond, isVariable_wide, isSource, Operand.isImmediate, fetch, Origin.isConstant]
    · simp [step, hop, hfirst, hsecond, fetch, isOnItself_immediate hsecond]
  · next hop =>
    obtain ⟨rfl, rfl, rfl⟩ : d' = d ∧ d' = r ∧ 1 = n := by simpa using h
    refine .of_add ?_ ?_ (.refl _ 1)
    · simp only [admits, hop, hfirst, isVariable_wide]
    · simp only [step, hop, hfirst, fetch]
  · next hop =>
    obtain ⟨rfl, rfl, rfl⟩ : d' = d ∧ d' = r ∧ -1 = n := by simpa using h
    refine .of_sub ?_ ?_ (.refl _ 1)
    · simp only [admits, hop, hfirst, isVariable_wide]
    · simp only [step, hop, hfirst, fetch]
  · cases h

/-- The distances of the copies of the base are what the lineage says, modulo the address space. -/
structure Tracks (σ : Lineage) (g : Gpr) (D : Distances) : Prop where
  copies : ∀ {h e}, D h = some e → ∃ k, σ.registers h = .base k ∧ σ.bitness.Same k (UInt64.ofInt e)
  /-- Until it is written, the register with the base holds the base itself. -/
  unwritten : σ.written g = false → D g = some 0

theorem tracks_initial (image : Image) (stackTop : UInt64) (g : Gpr) :
    (initial image stackTop g).Tracks g (.start g) := by
  refine ⟨?_, fun _ => by simp [Distances.start]⟩
  intro h e he
  obtain ⟨rfl, rfl⟩ : h = g ∧ 0 = e := by simpa [Distances.start] using he
  exact ⟨0, by simp [initial], .refl _ 0⟩

/-- **One move or displacement** moves the distances. -/
theorem Tracks.step {g : Gpr} {D : Distances} (h : σ.Tracks g D) {i : Instruction}
    (hi : (i.displacement? σ.bitness).isSome = true) : (σ.step i).Tracks g (D.next σ.bitness i) := by
  obtain ⟨⟨d, r, n⟩, hsome⟩ := Option.isSome_iff_exists.1 hi
  obtain ⟨o, hstep, ho⟩ := (moves_of_displacement hsome).moved
  have hnext : D.next σ.bitness i = fun h => if d = h then (D r).map (· + n) else D h := by
    simp only [Distances.next, hsome]
  rw [hnext, hstep]
  refine ⟨?_, ?_⟩
  · intro k e he
    simp only [put] at he ⊢
    by_cases hk : d = k
    · rw [if_pos hk] at he ⊢
      obtain ⟨e', he', rfl⟩ := Option.map_eq_some_iff.1 he
      obtain ⟨c, hc, hsame⟩ := h.copies he'
      obtain ⟨c', rfl, hsame'⟩ := ho hc
      refine ⟨c', rfl, hsame'.trans ?_⟩
      rw [UInt64.ofInt_add]
      exact hsame.add (.refl _ _)
    · rw [if_neg hk] at he ⊢
      exact h.copies he
  · intro hw
    simp only [put, Bool.or_eq_false_iff, decide_eq_false_iff_not] at hw
    rw [if_neg hw.1]
    exact h.unwritten hw.2

/-- **A path of moves and displacements** keeps the distances, and is admitted. -/
theorem Tracks.run {g : Gpr} {D : Distances} (h : σ.Tracks g D) {path : List Instruction}
    (hpath : ∀ i ∈ path, (i.displacement? σ.bitness).isSome = true) :
    (σ.run path).Tracks g (D.after σ.bitness path) ∧ σ.follows path = true := by
  induction path generalizing σ D with
  | nil => exact ⟨h, rfl⟩
  | cons i path ih =>
    have hi := hpath i List.mem_cons_self
    have hrest : ∀ j ∈ path, (j.displacement? (σ.step i).bitness).isSome = true := by
      intro j hj
      rw [bitness_step]
      exact hpath j (List.mem_cons_of_mem i hj)
    obtain ⟨hrun, hfollows⟩ := ih (h.step hi) hrest
    obtain ⟨⟨d, r, n⟩, hsome⟩ := Option.isSome_iff_exists.1 hi
    rw [bitness_step] at hrun
    refine ⟨hrun, ?_⟩
    rw [follows, (moves_of_displacement hsome).admitted, hfollows]
    rfl

end Lineage

/-! ## The answer -/

namespace Resolver

variable (s : Resolver) (register : SharedRegister)

/-- A distance below zero is one that far below the end of the address space. -/
theorem below_and_addressMask {b : Bitness} {k : UInt64} {d : Nat} (hk : b.Same k (UInt64.ofInt (-d)))
    (hpos : 0 < d) (hd : d < b.addresses) : (k &&& b.addressMask).toNat = b.addresses - d := by
  have hmod : (k.toNat : Int) % b.addresses = (-d : Int) % b.addresses := by
    rw [Bitness.same_iff_emod.1 hk, b.toNat_ofInt_emod]
  have hwrap : (-d : Int) % b.addresses = b.addresses - d := by
    rw [← Int.add_emod_right, Int.emod_eq_of_lt] <;> omega
  rw [Bitness.toNat_and_addressMask]
  omega

/--
**Below the base.** On a path of moves and displacements that ends `d` bytes
below the base the answer is that the pointer lies below the base, if the
base is at least `d`. A base below that makes the pointer wrap around, and it
is accepted at a distance of almost the whole address space.
-/
theorem emulatedOffset_belowBase {anchor target : String} {call : UInt64} {path : List Instruction} {d : Nat}
    (hlocated : s.locate anchor target = .ok (call, path))
    (hpath : ∀ i ∈ path, (i.displacement? s.image.bitness).isSome = true)
    (hbudget : path.length ≤ s.settings.maxInstructions)
    (hdistance : (Distances.start register.gpr).after s.image.bitness path register.gpr = some (-(d : Int)))
    (hpos : 0 < d) (hd : d < s.image.bitness.addresses) :
    (s.emulatedOffset anchor target register).result =
      if d ≤ s.settings.sentinel.toNat then
        .error (.divergence call (.negativeOffset (register.within s.image.bitness)))
      else .ok (UInt64.ofNat (s.image.bitness.addresses - d)) := by
  obtain ⟨htracks, hfollows⟩ :=
    (Lineage.tracks_initial s.image s.settings.stackTop register.gpr).run hpath
  obtain ⟨k, hk, hsame⟩ := htracks.copies hdistance
  have hwritten : (s.lineageOf register path).written register.gpr = true := by
    cases hw : (s.lineageOf register path).written register.gpr with
    | true => rfl
    | false =>
      have hzero : some (-(d : Int)) = some 0 := hdistance.symm.trans (htracks.unwritten hw)
      have hd0 := Option.some.inj hzero
      omega
  have hregister : (s.lineageOf register path).registers register.gpr = .base k := hk
  have hsame' : s.image.bitness.Same k (UInt64.ofInt (-d)) := by
    rw [Lineage.bitness_run] at hsame
    exact hsame
  have hfar := below_and_addressMask hsame' hpos hd
  have hword : k &&& s.image.bitness.addressMask = UInt64.ofNat (s.image.bitness.addresses - d) := by
    rw [← hfar, UInt64.ofNat_toNat]
  rw [result_of_locate register hlocated, s.answer_of_follows register hfollows, exactAnswer,
    List.getElem?_eq_none hbudget]
  simp only [hwritten, hregister, hfar, if_true]
  by_cases hbase : d ≤ s.settings.sentinel.toNat
  · rw [if_pos hbase, if_neg (by omega)]
  · rw [if_neg hbase, if_pos (by omega), hword]

/-- Eight bytes below a base of 0x1000: refused. -/
theorem emulatedOffset_belowBase_refused :
    ((alone .x64 [0x48, 0x8d, 0x49, 0xf8, 0xe8, 0xf7, 0xff, 0, 0]).emulatedOffset "anchor" "target" .cx).result
      = .error (.divergence 0x10004 (.negativeOffset (.gpr .cx .qword))) := by
  have hlocated := locate_alone .x64 [0x48, 0x8d, 0x49, 0xf8, 0xe8, 0xf7, 0xff, 0, 0] {} 0x10004
    (by decide) (by decide) (by decide +kernel) (by decide +kernel)
  exact (emulatedOffset_belowBase _ .cx (d := 8) hlocated (by decide +kernel) (by decide +kernel)
    (by decide +kernel) (by decide) (by decide)).trans (by decide +kernel)

/-- The base is moved down by 0x2000. -/
def movedBelowZero : List UInt8 :=
  [0x48, 0x8d, 0x89, 0x00, 0xe0, 0xff, 0xff, 0xe8, 0xf4, 0xff, 0, 0]

/-- A pointer below the base is not always refused: 0x2000 bytes below a base of 0x1000 it is accepted. -/
theorem emulatedOffset_belowBase_accepted :
    ¬ ∀ (s : Resolver) (anchor target : String) (register : SharedRegister) (call : UInt64)
        (path : List Instruction) (d : Nat),
      s.settings.sentinel.toNat < s.image.bitness.addresses / 2 →
      s.locate anchor target = .ok (call, path) →
      (∀ i ∈ path, (i.displacement? s.image.bitness).isSome = true) →
      path.length ≤ s.settings.maxInstructions →
      (∃ i ∈ path, i.first = .register (register.within s.image.bitness)) →
      (Distances.start register.gpr).after s.image.bitness path register.gpr = some (-(d : Int)) →
      0 < d → d < 0x80000000 →
      (s.emulatedOffset anchor target register).result =
        .error (.divergence call (.negativeOffset (register.within s.image.bitness))) := by
  intro hrefused
  have hlocated := locate_alone .x64 movedBelowZero {} 0x10007
    (by decide) (by decide) (by decide +kernel) (by decide +kernel)
  have herror := hrefused (alone .x64 movedBelowZero) "anchor" "target" .cx _ _ 0x2000 (by decide) hlocated
    (by decide +kernel) (by decide +kernel) (by decide +kernel) (by decide +kernel) (by decide) (by decide)
  rw [result_of_locate .cx hlocated] at herror
  exact absurd herror (by decide +kernel)

end Resolver

end KernelOffsets
