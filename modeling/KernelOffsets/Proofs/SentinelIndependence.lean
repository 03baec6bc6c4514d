/-
How far an answer depends on the base that was injected. The lineage of a path
does not know the base, so an accepted pointer that it follows is the distance
that it tells, for every base (`Resolver.distance_of_answer`). An accepted
answer still moves with the base if a part of the base was brought back as a
number, for a narrow copy of the base is a number like any other.
-/
import KernelOffsets.Proofs.ExactOffset

namespace KernelOffsets

/-- The distance from the base, if it is one whenever the word is marked. -/
def Origin.distance? : Origin → Option UInt64
  | .base k | .perhaps k => some k
  | _ => none

namespace Resolver

variable (s : Resolver) (register : SharedRegister)

/-- The same search with another base. -/
def withSentinel (base : UInt64) : Resolver :=
  { s with settings := { s.settings with sentinel := base } }

/-- An accepted answer was judged at the end of the path. -/
theorem judgement_of_answer {call : UInt64} {path : List Instruction} {x : UInt64}
    (h : s.answer register call path = .ok x) : s.judgement register call path = .ok x := by
  cases hstop : ((s.machineAt (register.within s.image.bitness)).replay (fun _ _ => ())
      s.settings.maxInstructions path).stop with
  | none => rwa [answer_eq_judgement hstop] at h
  | some stop =>
    simp only [answer, pointerAfter, hstop] at h
    cases h

/-- **An accepted answer** is the distance that the lineage tells, if it tells anything. -/
theorem distance_of_answer {call : UInt64} {path : List Instruction} {x : UInt64}
    (h : s.answer register call path = .ok x)
    (hpure : (s.lineageOf register path).registers register.gpr ≠ .mixed) :
    ((s.lineageOf register path).registers register.gpr).distance?.map (· &&& s.image.bitness.addressMask)
      = some x := by
  have hjudged := s.judgement_of_answer register h
  have hg := s.covers_lineageOf register path register.gpr
  cases hw : (s.lineageOf register path).written register.gpr with
  | false =>
    rw [judgement_unwritten hw] at hjudged
    cases hjudged
  | true =>
    cases hv : ((s.machineAfter register path).registers.value register.gpr).based with
    | false =>
      rw [judgement_unmarked hw hv] at hjudged
      cases hjudged
    | true =>
      have hmarked : ∀ {k : UInt64}, s.image.bitness.Same
          ((s.machineAfter register path).registers.value register.gpr).bits (s.settings.sentinel + k) →
            k &&& s.image.bitness.addressMask = x := by
        intro k hk
        rw [judgement_marked hw hv hk] at hjudged
        split at hjudged
        · exact Except.ok.inj hjudged
        · cases hjudged
      cases ho : (s.lineageOf register path).registers register.gpr with
      | base k => rw [ho] at hg; exact congrArg some (hmarked hg.2)
      | perhaps k => rw [ho] at hg; exact congrArg some (hmarked (hg hv))
      | constant c => rw [ho] at hg; rw [hg.1] at hv; cases hv
      | mixed => exact absurd ho hpure

/--
**Two bases, one answer.** Searches that differ in the base alone and both
succeed agree, if the register at the call is not a mixture of the base: a
marked word whose lineage is known is the base plus a distance that no base
has a part in.
-/
theorem emulatedOffset_independent {anchor target : String} {base₁ base₂ x₁ x₂ : UInt64}
    (hpure : ∀ {call : UInt64} {path : List Instruction}, s.locate anchor target = .ok (call, path) →
      (s.lineageOf register path).registers register.gpr ≠ .mixed)
    (h₁ : ((s.withSentinel base₁).emulatedOffset anchor target register).result = .ok x₁)
    (h₂ : ((s.withSentinel base₂).emulatedOffset anchor target register).result = .ok x₂) : x₁ = x₂ := by
  rw [result_emulatedOffset] at h₁ h₂
  have hlocate : ∀ base, (s.withSentinel base).locate anchor target = s.locate anchor target := fun _ => rfl
  rw [hlocate] at h₁ h₂
  cases hlocated : s.locate anchor target with
  | error e =>
    rw [hlocated] at h₁
    cases h₁
  | ok found =>
    obtain ⟨call, path⟩ := found
    rw [hlocated] at h₁ h₂
    have hx₁ := (s.withSentinel base₁).distance_of_answer register h₁ (hpure hlocated)
    have hx₂ := (s.withSentinel base₂).distance_of_answer register h₂ (hpure hlocated)
    exact Option.some.inj (hx₁.symm.trans hx₂)

/-- The answer for a pointer that was spilled across a call is the same for a low and for a high base. -/
theorem emulatedOffset_independent_spilled :
    ∃ x₁ x₂ : UInt64,
      (((alone .x64 spilledAcrossCall).withSentinel 0x1000).emulatedOffset "anchor" "target" .cx).result = .ok x₁ ∧
      (((alone .x64 spilledAcrossCall).withSentinel 0xdead0000).emulatedOffset "anchor" "target" .cx).result
        = .ok x₂ ∧ x₁ = x₂ := by
  have hlocated := locate_alone .x64 spilledAcrossCall {} 0x1000e
    (by decide) (by decide) (by decide +kernel) (by decide +kernel)
  have hlow : (((alone .x64 spilledAcrossCall).withSentinel 0x1000).emulatedOffset "anchor" "target" .cx).result
      = .ok 0x440 := by
    rw [result_of_locate (s := (alone .x64 spilledAcrossCall).withSentinel 0x1000) .cx hlocated,
      answer_of_follows _ _ (by decide +kernel)]
    decide +kernel
  have hhigh : (((alone .x64 spilledAcrossCall).withSentinel 0xdead0000).emulatedOffset "anchor" "target" .cx).result
      = .ok 0x440 := by
    rw [result_of_locate (s := (alone .x64 spilledAcrossCall).withSentinel 0xdead0000) .cx hlocated,
      answer_of_follows _ _ (by decide +kernel)]
    decide +kernel
  refine ⟨_, _, hlow, hhigh, emulatedOffset_independent (alone .x64 spilledAcrossCall) .cx ?_ hlow hhigh⟩
  intro call path hpath
  obtain ⟨rfl, rfl⟩ := Prod.mk.inj (Except.ok.inj (hlocated.symm.trans hpath))
  decide +kernel

/-- The low half of the base is copied and added to the base. -/
def doubledThroughHalf : List UInt8 :=
  [0x89, 0xc8, 0x48, 0x01, 0xc1, 0xe8, 0xf6, 0xff, 0, 0]

/-- Without a condition on the lineage the answer can move with the base: it is the low half of the base here. -/
theorem emulatedOffset_moves_with_base :
    ¬ ∀ (s : Resolver) (anchor target : String) (register : SharedRegister) (base₁ base₂ x₁ x₂ : UInt64),
      base₁.toNat < s.image.bitness.addresses → base₂.toNat < s.image.bitness.addresses →
      ((s.withSentinel base₁).emulatedOffset anchor target register).result = .ok x₁ →
      ((s.withSentinel base₂).emulatedOffset anchor target register).result = .ok x₂ → x₁ = x₂ := by
  have hlocated := locate_alone .x64 doubledThroughHalf {} 0x10005
    (by decide) (by decide) (by decide +kernel) (by decide +kernel)
  have hlow : (((alone .x64 doubledThroughHalf).withSentinel 0x1000).emulatedOffset "anchor" "target" .cx).result
      = .ok 0x1000 := by
    rw [result_of_locate (s := (alone .x64 doubledThroughHalf).withSentinel 0x1000) .cx hlocated]
    decide +kernel
  have hhigh : (((alone .x64 doubledThroughHalf).withSentinel 0x2000).emulatedOffset "anchor" "target" .cx).result
      = .ok 0x2000 := by
    rw [result_of_locate (s := (alone .x64 doubledThroughHalf).withSentinel 0x2000) .cx hlocated]
    decide +kernel
  intro hsame
  have heq := hsame (alone .x64 doubledThroughHalf) "anchor" "target" .cx 0x1000 0x2000 0x1000 0x2000
    (by decide) (by decide) hlow hhigh
  exact absurd heq (by decide)

end Resolver

end KernelOffsets
