/-
What the origin of a register says about the answer of a search. The machine
at the entry is described by `Lineage.initial` (`Lineage.describes_machineAt`),
so the register at the call has the origin that the lineage of the path gives
it (`Resolver.covers_lineageOf`), and is judged by that origin: a constant is refused,
and the base plus a distance is accepted exactly if the sum does not pass the
end of the address space.
-/
import KernelOffsets.Proofs.LineageSound
import KernelOffsets.Proofs.Tracking

namespace KernelOffsets

/-! ## The machine at the entry -/

theorem RegisterFile.value_initial (b : Bitness) (stackTop : UInt64) (g : Gpr) :
    (initial b stackTop).value g = if Gpr.sp = g then .plain (stackTop &&& b.addressMask) else .plain 0 := by
  have hzero : RegisterFile.value ⟨b, .replicate 16 (.plain 0), .replicate 16 false⟩ g = .plain 0 := by
    simp [value]
  simp only [initial, value_clearWritten, set, Bitness.stackPointer, Bitness.wide, write, value_put,
    merge_pointerWidth, hzero]
  rfl

theorem RegisterFile.value_inject (f : RegisterFile) (r : SharedRegister) (base : UInt64) (g : Gpr) :
    (f.inject (r.within f.bitness) base).value g =
      if r.gpr = g then .onBase (base &&& f.bitness.addressMask) else f.value g :=
  value_write_wide f r.gpr g (.onBase base)

/-- **The lineage of the entry** describes the machine at the entry. -/
theorem Lineage.describes_machineAt (s : Resolver) (register : SharedRegister) :
    (Lineage.initial s.image s.settings.stackTop register.gpr).Describes s.settings.sentinel
      (s.machineAt (register.within s.image.bitness)) := by
  have hinitial : (RegisterFile.initial s.image.bitness s.settings.stackTop).bitness = s.image.bitness := by
    simp [RegisterFile.initial, RegisterFile.set, RegisterFile.clearWritten]
  have hmode : (s.machineAt (register.within s.image.bitness)).bitness = s.image.bitness := by
    simp [Resolver.machineAt, Machine.prepare, Machine.bitness, RegisterFile.inject, Machine.initial,
      RegisterFile.clearWritten, hinitial]
  refine ⟨hmode, ?_, ?_, ?_, ?_, ?_⟩
  · intro g
    have hvalue := RegisterFile.value_inject (RegisterFile.initial s.image.bitness s.settings.stackTop) register
      s.settings.sentinel g
    rw [hinitial, RegisterFile.value_initial] at hvalue
    simp only [Resolver.machineAt, Machine.prepare, Machine.initial, RegisterFile.value_clearWritten, hvalue,
      Lineage.initial, eq_comm (a := g)]
    split
    · exact (Origin.Covers.onBase _ _).mask_address
    · split
      · exact (Origin.Covers.plain _ _ _).mask_address
      · exact .plain _ _ 0
  · intro g
    exact RegisterFile.hasWritten_clearWritten _ g
  · intro x y _ hy
    simp only [Lineage.initial, Option.some.injEq] at hy
    simp only [← hy, Resolver.machineAt, Machine.prepare, Machine.initial, Memory.byteAt, Memory.empty,
      Machine.background, Std.HashMap.getElem?_empty, Option.getD_none]
  · intro x _ _
    simp only [Resolver.machineAt, Machine.prepare, Machine.initial, Memory.empty, Std.HashSet.contains_empty]
  · intro x o _ ho
    cases ho

/-! ## The judgement at the call -/

/-- How far the base moved, and whether the sum passes the end of the address space. -/
theorem Bitness.Same.offset {b : Bitness} {v s k : UInt64} (h : b.Same v (s + k)) :
    (v &&& b.addressMask < s ↔ b.addresses ≤ s.toNat + (k &&& b.addressMask).toNat) ∧
    (¬ v &&& b.addressMask < s → (v &&& b.addressMask) - s = k &&& b.addressMask) := by
  have hv : (v &&& b.addressMask).toNat = (s.toNat + (k &&& b.addressMask).toNat) % b.addresses := by
    rw [show v &&& b.addressMask = (s + k) &&& b.addressMask from h, toNat_and_addressMask, toNat_and_addressMask,
      UInt64.toNat_add, Nat.mod_mod_of_dvd _ b.addresses_dvd, Nat.add_mod_mod]
  have hk : (k &&& b.addressMask).toNat < b.addresses := by
    rw [toNat_and_addressMask]
    exact Nat.mod_lt _ (Nat.succ_pos _)
  generalize (k &&& b.addressMask) = distance at hv hk ⊢
  generalize (v &&& b.addressMask) = value at hv ⊢
  have hlt : value < s ↔ b.addresses ≤ s.toNat + distance.toNat := by
    rw [UInt64.lt_iff_toNat_lt, hv]
    constructor
    · intro hlt
      apply Nat.le_of_not_lt
      intro hsum
      rw [Nat.mod_eq_of_lt hsum] at hlt
      omega
    · intro hsum
      by_cases hs : s.toNat < b.addresses
      · rw [Nat.mod_eq_sub_mod hsum, Nat.mod_eq_of_lt (by omega)]
        omega
      · exact Nat.lt_of_lt_of_le (Nat.mod_lt _ (Nat.succ_pos _)) (Nat.le_of_not_lt hs)
  refine ⟨hlt, fun hge => ?_⟩
  rw [hlt, Nat.not_le] at hge
  rw [Nat.mod_eq_of_lt hge] at hv
  have hsum : value = s + distance := by
    apply UInt64.toNat_inj.1
    rw [hv, UInt64.toNat_add, Nat.mod_eq_of_lt]
    have hsize : b.addresses ≤ 18446744073709551616 := Nat.le_of_dvd (by decide) b.addresses_dvd
    omega
  rw [hsum, UInt64.add_comm, UInt64.add_sub_cancel]

namespace Resolver

variable (s : Resolver) (register : SharedRegister) (path : List Instruction)

/-- What is known at the end of a path. -/
def lineageOf : Lineage :=
  (Lineage.initial s.image s.settings.stackTop register.gpr).run path

/-- The machine at the end of a path. -/
def machineAfter : Machine :=
  path.foldl Machine.step (s.machineAt (register.within s.image.bitness))

@[simp] theorem bitness_lineageOf : (s.lineageOf register path).bitness = s.image.bitness :=
  Lineage.bitness_run _ path

theorem describes_lineageOf :
    (s.lineageOf register path).Describes s.settings.sentinel (s.machineAfter register path) :=
  (Lineage.describes_machineAt s register).run path

/-- The register has the origin that the lineage of the path gives it. -/
theorem covers_lineageOf (g : Gpr) :
    ((s.lineageOf register path).registers g).Covers s.image.bitness s.settings.sentinel
      ((s.machineAfter register path).registers.value g) := by
  have hg := (s.describes_lineageOf register path).registers g
  rwa [bitness_lineageOf] at hg

theorem read_machineAfter :
    (s.machineAfter register path).registers.read (register.within s.image.bitness) =
      ((s.machineAfter register path).registers.value register.gpr).mask s.image.bitness.addressMask := by
  have hmode : (s.machineAfter register path).registers.bitness = s.image.bitness :=
    (s.describes_lineageOf register path).mode.trans (s.bitness_lineageOf register path)
  rw [SharedRegister.within, ← hmode, RegisterFile.read_wide]

theorem wasWritten_machineAfter :
    (s.machineAfter register path).registers.wasWritten (register.within s.image.bitness) =
      (s.lineageOf register path).written register.gpr :=
  (s.describes_lineageOf register path).written register.gpr

variable {s register path} {call : UInt64}

/-- What is judged at the call, as a number of bytes from the base. -/
def judgement (s : Resolver) (register : SharedRegister) (call : UInt64) (path : List Instruction) :
    Except Failure UInt64 :=
  (pointerAt call s.settings.sentinel (register.within s.image.bitness)
    (s.machineAfter register path).registers).map (· - s.settings.sentinel)

/-- A replay that does not stop is judged by the registers at the end of the path. -/
theorem answer_eq_judgement
    (hstop : ((s.machineAt (register.within s.image.bitness)).replay (fun _ _ => ()) s.settings.maxInstructions
      path).stop = none) : s.answer register call path = s.judgement register call path := by
  simp only [answer, judgement, pointerAfter, hstop, Machine.machine_replay hstop]
  rfl

/-- A register that was not written is refused. -/
theorem judgement_unwritten (hw : (s.lineageOf register path).written register.gpr = false) :
    s.judgement register call path =
      .error (.divergence call (.registerNotWritten (register.within s.image.bitness))) := by
  have hwritten := s.wasWritten_machineAfter register path
  rw [hw] at hwritten
  simp [judgement, pointerAt, hwritten, Except.map]

/-- A written register that is not marked is refused. -/
theorem judgement_unmarked (hw : (s.lineageOf register path).written register.gpr = true)
    (hv : ((s.machineAfter register path).registers.value register.gpr).based = false) :
    s.judgement register call path =
      .error (.divergence call (.notBaseRelative (register.within s.image.bitness))) := by
  have hwritten := s.wasWritten_machineAfter register path
  rw [hw] at hwritten
  simp [judgement, pointerAt, hwritten, s.read_machineAfter, hv, Except.map]

/-- A written and marked register that is the base plus a distance is accepted where the sum does not wrap. -/
theorem judgement_marked {k : UInt64} (hw : (s.lineageOf register path).written register.gpr = true)
    (hv : ((s.machineAfter register path).registers.value register.gpr).based = true)
    (hk : s.image.bitness.Same ((s.machineAfter register path).registers.value register.gpr).bits
      (s.settings.sentinel + k)) :
    s.judgement register call path =
      if s.settings.sentinel.toNat + (k &&& s.image.bitness.addressMask).toNat < s.image.bitness.addresses then
        .ok (k &&& s.image.bitness.addressMask)
      else .error (.divergence call (.negativeOffset (register.within s.image.bitness))) := by
  obtain ⟨hlt, hsub⟩ := hk.offset
  have hwritten := s.wasWritten_machineAfter register path
  rw [hw] at hwritten
  simp only [judgement, pointerAt, hwritten, s.read_machineAfter, Value.based_mask, hv, Value.bits_mask]
  by_cases hneg :
      ((s.machineAfter register path).registers.value register.gpr).bits &&& s.image.bitness.addressMask
        < s.settings.sentinel
  · rw [if_neg (Nat.not_lt.2 (hlt.1 hneg))]
    simp [hneg, Except.map]
  · rw [if_pos (Nat.lt_of_not_le (mt hlt.2 hneg))]
    simp [hneg, Except.map, hsub hneg]

end Resolver

end KernelOffsets
