/-
Where base relative values are kept: a place is a register or a slot of
memory that holds a pointer. An operand of full width is a place, and what is
read from it is the value of the place. After a write through an operand every
place that is still marked is either out of its reach and as before, or it is
the operand itself and holds what was written (`Machine.assign_based`).
-/
import KernelOffsets.Machine.Step
import KernelOffsets.Proofs.Decoded
import KernelOffsets.Proofs.Spill

namespace KernelOffsets

/-- A whole register, or a pointer-sized slot of memory. -/
inductive Place where
  | register (g : Gpr)
  | slot (address : UInt64)
  deriving DecidableEq, Repr

/-- A slot lies within the address space. -/
def Place.IsWithin (b : Bitness) : Place → Prop
  | register _ => True
  | slot a => a &&& b.addressMask = a

/-- What an operand of full width reads: a place, or the same word in every state. -/
inductive Source where
  | place (p : Place)
  | constant (bits : UInt64)
  deriving DecidableEq, Repr

/-- What a register name of full width reads; the registers that hold nothing read as zero. -/
def Register.source? (b : Bitness) : Register → Option Source
  | gpr g w => if b.pointerBytes ≤ w.bytes then some (.place (.register g)) else none
  | highByte _ => none
  | _ => some (.constant 0)

namespace Machine

variable {m : Machine} {o d : Operand} {p : Place} {v : Value}

/-- The value in a place. -/
def valueAt (m : Machine) : Place → Value
  | .register g => m.registers.value g
  | .slot a => m.load a m.bitness.pointerBytes

/-- The value of a source. -/
def valueOf (m : Machine) : Source → Value
  | .place p => m.valueAt p
  | .constant bits => .plain bits

/-- What an operand of full width reads. -/
def source? (m : Machine) : Operand → Option Source
  | .register r => r.source? m.bitness
  | .memory o =>
    if o.size = m.bitness.pointerBytes then
      some (.place (.slot ((m.registers.address o).bits &&& m.bitness.addressMask)))
    else none
  | .immediate bits _ => some (.constant bits)
  | _ => some (.constant 0)

/-- The place that an operand of full width is. -/
def place? (m : Machine) (o : Operand) : Option Place :=
  match m.source? o with
  | some (.place p) => some p
  | _ => none

/-- Whether a write through an operand changes some byte of a place. -/
def Touches (m : Machine) (o : Operand) (p : Place) : Prop :=
  match o, p with
  | .register r, .register g => r.gpr? = some g
  | .memory o, .slot a => m.bitness.meets (m.registers.address o).bits o.size a = true
  | _, _ => False

theorem place?_eq_some : m.place? o = some p ↔ m.source? o = some (.place p) := by
  unfold place?
  split
  · next h => simp [h]
  · next h =>
    constructor
    · intro hp
      cases hp
    · intro hs
      exact absurd hs (h p)

theorem within_place (h : m.place? o = some p) : p.IsWithin m.bitness := by
  rw [place?_eq_some] at h
  cases o with
  | register r =>
    cases r with
    | gpr g w =>
      simp only [source?, Register.source?] at h
      split at h <;> cases h
      trivial
    | _ => cases h
  | memory o =>
    simp only [source?] at h
    split at h <;> cases h
    exact Bitness.same_and_mask _ _
  | _ => cases h

/-! ## Reading -/

/-- **An operand of full width reads its source.** -/
theorem fetch_source {s : Source} (h : m.source? o = some s) :
    (m.fetch o).based = (m.valueOf s).based ∧ m.bitness.Same (m.fetch o).bits (m.valueOf s).bits := by
  cases o with
  | register r =>
    cases r with
    | gpr g w =>
      simp only [source?, Register.source?] at h
      split at h
      · next hw =>
        cases h
        have hwide : decide (m.registers.bitness.pointerBytes ≤ w.bytes) = true := decide_eq_true hw
        refine ⟨?_, Bitness.same_and_width hw _⟩
        simp only [fetch, RegisterFile.read, hwide, Bool.and_true]
        rfl
      · cases h
    | highByte b => cases h
    | _ =>
      cases h
      exact ⟨rfl, .refl _ _⟩
  | memory o =>
    simp only [source?] at h
    split at h
    · next hn =>
      cases h
      have hload := load_congr (m := m) (Bitness.same_and_mask m.bitness (m.registers.address o).bits) o.size
      simp only [fetch, valueOf, valueAt, ← hn, hload]
      exact ⟨trivial, .refl _ _⟩
    · cases h
  | _ =>
    cases h
    exact ⟨rfl, .refl _ _⟩

/-- A marked value is read from a place, and no operand below the width of a pointer reads one. -/
theorem source_of_based (h : (m.fetch o).based = true) :
    (∃ p, m.source? o = some (.place p)) ∧ ∀ n, o.isOfSize n = true → m.bitness.pointerBytes ≤ n := by
  cases o with
  | register r =>
    cases r with
    | gpr g w =>
      simp only [fetch, RegisterFile.read, Bool.and_eq_true, decide_eq_true_eq] at h
      have hw : m.bitness.pointerBytes ≤ w.bytes := h.2
      refine ⟨⟨.register g, if_pos hw⟩, fun n hn => ?_⟩
      have hbytes : w.bytes = n := eq_of_beq hn
      exact hbytes ▸ hw
    | _ => cases h
  | memory o =>
    simp only [fetch, load, Memory.load, Bool.and_eq_true, beq_iff_eq] at h
    refine ⟨⟨_, if_pos h.1⟩, fun n hn => ?_⟩
    have hbytes : o.size = n := eq_of_beq hn
    exact Nat.le_of_eq (h.1.symm.trans hbytes)
  | _ => cases h

/-- A register name that is not below the width of a pointer is of full width. -/
theorem register_source {r : Register} {b : Bitness} {n : Nat} (hn : r.isOfSize n = true)
    (h : b.pointerBytes ≤ n) : ∃ s, r.source? b = some s := by
  cases r with
  | gpr g w =>
    have hbytes : w.bytes = n := eq_of_beq hn
    exact ⟨_, if_pos (hbytes ▸ h)⟩
  | highByte half =>
    have hbyte : 1 = n := eq_of_beq hn
    subst hbyte
    cases b <;> exact absurd h (by decide)
  | _ => exact ⟨_, rfl⟩

/-- An operand of the size of a pointer is of full width. -/
theorem source_of_isOfSize (h : o.isOfSize m.bitness.pointerBytes = true) : ∃ s, m.source? o = some s := by
  cases o with
  | register r => exact register_source (b := m.bitness) h (Nat.le_refl _)
  | memory o => exact ⟨_, if_pos (eq_of_beq h)⟩
  | _ => exact ⟨_, rfl⟩

/-! ## Writing -/

@[simp] theorem valueAt_writeRegister_slot (m : Machine) (r : Register) (v : Value) (a : UInt64) :
    (m.writeRegister r v).valueAt (.slot a) = m.valueAt (.slot a) := by
  cases r <;> rfl

/-- A register that is marked after a write through a name keeps its value, or the name has full width. -/
theorem writeRegister_based {r : Register} {g : Gpr}
    (h : ((m.writeRegister r v).valueAt (.register g)).based = true) :
    (r.gpr? ≠ some g ∧ (m.writeRegister r v).valueAt (.register g) = m.valueAt (.register g)) ∨
    (r.source? m.bitness = some (.place (.register g)) ∧ v.based = true) := by
  cases r with
  | gpr g' w =>
    simp only [writeRegister, valueAt, RegisterFile.write, RegisterFile.value_put] at h ⊢
    split at h
    · next e =>
      subst e
      right
      cases w with
      | byte | word => cases h
      | dword | qword =>
        simp only [RegisterFile.merge, Bool.and_eq_true, decide_eq_true_eq] at h
        exact ⟨if_pos h.2, h.1⟩
    · next e =>
      left
      refine ⟨fun hg => e (Option.some.inj hg), if_neg e⟩
  | highByte half =>
    simp only [writeRegister, valueAt, RegisterFile.write, RegisterFile.value_put] at h ⊢
    split at h
    · cases h
    · next e => exact .inl ⟨fun hg => e (Option.some.inj hg), if_neg e⟩
  | _ =>
    refine .inl ⟨fun hg => ?_, rfl⟩
    cases hg

/-- **A place that is written through has the mark and the word of what is written.** -/
theorem assign_place (h : m.place? d = some p) :
    ((m.assign d v).valueAt p).based = v.based ∧ m.bitness.Same ((m.assign d v).valueAt p).bits v.bits := by
  rw [place?_eq_some] at h
  cases d with
  | register r =>
    cases r with
    | gpr g w =>
      simp only [source?, Register.source?] at h
      split at h
      · next hw =>
        cases h
        have hwide : decide (m.registers.bitness.pointerBytes ≤ w.bytes) = true := decide_eq_true hw
        have hmerge : RegisterFile.merge m.registers.bitness w (m.registers.value g) v = ⟨v.bits &&& w.mask, v.based⟩ := by
          cases w with
          | byte | word => cases hb : m.bitness <;> rw [hb] at hw <;> exact absurd hw (by decide)
          | dword | qword => simp only [RegisterFile.merge, hwide, Bool.and_true]
        simp only [assign, writeRegister, valueAt, RegisterFile.write, RegisterFile.value_put, if_true, hmerge]
        exact ⟨trivial, Bitness.same_and_width hw _⟩
      · cases h
    | _ => cases h
  | memory o =>
    simp only [source?] at h
    split at h
    · next hn =>
      cases h
      have hload := load_store_self (m := m) (v := v) (Bitness.same_and_mask m.bitness (m.registers.address o).bits)
      simp only [assign, valueAt, hn]
      exact ⟨hload.2, hload.1⟩
    · cases h
  | _ => cases h

theorem touches_place (h : m.place? d = some p) : m.Touches d p := by
  rw [place?_eq_some] at h
  cases d with
  | register r =>
    cases r with
    | gpr g w =>
      simp only [source?, Register.source?] at h
      split at h <;> cases h
      rfl
    | _ => cases h
  | memory o =>
    simp only [source?] at h
    split at h
    · next hn =>
      cases h
      exact Bitness.meets_self (hn ▸ m.bitness.pointerBytes_pos) (Bitness.same_and_mask _ _)
    · cases h
  | _ => cases h

/-- **A place that is marked after a write** is out of its reach and as before, or it is what was written
through, and the written value was marked. -/
theorem assign_based (hp : p.IsWithin m.bitness) (h : ((m.assign d v).valueAt p).based = true) :
    (¬ m.Touches d p ∧ (m.assign d v).valueAt p = m.valueAt p) ∨ (m.place? d = some p ∧ v.based = true) := by
  cases d with
  | register r =>
    cases p with
    | register g =>
      obtain hkeep | ⟨hs, hv⟩ := writeRegister_based h
      · exact .inl hkeep
      · exact .inr ⟨place?_eq_some.2 hs, hv⟩
    | slot a => exact .inl ⟨nofun, valueAt_writeRegister_slot m r v a⟩
  | memory o =>
    cases p with
    | register g => exact .inl ⟨nofun, rfl⟩
    | slot a =>
      obtain ⟨hmeets, hkeep⟩ | ⟨hv, hn, ha⟩ := store_based hp h
      · refine .inl ⟨?_, hkeep⟩
        simp only [Touches, hmeets, Bool.false_eq_true, not_false_iff]
      · exact .inr ⟨place?_eq_some.2 (by simp only [source?, if_pos hn, ha]), hv⟩
  | _ => exact .inl ⟨nofun, rfl⟩

end Machine

end KernelOffsets
