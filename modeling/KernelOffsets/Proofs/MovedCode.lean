/-
The same bytes at another address. The instructions in them move along with
their near branch targets and whatever else is relative to the instruction
pointer (`Instruction.moved`). Where the decoder does no more than that to
some code (`Encoding.Moves`), a sweep of the moved code is the moved sweep
(`Encoding.sweep_moved`).
-/
import KernelOffsets.Proofs.Memory
import KernelOffsets.Proofs.Sweep

namespace KernelOffsets

/-- An address moved by a distance, around the end of the address space. -/
def Bitness.moved (b : Bitness) (d a : UInt64) : UInt64 :=
  (a + d) &&& b.addressMask

/-- A reference relative to the instruction pointer moves, every other one stays. -/
def MemoryOperand.moved (d : UInt64) (o : MemoryOperand) : MemoryOperand :=
  match o.base with
  | .instructionPointer w => { o with displacement := (o.displacement + d) &&& w.mask }
  | _ => o

/-- An operand of a moved instruction. -/
def Operand.moved (b : Bitness) (d : UInt64) : Operand → Operand
  | .memory o => .memory (o.moved d)
  | .nearTarget target w => .nearTarget (b.moved d target) w
  | o => o

/-- A term of a moved instruction. -/
def Term.moved (b : Bitness) (d : UInt64) : Term → Term
  | .plain o => .plain (o.moved b d)
  | .destination o => .destination (o.moved b d)
  | .masked o opmask zeroing => .masked (o.moved b d) opmask zeroing
  | .broadcast o count => .broadcast (o.moved b d) count
  | .rounding r => .rounding r

/-- An instruction at another address, with the same bytes. -/
def Instruction.moved (b : Bitness) (d : UInt64) (i : Instruction) : Instruction :=
  { i with
    ip := b.moved d i.ip
    operands := i.operands.map (·.moved b d)
    stores := i.stores.map (·.moved d)
    spelling := { i.spelling with terms := i.spelling.terms.map (·.moved b d) } }

/-! ## Addresses -/

namespace Bitness

variable {b : Bitness} {d a x : UInt64}

theorem toNat_moved (b : Bitness) (d a : UInt64) : (b.moved d a).toNat = (a.toNat + d.toNat) % b.addresses := by
  rw [moved, toNat_and_addressMask, UInt64.toNat_add]
  exact Nat.mod_mod_of_dvd _ b.addresses_dvd

/-- Different addresses stay different. -/
theorem moved_inj (ha : a &&& b.addressMask = a) (hx : x &&& b.addressMask = x) :
    b.moved d a = b.moved d x ↔ a = x := by
  refine ⟨fun h => ?_, fun h => congrArg _ h⟩
  have hsame : b.Same (a + d - d) (x + d - d) := Same.sub h (.refl b d)
  rw [UInt64.add_sub_cancel, UInt64.add_sub_cancel, Same, ha, hx] at hsame
  exact hsame

/--
Code that begins at an address does not leave the address space. On x86 it may
end exactly at the end of it; on x64 `ends` excludes this too, as the end of
the range of the code is a 64-bit address, which would be zero, and then no
branch would lead into the code.
-/
structure Holds (b : Bitness) (entry : UInt64) (code : List UInt8) : Prop where
  within : entry.toNat + code.length ≤ b.addresses
  ends : entry.toNat + code.length < UInt64.size

variable {entry : UInt64} {code : List UInt8} {n : Nat}

theorem Holds.toNat_add (h : b.Holds entry code) (hn : n ≤ code.length) :
    (entry + n.toUInt64).toNat = entry.toNat + n := by
  have hends := h.ends
  rw [Encoding.toNat_add_toUInt64, Nat.mod_eq_of_lt (by omega)]

theorem moved_add (h : b.Holds entry code) (h' : b.Holds (b.moved d entry) code) (hn : n < code.length) :
    b.moved d (entry + n.toUInt64) = b.moved d entry + n.toUInt64 := by
  have hwithin := h'.within
  rw [← UInt64.toNat_inj, toNat_moved, h.toNat_add (Nat.le_of_lt hn), h'.toNat_add (Nat.le_of_lt hn), toNat_moved]
  rw [toNat_moved] at hwithin
  have hmod := Nat.mod_add_mod (entry.toNat + d.toNat) b.addresses n
  rw [Nat.mod_eq_of_lt (by omega)] at hmod
  rw [hmod, Nat.add_right_comm]

end Bitness

/-! ## Instructions -/

namespace Instruction

variable {b : Bitness} {d : UInt64} {i : Instruction}

@[simp] theorem ip_moved (b : Bitness) (d : UInt64) (i : Instruction) : (i.moved b d).ip = b.moved d i.ip := rfl

@[simp] theorem length_moved (b : Bitness) (d : UInt64) (i : Instruction) : (i.moved b d).length = i.length := rfl

@[simp] theorem isInvalid_moved (b : Bitness) (d : UInt64) (i : Instruction) :
    (i.moved b d).isInvalid = i.isInvalid := rfl

/-- A near target moves; an instruction that has none keeps it at zero. -/
theorem nearTarget_moved (b : Bitness) (d : UInt64) (i : Instruction) :
    (i.moved b d).nearTarget = b.moved d i.nearTarget ∨
      i.isNearCall = false ∧ i.nearTarget = 0 ∧ (i.moved b d).nearTarget = 0 := by
  unfold nearTarget isNearCall moved
  rcases i.operands with - | ⟨o, rest⟩
  · exact .inr ⟨Bool.and_false _, rfl, rfl⟩
  · cases o with
    | nearTarget target w => exact .inl rfl
    | _ => exact .inr ⟨Bool.and_false _, rfl, rfl⟩

theorem isNearCall_moved (b : Bitness) (d : UInt64) (i : Instruction) : (i.moved b d).isNearCall = i.isNearCall := by
  unfold isNearCall moved
  rcases i.operands with - | ⟨o, - | ⟨o', rest⟩⟩
  · rfl
  · cases o <;> rfl
  · cases o <;> rfl

end Instruction

/-! ## Decoding -/

namespace Encoding

variable {mode : Bitness} {d entry : UInt64} {code : List UInt8}

/-- What is asked of the decoder: some code at another address is the same but moved, and near targets are addresses. -/
structure Moves (mode : Bitness) (d entry : UInt64) (code : List UInt8) : Prop where
  decode : ∀ n < code.length, decode mode (mode.moved d (entry + n.toUInt64)) (code.drop n) =
    (decode mode (entry + n.toUInt64) (code.drop n)).moved mode d
  target : ∀ n < code.length, (Encoding.decode mode (entry + n.toUInt64) (code.drop n)).nearTarget &&& mode.addressMask =
    (Encoding.decode mode (entry + n.toUInt64) (code.drop n)).nearTarget

theorem sweep_moved_from (hmoves : Moves mode d entry code) (h : mode.Holds entry code)
    (h' : mode.Holds (mode.moved d entry) code) (n : Nat) :
    sweep mode (mode.moved d entry + n.toUInt64) (code.drop n) =
      (sweep mode (entry + n.toUInt64) (code.drop n)).map (·.moved mode d) := by
  induction hrest : code.length - n using Nat.strongRecOn generalizing n with
  | ind rest ih =>
    subst hrest
    by_cases hn : n < code.length
    · have hne : code.drop n ≠ [] := by simpa using hn
      have hdecode := hmoves.decode n hn
      have hip := ip_decode mode (entry + n.toUInt64) (code.drop n)
      have hlength := length_decode_pos mode (entry + n.toUInt64) hne
      rw [Bitness.moved_add h h' hn] at hdecode
      rw [sweep_of_ne_nil hne, sweep_of_ne_nil hne, hdecode]
      generalize Encoding.decode mode (entry + n.toUInt64) (code.drop n) = i at hip hlength ⊢
      have hnext : i.nextIp = entry + (n + i.length).toUInt64 := by
        rw [Instruction.nextIp, hip, add_toUInt64_add]
      have hnext' : (i.moved mode d).nextIp = mode.moved d entry + (n + i.length).toUInt64 := by
        rw [Instruction.nextIp, Instruction.ip_moved, hip, Bitness.moved_add h h' hn, ← add_toUInt64_add]
        rfl
      rw [List.map_cons, hnext, hnext', Instruction.length_moved, List.drop_drop,
        ih (code.length - (n + i.length)) (by omega) _ rfl]
    · have hnil : code.drop n = [] := List.drop_of_length_le (Nat.le_of_not_lt hn)
      rw [hnil, sweep_nil, sweep_nil, List.map_nil]

/-- **The sweep of moved code** is the moved sweep. -/
theorem sweep_moved (hmoves : Moves mode d entry code) (h : mode.Holds entry code)
    (h' : mode.Holds (mode.moved d entry) code) :
    sweep mode (mode.moved d entry) code = (sweep mode entry code).map (·.moved mode d) := by
  have hfrom := sweep_moved_from hmoves h h' 0
  rwa [List.drop_zero, Bitness.add_zero_toUInt64, Bitness.add_zero_toUInt64] at hfrom

end Encoding

end KernelOffsets
