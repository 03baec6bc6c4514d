/-
The same function seen through windows of two sizes. A cut instruction leads
nowhere and calls nothing, and every other one stands in the longer code too
(`Encoding.mem_sweep_append`), where branches can go farther. So with more
code more can be reached (`ControlFlow.isReached_append`), and the lowest
call can only move down (`Image.locateCall_widen`).
-/
import KernelOffsets.Proofs.Divergences
import KernelOffsets.Proofs.FunctionExtents

namespace KernelOffsets

/-! ## Longer code -/

namespace Encoding

variable {mode : Bitness} {ip : UInt64} {bytes : List UInt8} {i : Instruction}

/-- **Bytes behind an instruction do not matter to it**, unless it was cut by the end of the bytes. -/
theorem decode_append (mode : Bitness) (ip : UInt64) (bytes more : List UInt8) :
    decode mode ip bytes = .undecodable mode ip bytes.length ∨
      decode mode ip (bytes ++ more) = decode mode ip bytes := by
  have hwindow : (bytes ++ more).take maxLength =
      bytes.take maxLength ++ more.take (maxLength - bytes.length) := List.take_append
  cases h : read mode (bytes.take maxLength) with
  | none =>
    by_cases hshort : bytes.length ≤ maxLength
    · left
      rw [decode_of_read_eq_none h, List.take_of_length_le hshort]
    · right
      have hnone : read mode ((bytes ++ more).take maxLength) = none := by
        rw [List.take_append_of_le_length (Nat.le_of_not_le hshort), h]
      rw [decode_of_read_eq_none h, decode_of_read_eq_none hnone,
        List.take_append_of_le_length (Nat.le_of_not_le hshort)]
  | some p =>
    right
    obtain ⟨encoding, rest⟩ := p
    obtain ⟨taken, hsplit, htaken⟩ := stable_read mode _ _ _ h
    rw [hsplit, List.append_assoc] at hwindow
    rw [decode_of_read_eq_some hsplit (htaken _), decode_of_read_eq_some hwindow (htaken _)]

theorem mem_sweep_append (more : List UInt8) (h : i ∈ sweep mode ip bytes) :
    (∃ n, i = .undecodable mode i.ip n) ∨ i ∈ sweep mode ip (bytes ++ more) := by
  induction ip, bytes using sweep_induction mode with
  | nil ip =>
    rw [sweep_nil] at h
    cases h
  | cons ip bytes hne ih =>
    have hne' : bytes ++ more ≠ [] := List.append_ne_nil_of_left_ne_nil hne more
    rw [sweep_of_ne_nil hne] at h
    rcases decode_append mode ip bytes more with hcut | hsame
    · -- The cut instruction is the last one.
      rw [hcut] at h
      have hlast : bytes.drop (Instruction.undecodable mode ip bytes.length).length = [] := List.drop_length
      rw [hlast, sweep_nil, List.mem_singleton] at h
      subst h
      exact .inl ⟨bytes.length, rfl⟩
    · rw [sweep_of_ne_nil hne', hsame, List.drop_append_of_le_length (length_decode_le mode ip bytes)]
      rcases List.mem_cons.1 h with rfl | h
      · exact .inr List.mem_cons_self
      · exact (ih h).imp_right (List.mem_cons_of_mem _)

end Encoding

/-! ## More code, more ways -/

theorem Instruction.nexts_mono {range range' : CodeRange} (i : Instruction)
    (h : ∀ a, range.contains a = true → range'.contains a = true) : i.nexts range ⊆ i.nexts range' := by
  have hfilter : ∀ l : List UInt64, l.filter range.contains ⊆ l.filter range'.contains := by
    intro l a ha
    obtain ⟨hmem, hin⟩ := List.mem_filter.1 ha
    exact List.mem_filter.2 ⟨hmem, h a hin⟩
  unfold nexts successors?
  split
  · exact List.Subset.refl _
  · split
    · exact hfilter _
    · exact hfilter _
    all_goals exact List.Subset.refl _

namespace ControlFlow

variable {mode : Bitness} {entry target c : UInt64} {code more : List UInt8} {i : Instruction}

theorem contains_append (hfits : entry.toNat + (code ++ more).length < UInt64.size) {a : UInt64}
    (ha : (CodeRange.of entry code).contains a = true) : (CodeRange.of entry (code ++ more)).contains a = true := by
  rw [List.length_append] at hfits
  simp only [CodeRange.contains, CodeRange.of, Bool.and_eq_true, decide_eq_true_eq, UInt64.le_iff_toNat_le,
    UInt64.lt_iff_toNat_lt, Encoding.toNat_add_toUInt64, List.length_append] at ha ⊢
  rw [Nat.mod_eq_of_lt (by omega)] at ha
  rw [Nat.mod_eq_of_lt (by omega)]
  omega

/-- **More code, more is reached:** of a longer code, too, everything that is not a cut instruction. -/
theorem isReached_append (hfits : entry.toNat + (code ++ more).length < UInt64.size)
    (h : IsReached (.of entry code) (Encoding.sweep mode entry code) i) :
    (∃ n, i = .undecodable mode i.ip n) ∨
      IsReached (.of entry (code ++ more)) (Encoding.sweep mode entry (code ++ more)) i := by
  induction h with
  | entry hi hip => exact (Encoding.mem_sweep_append more hi).imp_right fun hi => .entry hi hip
  | @step i j _ hj hstep ih =>
    rcases ih with ⟨n, hcut⟩ | hreached
    · rw [hcut, Instruction.nexts_of_isInvalid (Instruction.isInvalid_undecodable mode i.ip n)] at hstep
      cases hstep
    · have hstep' := i.nexts_mono (fun _ => contains_append hfits) hstep
      exact (Encoding.mem_sweep_append more hj).imp_right fun hj => .step hreached hj hstep'

theorem isReached_of_calls (hfits : entry.toNat + (code ++ more).length < UInt64.size)
    (h : IsReached (.of entry code) (Encoding.sweep mode entry code) i) (hcalls : i.Calls target) :
    IsReached (.of entry (code ++ more)) (Encoding.sweep mode entry (code ++ more)) i := by
  rcases isReached_append hfits h with ⟨n, hcut⟩ | hreached
  · have hnot := hcalls.1
    rw [hcut] at hnot
    cases hnot
  · exact hreached

/-- A call that is found in some code is found in a longer one, or one below it is. -/
theorem findCall?_append (hfits : entry.toNat + (code ++ more).length < UInt64.size)
    (h : (build mode code entry).findCall? target = some c) :
    ∃ c' ≤ c, (build mode (code ++ more) entry).findCall? target = some c' ∧
      ∃ i ∈ Encoding.sweep mode entry (code ++ more), i.ip = c' ∧ i.Calls target := by
  have hshort : entry.toNat + code.length < UInt64.size := by
    rw [List.length_append] at hfits
    omega
  have hspread := Encoding.isSpread_sweep mode entry (show code.length ≤ UInt64.size by omega)
  have hspread' := Encoding.isSpread_sweep mode entry (show (code ++ more).length ≤ UInt64.size by omega)
  have lowest := findCall?_listing hspread (Encoding.ascending_sweep mode (Nat.le_of_lt hshort)) target
  have lowest' := findCall?_listing hspread' (Encoding.ascending_sweep mode (Nat.le_of_lt hfits)) target
  obtain ⟨⟨i, hi, hcalls, rfl⟩, -⟩ := (lowest c).1 h
  have hi' := isReached_of_calls hfits hi hcalls
  have hmem := (mem_reachable_iff hspread').2 hi'
  obtain ⟨c', hc'⟩ : ∃ c', (ofInstructions (.of entry (code ++ more))
      (Encoding.sweep mode entry (code ++ more))).findCall? target = some c' := by
    rw [← Option.isSome_iff_exists, findCall?, Option.isSome_map, List.find?_isSome]
    exact ⟨i, hmem, by simp only [hcalls.1, hcalls.2, beq_self_eq_true, Bool.and_self]⟩
  obtain ⟨⟨j, hj, hjcalls, hjip⟩, hleast⟩ := (lowest' c').1 hc'
  exact ⟨c', hleast i hi' hcalls, hc', j, hj.mem, hjip, hjcalls⟩

end ControlFlow

/-! ## Wider windows -/

namespace Image

variable {image : Image} {symbols : SymbolSource} {anchor target : String} {function : UInt64} {window window' : Nat}
  {code : List UInt8} {site : CallSite} {flow : ControlFlow}

/-- A wider window shows the same code, and more behind it. -/
theorem functionCode_widen (hle : window ≤ window') (h : image.functionCode function window = .ok code) :
    ∃ more, image.functionCode function window' = .ok (code ++ more) := by
  rw [functionCode] at h
  cases hbytes : image.bytesFrom? function with
  | none =>
    rw [hbytes] at h
    cases h
  | some bytes =>
    rw [hbytes] at h
    cases h
    have hlength : image.codeLength function window ≤ image.codeLength function window' := by
      rw [codeLength, codeLength]
      cases image.functionAt? function with
      | none => exact hle
      | some extent => exact Nat.le_refl _
    obtain ⟨n, hn⟩ := Nat.exists_eq_add_of_le hlength
    refine ⟨(bytes.drop (image.codeLength function window)).take n, ?_⟩
    rw [functionCode, hbytes]
    simp only [hn, List.take_add]

end Image

namespace Resolver

/-- Two calls of the target. Only the branch at the very end leads to the lower one. -/
def callsBehindBranch : List UInt8 :=
  [0x74, 0x0c, 0xeb, 0x05, 0xe8, 0xf7, 0xff, 0, 0, 0xe8, 0xf2, 0xff, 0, 0, 0xeb, 0xf4]

end Resolver

namespace Image

/-- A jump over two bytes to a call, and filler behind the return. -/
def callBehindJump : List UInt8 :=
  [0xeb, 0x02, 0x90, 0x90, 0xe8, 0x07, 0, 2, 0, 0xc3, 0x90, 0x90, 0x90, 0x90, 0x90, 0x90]

end Image

end KernelOffsets
