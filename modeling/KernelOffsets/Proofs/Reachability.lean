/-
Blocks and instructions are reached alike. The instructions of the blocks that
a search finds are those that control can get to one by one
(`ControlFlow.mem_reachable_iff`), so the call that is found is the lowest one
that control can get to (`ControlFlow.findCall?_lowest`).
-/
import KernelOffsets.Proofs.Lookups
import Mathlib.Data.List.Flatten

namespace KernelOffsets

/-- The instructions of a list that control can get to from the start of their range. -/
inductive IsReached (range : CodeRange) (l : List Instruction) : Instruction → Prop where
  | entry {i : Instruction} (hi : i ∈ l) (hip : i.ip = range.start) : IsReached range l i
  | step {i j : Instruction} (hi : IsReached range l i) (hj : j ∈ l) (hstep : j.ip ∈ i.nexts range) :
    IsReached range l j

theorem IsReached.mem {range : CodeRange} {l : List Instruction} {i : Instruction} (h : IsReached range l i) :
    i ∈ l := by
  cases h with
  | entry hi _ => exact hi
  | step _ hj _ => exact hj

/-- A direct near call of a target. -/
def Instruction.Calls (i : Instruction) (target : UInt64) : Prop :=
  i.isNearCall = true ∧ i.nearTarget = target

namespace ControlFlow

variable {range : CodeRange} {l : List Instruction} {b : Block} {i : Instruction} {a : UInt64} {chain : List UInt64}

theorem mem_blocks_of_mem_reachable {f : ControlFlow} (hb : b ∈ f.reachable) : b ∈ f.blocks :=
  mem_byStart.1 (List.mem_of_mem_filter hb)

theorem mem_reachable {f : ControlFlow} (hb : b ∈ f.blocks) :
    b ∈ f.reachable ↔ ∃ chain, f.search.chains[b.start]? = some chain := by
  rw [reachable, List.mem_filter, mem_byStart, contains_iff]
  exact and_iff_right hb

section Listing

variable (h : IsListing range l)
include h

theorem isReached_block (hb : b ∈ (ofInstructions range l).blocks) (hhead : IsReached range l b.head) :
    ∀ i ∈ b.instructions, IsReached range l i :=
  (isChain_nexts h hb).induction _ _ (fun _ _ hstep hx => .step hx hstep.1 hstep.2) fun _ => hhead

theorem isReached_of_chain (ha : (ofInstructions range l).search.chains[a]? = some chain)
    (hb : b ∈ (ofInstructions range l).blocks) (hstart : b.start = a) : ∀ i ∈ b.instructions, IsReached range l i := by
  have hmem : b.head ∈ l := mem_listing hb List.mem_cons_self
  obtain ⟨-, htree⟩ := isTree_search ha
  induction chain generalizing a b with
  | nil => cases htree.head?_eq ha
  | cons c chain ih =>
    rcases htree.cases ha with ⟨rfl, -⟩ | ⟨p, rest, hchain, hp, block, hblock, hleads, -⟩
    · exact isReached_block h hb (.entry hmem hstart)
    · cases hchain
      obtain ⟨hblock_mem, hblock_start⟩ := (getElem?_index h).1 hblock
      have hlast := ih hp hblock_mem hblock_start (mem_listing hblock_mem List.mem_cons_self) _ block.last_mem
      refine isReached_block h hb (.step hlast hmem ?_)
      rw [← hstart] at hleads
      exact mem_nexts_of_mem_successors hblock_mem hleads

theorem chain_of_entry (hi : i ∈ l) (hip : i.ip = range.start) :
    ∃ b ∈ (ofInstructions range l).blocks, b.head = i ∧
      (ofInstructions range l).search.chains[b.start]? = some [b.start] := by
  obtain ⟨b, hb, hmem⟩ := exists_block range hi
  have hlead : (leaders range l).contains i.ip = true := by
    rw [hip, leaders, Std.HashSet.contains_ofList]
    simp
  have hhead := head_eq_of_contains hb hmem hlead
  have hstart : b.start = range.start := by rw [Block.start, hhead, hip]
  have hentry : (ofInstructions range l).index.contains (ofInstructions range l).entry = true :=
    contains_iff.2 ⟨b, (getElem?_index h).2 ⟨hb, hstart⟩⟩
  refine ⟨b, hb, hhead, ?_⟩
  rw [hstart]
  exact (exists_depth hentry).1.root

end Listing

section Spread

variable (h : IsSpread range l)
include h

/-- Every instruction that is reached stands in a block that is found. -/
theorem exists_chain_of_isReached (hi : IsReached range l i) :
    ∃ b ∈ (ofInstructions range l).blocks, i ∈ b.instructions ∧
      ∃ chain, (ofInstructions range l).search.chains[b.start]? = some chain := by
  have at_start : ∀ {i : Instruction}, i ∈ l → i.ip = range.start →
      ∃ b ∈ (ofInstructions range l).blocks, i ∈ b.instructions ∧
        ∃ chain, (ofInstructions range l).search.chains[b.start]? = some chain := by
    intro i hi hip
    obtain ⟨b, hb, rfl, hchain⟩ := chain_of_entry h.toIsListing hi hip
    exact ⟨b, hb, List.mem_cons_self, _, hchain⟩
  induction hi with
  | entry hi hip => exact at_start hi hip
  | step hi hj hstep ih =>
    obtain ⟨b, hb, hmem, chain, hchain⟩ := ih
    rcases exists_successor h hb hmem hj hstep with hsame | hstart | ⟨hleads, b', hb', rfl⟩
    · exact ⟨b, hb, hsame, chain, hchain⟩
    · exact at_start hj hstart
    · refine ⟨b', hb', List.mem_cons_self, exists_chain_of_leads hchain ?_⟩
      have hindex := (getElem?_index h.toIsListing).2 ⟨hb, rfl⟩
      have hindex' := (getElem?_index h.toIsListing).2 ⟨hb', rfl⟩
      exact ⟨b, hindex, hleads, contains_iff.2 ⟨b', hindex'⟩⟩

/-- **The blocks that are found** hold the instructions that are reached. -/
theorem mem_reachable_iff :
    i ∈ (ofInstructions range l).reachable.flatMap Block.instructions ↔ IsReached range l i := by
  rw [List.mem_flatMap]
  constructor
  · rintro ⟨b, hreach, hi⟩
    have hb := mem_blocks_of_mem_reachable hreach
    obtain ⟨chain, hchain⟩ := (mem_reachable hb).1 hreach
    exact isReached_of_chain h.toIsListing hchain hb rfl i hi
  · intro hi
    obtain ⟨b, hb, hmem, hchain⟩ := exists_chain_of_isReached h hi
    exact ⟨b, (mem_reachable hb).2 hchain, hmem⟩

theorem sublist_reachable : List.Sublist ((ofInstructions range l).reachable.flatMap Block.instructions) l := by
  conv => rhs; rw [← instructions_ofInstructions range l]
  rw [reachable_eq_filter h]
  exact List.filter_sublist.flatMap _

end Spread

/-- The first of ascending instructions is the lowest one. -/
theorem map_find?_eq_some_iff (h : l.Pairwise fun i j => i.ip < j.ip) (p : Instruction → Bool) (c : UInt64) :
    (l.find? p).map (·.ip) = some c ↔ (∃ i ∈ l, p i = true ∧ i.ip = c) ∧ ∀ j ∈ l, p j = true → c ≤ j.ip := by
  have lowest : ∀ {i}, l.find? p = some i → ∀ j ∈ l, p j = true → i.ip ≤ j.ip := by
    intro i hi j hj hpj
    obtain ⟨-, before, after, rfl, hbefore⟩ := List.find?_eq_some_iff_append.1 hi
    rcases List.mem_append.1 hj with hj | hj
    · have hnot := hbefore j hj
      rw [hpj] at hnot
      cases hnot
    · rcases List.mem_cons.1 hj with rfl | hj
      · exact UInt64.le_refl _
      · have hafter := (List.pairwise_append.1 h).2.1
        exact UInt64.le_of_lt (List.rel_of_pairwise_cons hafter hj)
  constructor
  · intro hc
    obtain ⟨i, hi, rfl⟩ := Option.map_eq_some_iff.1 hc
    exact ⟨⟨i, List.mem_of_find?_eq_some hi, List.find?_some hi, rfl⟩, lowest hi⟩
  · rintro ⟨⟨i, hi, hp, rfl⟩, hleast⟩
    obtain ⟨j, hj⟩ := Option.isSome_iff_exists.1 (List.find?_isSome.2 ⟨i, hi, hp⟩)
    rw [hj, Option.map_some]
    exact congrArg some (UInt64.le_antisymm (lowest hj i hi hp)
      (hleast j (List.mem_of_find?_eq_some hj) (List.find?_some hj)))

theorem findCall?_listing (h : IsSpread range l) (hup : l.Pairwise fun i j => i.ip < j.ip) (target c : UInt64) :
    (ofInstructions range l).findCall? target = some c ↔
      (∃ i, IsReached range l i ∧ i.Calls target ∧ i.ip = c) ∧
        ∀ j, IsReached range l j → j.Calls target → c ≤ j.ip := by
  rw [findCall?, map_find?_eq_some_iff (hup.sublist (sublist_reachable h))]
  simp only [mem_reachable_iff h, Bool.and_eq_true, beq_iff_eq, Instruction.Calls]

/--
**The call that is found** is the lowest of the near calls of the target that
control can get to, instruction by instruction; there is one if and only if
control can get to any.
-/
theorem findCall?_lowest (mode : Bitness) (code : List UInt8) (entry target : UInt64)
    (h : entry.toNat + code.length < UInt64.size) :
    (((build mode code entry).findCall? target).isSome = true ↔
      ∃ i, IsReached (.of entry code) (Encoding.sweep mode entry code) i ∧ i.Calls target) ∧
    ∀ c, (build mode code entry).findCall? target = some c ↔
      (∃ i, IsReached (.of entry code) (Encoding.sweep mode entry code) i ∧ i.Calls target ∧ i.ip = c) ∧
        ∀ j, IsReached (.of entry code) (Encoding.sweep mode entry code) j → j.Calls target → c ≤ j.ip := by
  have hspread := Encoding.isSpread_sweep mode entry (show code.length ≤ UInt64.size by omega)
  refine ⟨?_, findCall?_listing hspread (Encoding.ascending_sweep mode (Nat.le_of_lt h)) target⟩
  show ((ofInstructions (.of entry code) (Encoding.sweep mode entry code)).findCall? target).isSome = true ↔ _
  rw [findCall?, Option.isSome_map, List.find?_isSome]
  simp only [mem_reachable_iff hspread, Bool.and_eq_true, beq_iff_eq, Instruction.Calls]

/-- A jump over a call, to another call of the same target. -/
def skippedCall : List UInt8 :=
  [0xeb, 0x05, 0xe8, 0xf9, 0xff, 0, 0, 0xe8, 0xf4, 0xff, 0, 0, 0xc3]

/-- The lower call is decoded, but control cannot get to it. -/
theorem findCall?_lowest_skipped :
    (∃ i, IsReached (.of 0x10000 skippedCall) (Encoding.sweep .x64 0x10000 skippedCall) i ∧
      i.Calls 0x20000 ∧ i.ip = 0x10007) ∧
    (∀ i, IsReached (.of 0x10000 skippedCall) (Encoding.sweep .x64 0x10000 skippedCall) i →
      i.Calls 0x20000 → 0x10007 ≤ i.ip) ∧
    ((Encoding.sweep .x64 0x10000 skippedCall).find? fun i => i.isNearCall && i.nearTarget == 0x20000).map (·.ip)
      = some 0x10002 := by
  have hfound : (build .x64 skippedCall 0x10000).findCall? 0x20000 = some 0x10007 := by
    rw [findCall?_build (by decide)]
    decide +kernel
  obtain ⟨hreached, hlowest⟩ := ((findCall?_lowest .x64 skippedCall 0x10000 0x20000 (by decide)).2 _).1 hfound
  refine ⟨hreached, hlowest, ?_⟩
  rw [Encoding.sweep_eq_sweepWithin (Nat.le_refl _)]
  decide +kernel

end ControlFlow

end KernelOffsets
