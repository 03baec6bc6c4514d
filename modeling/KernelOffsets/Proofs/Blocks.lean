/-
The blocks of a listing. An instruction is in one block only
(`ControlFlow.eq_of_ip_eq`); inside a block control goes on from one
instruction to the next, and where it goes after the last one is what the
block says. So a step of control stays in a block, or goes to the head of one
of its successors, or back to the start (`ControlFlow.exists_successor`).
-/
import KernelOffsets.ControlFlow.Cover
import KernelOffsets.Proofs.Search
import KernelOffsets.Proofs.Sweep

namespace KernelOffsets

/-- Where control can go after an instruction. -/
def Instruction.nexts (i : Instruction) (range : CodeRange) : List UInt64 :=
  (i.successors? range).getD [i.nextIp]

theorem Instruction.nexts_of_isInvalid {i : Instruction} {range : CodeRange} (h : i.isInvalid = true) :
    i.nexts range = [] := by
  simp [nexts, successors?, h]

theorem Instruction.nexts_of_none {i : Instruction} {range : CodeRange} (h : i.successors? range = none) :
    i.nexts range = [i.nextIp] := by
  rw [nexts, h, Option.getD_none]

theorem Instruction.contains_of_mem_successors? {i : Instruction} {range : CodeRange} {successors : List UInt64}
    {a : UInt64} (h : i.successors? range = some successors) (ha : a ∈ successors) : range.contains a = true := by
  unfold successors? at h
  split at h
  · cases h
    cases ha
  · split at h <;> cases h
    · exact (List.mem_filter.1 ha).2
    · exact (List.mem_filter.1 ha).2
    all_goals cases ha

namespace Block

theorem last_mem (b : Block) : last b.head b.tail ∈ b.instructions := List.getLast_mem _

theorem getLast?_append_instructions (l : List Instruction) (b : Block) :
    (l ++ b.instructions).getLast? = some (last b.head b.tail) := by
  rw [instructions, List.getLast?_append_of_ne_nil _ (List.cons_ne_nil _ _)]
  exact List.getLast?_eq_some_getLast _

theorem successors_eq {range : CodeRange} {run : List Instruction} {b : Block} (h : ofRun range run = some b) :
    b.successors = ((last b.head b.tail).successors? range).getD
      ([(last b.head b.tail).nextIp].filter range.contains) := by
  cases run with
  | nil => cases h
  | cons head tail => cases h; rfl

end Block

namespace ControlFlow

variable {range : CodeRange} {l : List Instruction} {b b' : Block} {i j : Instruction}

theorem mem_listing (hb : b ∈ (ofInstructions range l).blocks) (hi : i ∈ b.instructions) : i ∈ l := by
  rw [← instructions_ofInstructions range l]
  exact List.mem_flatMap.2 ⟨b, hb, hi⟩

theorem exists_block (range : CodeRange) (hi : i ∈ l) : ∃ b ∈ (ofInstructions range l).blocks, i ∈ b.instructions := by
  rw [← instructions_ofInstructions range l] at hi
  exact List.mem_flatMap.1 hi

theorem successors_eq (hb : b ∈ (ofInstructions range l).blocks) :
    b.successors = ((Block.last b.head b.tail).successors? range).getD
      ([(Block.last b.head b.tail).nextIp].filter range.contains) := by
  obtain ⟨run, -, hrun⟩ := List.mem_filterMap.1 hb
  exact Block.successors_eq hrun

theorem mem_nexts_of_mem_successors (hb : b ∈ (ofInstructions range l).blocks) {a : UInt64}
    (ha : a ∈ b.successors) : a ∈ (Block.last b.head b.tail).nexts range := by
  rw [successors_eq hb] at ha
  unfold Instruction.nexts
  cases h : (Block.last b.head b.tail).successors? range with
  | some successors => rwa [h] at ha
  | none =>
    rw [h] at ha
    exact List.mem_of_mem_filter ha

theorem contains_of_mem_successors (hb : b ∈ (ofInstructions range l).blocks) {a : UInt64}
    (ha : a ∈ b.successors) : range.contains a = true := by
  rw [successors_eq hb] at ha
  cases h : (Block.last b.head b.tail).successors? range with
  | some successors =>
    rw [h] at ha
    exact Instruction.contains_of_mem_successors? h ha
  | none =>
    rw [h] at ha
    exact (List.mem_filter.1 ha).2

/-- Inside a block no instruction ends one, and none but the first one has to start one. -/
theorem isChain_continues (hb : b ∈ (ofInstructions range l).blocks) :
    b.instructions.IsChain fun x y => continues range (leaders range l) x y = true :=
  List.isChain_of_mem_splitBy (instructions_mem_runs hb)

theorem flatMap_split {before after : List Block} (h : (ofInstructions range l).blocks = before ++ b :: after) :
    before.flatMap Block.instructions ++ b.instructions ++ after.flatMap Block.instructions = l := by
  conv => rhs; rw [← instructions_ofInstructions range l]
  rw [instructions, h, List.flatMap_append, List.flatMap_cons, List.append_assoc]

/-- What stands before and after a block; after it, nothing or another block. -/
theorem exists_split (hb : b ∈ (ofInstructions range l).blocks) :
    ∃ before after, l = before ++ b.instructions ++ after ∧
      (after = [] ∨ ∃ b' ∈ (ofInstructions range l).blocks, after.head? = some b'.head) := by
  obtain ⟨blocks, blocks', hblocks⟩ := List.append_of_mem hb
  refine ⟨_, _, (flatMap_split hblocks).symm, ?_⟩
  cases blocks' with
  | nil => exact .inl rfl
  | cons b' blocks' => exact .inr ⟨b', by simp [hblocks], rfl⟩

theorem eq_last_or_continues (hb : b ∈ (ofInstructions range l).blocks) (hi : i ∈ b.instructions) :
    i = Block.last b.head b.tail ∨ ∃ k ∈ b.instructions, continues range (leaders range l) i k = true ∧
      [i, k] <:+: b.instructions := by
  have hchain := isChain_continues hb
  obtain ⟨before, after, hsplit⟩ := List.append_of_mem hi
  cases after with
  | nil =>
    left
    have hlast : b.instructions.getLast (List.cons_ne_nil _ _) = i := by simp [hsplit]
    exact hlast.symm
  | cons k after =>
    right
    rw [hsplit] at hchain ⊢
    have hpair := (List.isChain_append.1 hchain).2.1
    exact ⟨k, by simp, (List.isChain_cons_cons.1 hpair).1, before, after, by simp⟩

/-- A block must start at the start, behind an instruction that ends one, and where such an instruction leads. -/
theorem contains_leaders_iff {a : UInt64} :
    (leaders range l).contains a = true ↔
      a = range.start ∨ ∃ k ∈ l, ∃ successors, k.successors? range = some successors ∧
        (a = k.nextIp ∨ a ∈ successors) := by
  rw [leaders, Std.HashSet.contains_ofList, List.contains_iff_mem, List.mem_cons, List.mem_flatMap]
  refine or_congr_right (exists_congr fun k => and_congr_right fun _ => ?_)
  cases k.successors? range <;> simp

theorem head_eq_of_contains (hb : b ∈ (ofInstructions range l).blocks) (hj : j ∈ b.instructions)
    (hlead : (leaders range l).contains j.ip = true) : b.head = j := by
  rcases List.mem_cons.1 hj with rfl | htail
  · rfl
  · obtain ⟨before, after, hsplit⟩ := List.append_of_mem htail
    have hchain := isChain_continues hb
    have hinstructions : b.instructions = (b.head :: before) ++ j :: after := by
      rw [Block.instructions, hsplit, List.cons_append]
    rw [hinstructions] at hchain
    obtain ⟨-, -, hjoin⟩ := List.isChain_append.1 hchain
    have hcontinues := hjoin _ (List.getLast?_eq_some_getLast (List.cons_ne_nil _ _)) j rfl
    rw [continues, hlead, Bool.not_true, Bool.and_false] at hcontinues
    cases hcontinues

theorem map_instructions (range : CodeRange) (l : List Instruction) :
    (ofInstructions range l).blocks.map Block.instructions = runs range l := by
  have hmap : ∀ runs : List (List Instruction), [] ∉ runs →
      (runs.filterMap (Block.ofRun range)).map Block.instructions = runs := by
    intro runs
    induction runs with
    | nil => simp
    | cons run runs ih =>
      intro hnil
      rw [List.mem_cons, not_or] at hnil
      cases run with
      | nil => exact absurd rfl hnil.1
      | cons head tail => simpa [Block.ofRun, Block.instructions] using ih hnil.2
  exact hmap _ (List.nil_notMem_splitBy _ _)

/-- Between two blocks there is a reason to end the first one. -/
theorem isChain_blocks (range : CodeRange) (l : List Instruction) :
    (ofInstructions range l).blocks.IsChain fun b b' =>
      continues range (leaders range l) (Block.last b.head b.tail) b'.head = false := by
  have hruns := List.isChain_getLast_head_splitBy (continues range (leaders range l)) l
  rw [← runs, ← map_instructions, List.isChain_map] at hruns
  exact hruns.imp fun _ _ ⟨_, _, hends⟩ => hends

/-! ## Distinct addresses -/

section Listing

variable (h : IsListing range l)
include h

theorem pairwise_blocks : (ofInstructions range l).blocks.Pairwise fun b b' =>
    ∀ x ∈ b.instructions, ∀ y ∈ b'.instructions, x.ip ≠ y.ip := by
  have hpairs := h.distinct
  rw [← instructions_ofInstructions range l] at hpairs
  exact (List.pairwise_flatMap.1 hpairs).2

/-- **An address belongs to one instruction**, which is in one block. -/
theorem eq_of_ip_eq (hb : b ∈ (ofInstructions range l).blocks) (hb' : b' ∈ (ofInstructions range l).blocks)
    (hi : i ∈ b.instructions) (hj : j ∈ b'.instructions) (hip : i.ip = j.ip) : b = b' ∧ i = j := by
  constructor
  · by_contra hne
    have hsymm : Std.Symm fun b b' : Block => ∀ x ∈ b.instructions, ∀ y ∈ b'.instructions, x.ip ≠ y.ip :=
      ⟨fun b b' hne x hx y hy heq => hne y hy x hx heq.symm⟩
    exact (pairwise_blocks h).forall hb hb' hne i hi j hj hip
  · by_contra hne
    have hsymm : Std.Symm fun i j : Instruction => i.ip ≠ j.ip := ⟨fun _ _ hne => hne.symm⟩
    exact h.distinct.forall (mem_listing hb hi) (mem_listing hb' hj) hne hip

theorem getElem?_index {a : UInt64} :
    (ofInstructions range l).index[a]? = some b ↔ b ∈ (ofInstructions range l).blocks ∧ b.start = a := by
  have head_mem : ∀ b : Block, b.head ∈ b.instructions := fun b => List.mem_cons_self
  have hkeys : ((ofInstructions range l).blocks.map fun b => (b.start, b)).Pairwise
      fun p q => (p.1 == q.1) = false := by
    rw [List.pairwise_map]
    exact (pairwise_blocks h).imp fun hne => beq_false_of_ne (hne _ (head_mem _) _ (head_mem _))
  have found : ∀ {b : Block}, b ∈ (ofInstructions range l).blocks →
      (ofInstructions range l).index[b.start]? = some b := fun hb =>
    Std.HashMap.getElem?_ofList_of_mem (beq_self_eq_true _) hkeys (List.mem_map_of_mem hb)
  constructor
  · intro hsome
    have hcontains : (ofInstructions range l).index.contains a = true := contains_iff.2 ⟨b, hsome⟩
    rw [index, Std.HashMap.contains_ofList, List.contains_iff_mem, List.map_map] at hcontains
    obtain ⟨b', hb', rfl⟩ := List.mem_map.1 hcontains
    obtain rfl := Option.some.inj (hsome.symm.trans (found hb'))
    exact ⟨hb', rfl⟩
  · rintro ⟨hb, rfl⟩
    exact found hb

theorem isChain_block (hb : b ∈ (ofInstructions range l).blocks) :
    b.instructions.IsChain fun x y => y.ip = x.nextIp := by
  obtain ⟨before, after, hl, -⟩ := exists_split hb
  have hchain := h.consecutive
  rw [hl] at hchain
  exact (List.isChain_append.1 (List.isChain_append.1 hchain).1).2.1

/-- Inside a block each instruction goes on by itself to the one behind it, where no block has to start. -/
theorem isChain_onward (hb : b ∈ (ofInstructions range l).blocks) :
    b.instructions.IsChain fun x y => y ∈ l ∧ y.ip = x.nextIp ∧ x.successors? range = none ∧
      (leaders range l).contains y.ip = false := by
  refine (List.isChain_isInfix b.instructions).imp fun x y hpair => ?_
  have hcontinues := List.isChain_pair.1 <| List.IsChain.infix (isChain_continues hb) hpair
  have hnext := List.isChain_pair.1 <| List.IsChain.infix (isChain_block h hb) hpair
  rw [continues, Bool.and_eq_true, Option.isNone_iff_eq_none, Bool.not_eq_true'] at hcontinues
  exact ⟨mem_listing hb (hpair.subset (by simp)), hnext, hcontinues⟩

theorem isChain_nexts (hb : b ∈ (ofInstructions range l).blocks) :
    b.instructions.IsChain fun x y => y ∈ l ∧ y.ip ∈ x.nexts range := by
  refine (isChain_onward h hb).imp fun x y hstep => ⟨hstep.1, ?_⟩
  rw [Instruction.nexts_of_none hstep.2.2.1, hstep.2.1]
  exact List.mem_singleton_self _

theorem nextIp_last (hb : b ∈ (ofInstructions range l).blocks) :
    Block.last b.head b.tail ∈ l.getLast? ∨
      ∃ b' ∈ (ofInstructions range l).blocks, b'.start = (Block.last b.head b.tail).nextIp := by
  obtain ⟨before, after, hl, hafter⟩ := exists_split hb
  have hlast := Block.getLast?_append_instructions before b
  rcases hafter with rfl | ⟨b', hb', hhead⟩
  · left
    rw [hl, List.append_nil]
    exact hlast
  · right
    have hchain := h.consecutive
    rw [hl] at hchain
    exact ⟨b', hb', (List.isChain_append.1 hchain).2.2 _ hlast _ hhead⟩

theorem contains_leaders_start (hb : b ∈ (ofInstructions range l).blocks) :
    (leaders range l).contains b.start = true := by
  obtain ⟨blocks, blocks', hblocks⟩ := List.append_of_mem hb
  have hl := flatMap_split hblocks
  have hchain := h.consecutive
  have hends := isChain_blocks range l
  rw [List.append_assoc] at hl
  rw [hblocks] at hends
  rcases List.eq_nil_or_concat blocks with rfl | ⟨blocks, b₀, rfl⟩
  · refine contains_leaders_iff.2 (.inl (h.first b.head ?_))
    rw [← hl]
    rfl
  · have hends := (List.isChain_append.1 hends).2.2 b₀ (by simp) b rfl
    rw [← hl, List.concat_eq_append, List.flatMap_append, List.flatMap_singleton] at hchain
    have hnext := (List.isChain_append.1 hchain).2.2 _ (Block.getLast?_append_instructions _ b₀) b.head rfl
    have hb₀ : b₀ ∈ (ofInstructions range l).blocks := by simp [hblocks]
    have hmem := mem_listing hb₀ b₀.last_mem
    rw [continues, Bool.and_eq_false_iff, Option.isNone_eq_false_iff, Bool.not_eq_false'] at hends
    rcases hends with hsome | hlead
    · obtain ⟨successors, hs⟩ := Option.isSome_iff_exists.1 hsome
      exact contains_leaders_iff.2 (.inr ⟨_, hmem, successors, hs, .inl hnext⟩)
    · exact hlead

theorem eq_of_behind {k : Instruction} (hi : [i, k] <:+: l) (hj : [j, k] <:+: l) : i = j := by
  obtain ⟨m, hm, hi⟩ := List.infix_iff_getElem?.1 hi
  obtain ⟨n, hn, hj⟩ := List.infix_iff_getElem?.1 hj
  have hnodup : l.Nodup := h.distinct.imp fun hne heq => hne (congrArg _ heq)
  simp only [List.length_cons, List.length_nil] at hm
  have hsame := (List.getElem?_inj (show 1 + m < l.length by omega) hnodup).1
    ((hi 1 (by simp)).trans (hj 1 (by simp)).symm)
  obtain rfl : m = n := by omega
  exact Option.some.inj ((hi 0 (by simp)).symm.trans (hj 0 (by simp)))

end Listing

section Spread

variable (h : IsSpread range l)
include h

/-- Who stands at the next address stands right behind, unless it is the start. -/
theorem eq_start_or_behind (hi : i ∈ l) (hj : j ∈ l) (hnext : j.ip = i.nextIp) :
    j.ip = range.start ∨ [i, j] <:+: l := by
  obtain ⟨before, after, hl⟩ := List.append_of_mem hi
  cases after with
  | nil =>
    left
    exact h.ending i (by simp [hl]) j hj hnext
  | cons k after =>
    right
    have hchain := h.consecutive
    rw [hl] at hchain
    have hk := (List.isChain_cons_cons.1 (List.isChain_append.1 hchain).2.1).1
    have hsymm : Std.Symm fun i j : Instruction => i.ip ≠ j.ip := ⟨fun _ _ hne => hne.symm⟩
    have hkj : k = j := by
      by_contra hne
      exact h.distinct.forall (by simp [hl]) hj hne (hk.trans hnext.symm)
    subst hkj
    exact ⟨before, after, by simp [hl]⟩

/-- Where a block goes on into the next one by itself, it leads there. -/
theorem mem_successors_of_none {b' : Block} (hb : b ∈ (ofInstructions range l).blocks)
    (hb' : b' ∈ (ofInstructions range l).blocks) (hnone : (Block.last b.head b.tail).successors? range = none)
    (hnext : b'.start = (Block.last b.head b.tail).nextIp) : b'.start = range.start ∨ b'.start ∈ b.successors := by
  have hlast := mem_listing hb b.last_mem
  have hhead : b'.head ∈ l := mem_listing hb' List.mem_cons_self
  rcases h.inside with hinside | hempty
  · right
    rw [successors_eq hb, hnone, Option.getD_none, List.mem_filter, List.mem_singleton]
    exact ⟨hnext, hinside _ hhead⟩
  · -- In an empty range no branch leads anywhere, so blocks start only behind those that end by themselves.
    left
    rcases contains_leaders_iff.1 (contains_leaders_start h.toIsListing hb') with hstart | ⟨k, hk, successors, hs, ha⟩
    · exact hstart
    · rcases ha with ha | ha
      · rcases eq_start_or_behind h hk hhead ha with hstart | hbehind
        · exact hstart
        · rcases eq_start_or_behind h hlast hhead hnext with hstart | hbehind'
          · exact hstart
          · rw [eq_of_behind h.toIsListing hbehind' hbehind, hs] at hnone
            cases hnone
      · have hcontains := Instruction.contains_of_mem_successors? hs ha
        rw [hempty] at hcontains
        cases hcontains

/--
**A step of control** stays in the block, or goes to the head of a block that
this block leads to, or back to the start.
-/
theorem exists_successor (hb : b ∈ (ofInstructions range l).blocks)
    (hi : i ∈ b.instructions) (hj : j ∈ l) (hstep : j.ip ∈ i.nexts range) :
    j ∈ b.instructions ∨ j.ip = range.start ∨
      j.ip ∈ b.successors ∧ ∃ b' ∈ (ofInstructions range l).blocks, b'.head = j := by
  obtain ⟨bj, hbj, hjmem⟩ := exists_block range hj
  rcases eq_last_or_continues hb hi with rfl | ⟨k, hk, hcontinues, hpair⟩
  · right
    cases hs : (Block.last b.head b.tail).successors? range with
    | some successors =>
      right
      rw [Instruction.nexts, hs] at hstep
      have hlead : (leaders range l).contains j.ip = true :=
        contains_leaders_iff.2 (.inr ⟨_, mem_listing hb b.last_mem, successors, hs, .inr hstep⟩)
      rw [successors_eq hb, hs]
      exact ⟨hstep, bj, hbj, head_eq_of_contains hbj hjmem hlead⟩
    | none =>
      rw [Instruction.nexts, hs] at hstep
      have hnext : j.ip = (Block.last b.head b.tail).nextIp := List.mem_singleton.1 hstep
      rcases nextIp_last h.toIsListing hb with hlast | ⟨b', hb', hstart⟩
      · exact .inl (h.ending _ hlast j hj hnext)
      · obtain ⟨-, rfl⟩ := eq_of_ip_eq h.toIsListing hb' hbj List.mem_cons_self hjmem (hstart.trans hnext.symm)
        exact (mem_successors_of_none h hb hb' hs hstart).imp_right fun hmem => ⟨hmem, b', hb', rfl⟩
  · left
    have hnone : i.successors? range = none := by
      rw [continues, Bool.and_eq_true] at hcontinues
      exact Option.isNone_iff_eq_none.1 hcontinues.1
    have hk_ip : k.ip = i.nextIp := by
      have hchain := List.IsChain.infix (isChain_block h.toIsListing hb) hpair
      exact (List.isChain_cons_cons.1 hchain).1
    rw [Instruction.nexts, hnone] at hstep
    have hj_ip : j.ip = i.nextIp := List.mem_singleton.1 hstep
    obtain ⟨rfl, rfl⟩ := eq_of_ip_eq h.toIsListing hbj hb hjmem hk (hj_ip.trans hk_ip.symm)
    exact hjmem

/-- Where an instruction goes on by itself and no block has to start, its block goes on too. -/
theorem mem_block_of_nextIp (hb : b ∈ (ofInstructions range l).blocks) (hi : i ∈ b.instructions) (hj : j ∈ l)
    (hnext : j.ip = i.nextIp) (hnone : i.successors? range = none)
    (hlead : (leaders range l).contains j.ip = false) : j ∈ b.instructions := by
  have hstep : j.ip ∈ i.nexts range := by
    rw [Instruction.nexts_of_none hnone, hnext]
    exact List.mem_singleton_self _
  rcases exists_successor h hb hi hj hstep with hmem | hstart | ⟨-, b', hb', rfl⟩
  · exact hmem
  · rw [contains_leaders_iff.2 (.inl hstart)] at hlead
    cases hlead
  · have hcontains := contains_leaders_start h.toIsListing hb'
    rw [Block.start, hlead] at hcontains
    cases hcontains

end Spread

end ControlFlow

end KernelOffsets
