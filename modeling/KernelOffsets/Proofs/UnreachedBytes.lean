/-
Bytes that control does not get to. Decoding at the entry and then wherever
control can go explores a part of the code (`Explored`), and codes with the
same bytes there explore the same (`SameExplored.explored_iff`). The blocks
are made from one sweep over all bytes, so the rest can still shift the
instructions and split the blocks (`ControlFlow.unexplored_matters`); where it
does neither, the same calls and paths are found
(`ControlFlow.unexplored_irrelevant`).
-/
import KernelOffsets.Proofs.ShortestPath
import Mathlib.Data.List.Sort

namespace KernelOffsets

/-! ## Exploring code -/

/-- The instruction that the bytes at an address of some code are. -/
def instructionAt (mode : Bitness) (code : List UInt8) (entry a : UInt64) : Instruction :=
  Encoding.decode mode a (code.drop (a - entry).toNat)

/-- The addresses that control can get to, each instruction decoded where control gets to it. -/
inductive Explored (mode : Bitness) (code : List UInt8) (entry : UInt64) : UInt64 → Prop where
  | entry (hin : 0 < code.length) : Explored mode code entry entry
  | step {a b : UInt64} (ha : Explored mode code entry a)
    (hstep : b ∈ (instructionAt mode code entry a).nexts (.of entry code))
    (hin : (b - entry).toNat < code.length) : Explored mode code entry b

/-- Codes of one length with the same bytes in every explored instruction. -/
structure SameExplored (mode : Bitness) (entry : UInt64) (code code' : List UInt8) : Prop where
  length : code.length = code'.length
  bytes : ∀ a, Explored mode code entry a → ∀ k < (instructionAt mode code entry a).length,
    code[(a - entry).toNat + k]? = code'[(a - entry).toNat + k]?

variable {mode : Bitness} {entry a b : UInt64} {code code' : List UInt8} {i : Instruction}

namespace SameExplored

variable (h : SameExplored mode entry code code')
include h

theorem range_eq : CodeRange.of entry code' = .of entry code := by
  rw [CodeRange.of, CodeRange.of, h.length]

theorem instructionAt_eq (ha : Explored mode code entry a) :
    instructionAt mode code' entry a = instructionAt mode code entry a := by
  refine Encoding.decode_congr (by rw [List.length_drop, List.length_drop, h.length]) ?_
  refine List.ext_getElem? fun k => ?_
  rw [List.getElem?_take, List.getElem?_take]
  split
  · next hk =>
    rw [List.getElem?_drop, List.getElem?_drop]
    exact h.bytes a ha k hk
  · rfl

theorem explored (ha : Explored mode code entry a) : Explored mode code' entry a := by
  induction ha with
  | entry hin => exact .entry (h.length ▸ hin)
  | step ha hstep hin ih =>
    rw [← h.instructionAt_eq ha, ← h.range_eq] at hstep
    exact .step ih hstep (h.length ▸ hin)

/-- **The same is explored** in both codes. -/
theorem explored_iff (a : UInt64) : Explored mode code' entry a ↔ Explored mode code entry a := by
  refine ⟨fun ha => ?_, h.explored⟩
  induction ha with
  | entry hin => exact .entry (h.length ▸ hin)
  | step _ hstep hin ih =>
    rw [h.instructionAt_eq ih, h.range_eq] at hstep
    exact .step ih hstep (h.length ▸ hin)

theorem symm : SameExplored mode entry code' code := by
  refine ⟨h.length.symm, fun a ha k hk => ?_⟩
  have ha := (h.explored_iff a).1 ha
  rw [h.instructionAt_eq ha] at hk
  exact (h.bytes a ha k hk).symm

end SameExplored

/-! ## The sweep over all bytes -/

namespace ControlFlow

variable (hsize : code.length ≤ UInt64.size)
include hsize

theorem mem_sweep (hi : i ∈ Encoding.sweep mode entry code) :
    i = instructionAt mode code entry i.ip ∧ (i.ip - entry).toNat < code.length := by
  obtain ⟨n, hn, rfl⟩ := Encoding.exists_offset hi
  have hdistance : (entry + n.toUInt64 - entry).toNat = n := by
    rw [Encoding.add_toUInt64_sub, Encoding.toNat_toUInt64 (by omega)]
  rw [Encoding.ip_decode, instructionAt, hdistance]
  exact ⟨rfl, hn⟩

theorem explored_of_isReached (hi : IsReached (.of entry code) (Encoding.sweep mode entry code) i) :
    Explored mode code entry i.ip := by
  induction hi with
  | entry hi hip =>
    obtain ⟨-, hin⟩ := mem_sweep hsize hi
    rw [hip]
    exact .entry (Nat.lt_of_le_of_lt (Nat.zero_le _) hin)
  | step hi hj hstep ih =>
    obtain ⟨heq, -⟩ := mem_sweep hsize hi.mem
    rw [heq] at hstep
    exact .step ih hstep (mem_sweep hsize hj).2

end ControlFlow

/-- Explored instructions that stand in one of two sweeps stand in the other one. -/
def InStep (mode : Bitness) (entry : UInt64) (code code' : List UInt8) : Prop :=
  ∀ a, Explored mode code entry a →
    ((∃ i ∈ Encoding.sweep mode entry code, i.ip = a) ↔ ∃ i ∈ Encoding.sweep mode entry code', i.ip = a)

/-- Blocks of two sweeps have to start at the same explored addresses. -/
def SameStarts (mode : Bitness) (entry : UInt64) (code code' : List UInt8) : Prop :=
  ∀ a, Explored mode code entry a →
    (ControlFlow.leaders (.of entry code) (Encoding.sweep mode entry code)).contains a =
      (ControlFlow.leaders (.of entry code') (Encoding.sweep mode entry code')).contains a

theorem InStep.symm (h : SameExplored mode entry code code') (hstep : InStep mode entry code code') :
    InStep mode entry code' code := fun a ha => (hstep a ((h.explored_iff a).1 ha)).symm

theorem SameStarts.symm (h : SameExplored mode entry code code') (hstarts : SameStarts mode entry code code') :
    SameStarts mode entry code' code := fun a ha => (hstarts a ((h.explored_iff a).1 ha)).symm

/-- Instructions at growing distances are determined by which they are. -/
theorem eq_of_rising {l l' : List Instruction} (h : l.Pairwise fun i j => i.ip - a < j.ip - a)
    (h' : l'.Pairwise fun i j => i.ip - a < j.ip - a) (hmem : ∀ i, i ∈ l ↔ i ∈ l') : l = l' := by
  have hantisymm : Std.Antisymm fun i j : Instruction => i.ip - a < j.ip - a :=
    ⟨fun i j hij hji => absurd hji (UInt64.lt_asymm hij)⟩
  have hirrefl : Std.Irrefl fun i j : Instruction => i.ip - a < j.ip - a := ⟨fun i => UInt64.lt_irrefl _⟩
  exact h.eq_of_mem_iff h' hmem

/-! ## Calls -/

namespace ControlFlow

section InStep

variable (hsize : code.length ≤ UInt64.size) (h : SameExplored mode entry code code')
  (hstep : InStep mode entry code code')
include hsize h hstep

theorem mem_sweep_of_explored (hi : i ∈ Encoding.sweep mode entry code) (ha : Explored mode code entry i.ip) :
    i ∈ Encoding.sweep mode entry code' := by
  obtain ⟨j, hj, hip⟩ := (hstep i.ip ha).1 ⟨i, hi, rfl⟩
  have hi := (mem_sweep hsize hi).1
  have hj' := (mem_sweep (h.length ▸ hsize) hj).1
  rw [hip, h.instructionAt_eq ha, ← hi] at hj'
  exact hj' ▸ hj

theorem isReached_of_inStep (hi : IsReached (.of entry code) (Encoding.sweep mode entry code) i) :
    IsReached (.of entry code') (Encoding.sweep mode entry code') i := by
  induction hi with
  | entry hi hip =>
    have ha := explored_of_isReached hsize (.entry hi hip)
    exact .entry (mem_sweep_of_explored hsize h hstep hi ha) hip
  | step hi hj hnext ih =>
    have ha := explored_of_isReached hsize (.step hi hj hnext)
    rw [← h.range_eq] at hnext
    exact .step ih (mem_sweep_of_explored hsize h hstep hj ha) hnext

/-- **In step, the same instructions are found**, however they are divided into blocks. -/
theorem reachable_eq :
    (build mode code entry).reachable.flatMap Block.instructions =
      (build mode code' entry).reachable.flatMap Block.instructions := by
  have hsize' : code'.length ≤ UInt64.size := h.length ▸ hsize
  have hspread := Encoding.isSpread_sweep mode entry hsize
  have hspread' := Encoding.isSpread_sweep mode entry hsize'
  refine eq_of_rising (a := entry) (hspread.rising.sublist (sublist_reachable hspread))
    (hspread'.rising.sublist (sublist_reachable hspread')) fun i => ?_
  refine (mem_reachable_iff hspread).trans (Iff.trans ?_ (mem_reachable_iff hspread').symm)
  exact ⟨isReached_of_inStep hsize h hstep, isReached_of_inStep hsize' h.symm (hstep.symm h)⟩

end InStep

/-! ## Paths -/

variable {b b' : Block}

section One

variable (hsize : code.length ≤ UInt64.size)
include hsize

theorem toNat_sub_lt_of_contains (ha : (CodeRange.of entry code).contains a = true) :
    (a - entry).toNat < code.length := by
  by_cases hfits : entry.toNat + code.length < UInt64.size
  · simp only [CodeRange.contains, CodeRange.of, Bool.and_eq_true, decide_eq_true_eq, UInt64.le_iff_toNat_le,
      UInt64.lt_iff_toNat_lt, Encoding.toNat_add_toUInt64, Nat.mod_eq_of_lt hfits] at ha
    rw [UInt64.toNat_sub_of_le _ _ (UInt64.le_iff_toNat_le.2 ha.1)]
    omega
  · rw [Encoding.contains_eq_false (Nat.le_of_not_lt hfits) hsize] at ha
    cases ha

theorem explored_block (hb : b ∈ (build mode code entry).blocks) (ha : Explored mode code entry b.start) :
    ∀ i ∈ b.instructions, i ∈ Encoding.sweep mode entry code ∧ Explored mode code entry i.ip := by
  have hlisting := Encoding.isListing_sweep mode entry hsize
  refine (isChain_nexts hlisting hb).induction _ _ ?_ fun _ => ⟨mem_listing hb List.mem_cons_self, ha⟩
  rintro x y ⟨hy, hnext⟩ ⟨hx, hexplored⟩
  rw [(mem_sweep hsize hx).1] at hnext
  exact ⟨hy, .step hexplored hnext (mem_sweep hsize hy).2⟩

theorem explored_of_chain {chain : List UInt64} (ha : (build mode code entry).search.chains[a]? = some chain) :
    Explored mode code entry a := by
  have hlisting := Encoding.isListing_sweep mode entry hsize
  obtain ⟨hentry, htree⟩ := isTree_search ha
  obtain ⟨b, hindex⟩ := contains_iff.1 (contains_of_leads htree hentry ha)
  obtain ⟨hb, rfl⟩ := (getElem?_index hlisting).1 hindex
  exact explored_of_isReached hsize (isReached_of_chain hlisting ha hb rfl b.head List.mem_cons_self)

theorem explored_of_mem_successors (hb : b ∈ (build mode code entry).blocks) (ha : Explored mode code entry b.start)
    {c : UInt64} (hc : c ∈ b.successors) : Explored mode code entry c := by
  obtain ⟨hmem, hlast⟩ := explored_block hsize hb ha _ b.last_mem
  have hnext := mem_nexts_of_mem_successors hb hc
  have hin := contains_of_mem_successors hb hc
  rw [(mem_sweep hsize hmem).1] at hnext
  exact .step hlast hnext (toNat_sub_lt_of_contains hsize hin)

end One

section Both

variable (hsize : code.length ≤ UInt64.size) (h : SameExplored mode entry code code')
  (hstep : InStep mode entry code code') (hstarts : SameStarts mode entry code code')
include hsize h hstep hstarts

/-- Of two blocks with one explored head neither ends before the other. -/
theorem subset_block (hb : b ∈ (build mode code entry).blocks) (hb' : b' ∈ (build mode code' entry).blocks)
    (hhead : b'.head = b.head) (ha : Explored mode code entry b.start) :
    ∀ i ∈ b.instructions, i ∈ b'.instructions := by
  have hspread' := Encoding.isSpread_sweep mode entry (show code'.length ≤ UInt64.size from h.length ▸ hsize)
  have hchain := isChain_onward (Encoding.isListing_sweep mode entry hsize) hb
  have hall := hchain.induction (fun i => i ∈ b'.instructions ∧ Explored mode code entry i.ip) _ ?_
    fun _ => ⟨show b.head ∈ b'.instructions from hhead ▸ List.mem_cons_self, ha⟩
  · exact fun i hi => (hall i hi).1
  · -- Where the block goes on, the next instruction is explored too, so it stands in the other sweep.
    rintro x y ⟨hy, hnext, hnone, hlead⟩ ⟨hx, hexplored⟩
    have hx_eq := (mem_sweep (h.length ▸ hsize) (mem_listing hb' hx)).1
    rw [h.instructionAt_eq hexplored] at hx_eq
    have hy_explored : Explored mode code entry y.ip := by
      refine .step hexplored ?_ (mem_sweep hsize hy).2
      rw [← hx_eq, Instruction.nexts_of_none hnone, hnext]
      exact List.mem_singleton_self _
    refine ⟨?_, hy_explored⟩
    rw [hstarts _ hy_explored] at hlead
    rw [← h.range_eq] at hnone
    exact mem_block_of_nextIp hspread' hb' hx (mem_sweep_of_explored hsize h hstep hy hy_explored) hnext hnone hlead

/-- **Explored blocks of one code are blocks of the other.** -/
theorem mem_blocks_of_explored (hb : b ∈ (build mode code entry).blocks) (ha : Explored mode code entry b.start) :
    b ∈ (build mode code' entry).blocks := by
  have hsize' : code'.length ≤ UInt64.size := h.length ▸ hsize
  have hspread := Encoding.isSpread_sweep mode entry hsize
  have hspread' := Encoding.isSpread_sweep mode entry hsize'
  have hmem := mem_sweep_of_explored hsize h hstep (mem_listing hb List.mem_cons_self) ha
  have hlead := contains_leaders_start hspread.toIsListing hb
  obtain ⟨b', hb', hhead⟩ := exists_block (.of entry code') hmem
  rw [hstarts _ ha] at hlead
  have hhead : b'.head = b.head := head_eq_of_contains hb' hhead hlead
  have ha' : Explored mode code' entry b'.start := by
    rw [Block.start, hhead]
    exact h.explored ha
  have hsub := subset_block hsize h hstep hstarts hb hb' hhead ha
  have hsub' := subset_block hsize' h.symm (hstep.symm h) (hstarts.symm h) hb' hb hhead.symm ha'
  have rising : ∀ {l : List Instruction} {b : Block}, l.Pairwise (fun i j => i.ip - entry < j.ip - entry) →
      (∃ before after, l = before ++ b.instructions ++ after) →
      b.instructions.Pairwise fun i j => i.ip - entry < j.ip - entry := by
    rintro _ b hl ⟨before, after, rfl⟩
    exact (List.pairwise_append.1 (List.pairwise_append.1 hl).1).2.1
  -- Blocks with the same instructions end alike, so they lead to the same addresses.
  have hinstructions : b.instructions = b'.instructions := by
    obtain ⟨before, after, hl, -⟩ := exists_split hb
    obtain ⟨before', after', hl', -⟩ := exists_split hb'
    exact eq_of_rising (rising hspread.rising ⟨before, after, hl⟩) (rising hspread'.rising ⟨before', after', hl'⟩)
      fun i => ⟨hsub i, hsub' i⟩
  have hsuccessors := successors_eq hb
  have hsuccessors' := successors_eq hb'
  rw [h.range_eq] at hsuccessors'
  obtain ⟨head, tail, successors⟩ := b
  obtain ⟨head', tail', successors'⟩ := b'
  obtain ⟨rfl, rfl⟩ := List.cons.inj hinstructions
  obtain rfl : successors = successors' := hsuccessors.trans hsuccessors'.symm
  exact hb'

theorem index_eq (ha : Explored mode code entry a) :
    (build mode code entry).index[a]? = (build mode code' entry).index[a]? := by
  have hsize' : code'.length ≤ UInt64.size := h.length ▸ hsize
  ext b
  refine (getElem?_index (Encoding.isListing_sweep mode entry hsize)).trans
    (Iff.trans ?_ (getElem?_index (Encoding.isListing_sweep mode entry hsize')).symm)
  constructor
  · rintro ⟨hb, rfl⟩
    exact ⟨mem_blocks_of_explored hsize h hstep hstarts hb ha, rfl⟩
  · rintro ⟨hb, rfl⟩
    exact ⟨mem_blocks_of_explored hsize' h.symm (hstep.symm h) (hstarts.symm h) hb (h.explored ha), rfl⟩

/-- **The searches find the same chains.** -/
theorem chains_eq (hne : 0 < code.length) (a : UInt64) :
    (build mode code entry).search.chains[a]? = (build mode code' entry).search.chains[a]? := by
  have hentry : Explored mode code entry (build mode code entry).entry := .entry hne
  refine chains_congr (build mode code entry) (build mode code' entry) rfl hentry ⟨?_, ?_⟩ a
  · exact fun a ha => index_eq hsize h hstep hstarts ha
  · intro a b ha hindex c hc
    obtain ⟨hb, rfl⟩ := (getElem?_index (Encoding.isListing_sweep mode entry hsize)).1 hindex
    exact explored_of_mem_successors hsize hb ha hc

theorem pathTo?_of_agree (hne : 0 < code.length) {target : UInt64} {p : Path}
    (hp : (build mode code entry).pathTo? target = some p) : (build mode code' entry).pathTo? target = some p := by
  have hspread' := Encoding.isSpread_sweep mode entry (show code'.length ≤ UInt64.size from h.length ▸ hsize)
  obtain ⟨goal, chain, hgoal, hchain, rfl⟩ := pathTo?_eq_some_iff.1 hp
  obtain ⟨hmem, hat⟩ := of_blockAt? hgoal
  have hmem' := mem_blocks_of_explored hsize h hstep hstarts hmem (explored_of_chain hsize hchain)
  have hgoal' := (blockAt?_eq_some_iff hspread').2 ⟨hmem', hat⟩
  have hchain' := hchain
  rw [chains_eq hsize h hstep hstarts hne] at hchain'
  refine pathTo?_eq_some_iff.2 ⟨goal, chain, hgoal', hchain', ?_⟩
  -- Every block on the way was found, so it is explored and the same in both.
  have halong : (build mode code entry).instructionsAlong chain.reverse =
      (build mode code' entry).instructionsAlong chain.reverse := by
    refine List.flatMap_congr fun start hstart => ?_
    obtain ⟨-, htree⟩ := isTree_search hchain
    obtain ⟨tail, htail, -⟩ := htree.exists_suffix hchain (List.mem_reverse.1 hstart)
    rw [index_eq hsize h hstep hstarts (explored_of_chain hsize htail)]
  rw [halong]

end Both

/--
**Unexplored bytes do not matter** as long as they leave the sweep in step.
Codes of one length that agree in every explored instruction explore the same.
If the explored instructions of one sweep are those of the other, the same
calls are found; if moreover the unexplored part makes no explored block start
in one code alone, the same paths are found, with the same blocks.
-/
theorem unexplored_irrelevant (mode : Bitness) (entry : UInt64) (code code' : List UInt8)
    (hsize : code.length ≤ UInt64.size) (h : SameExplored mode entry code code') :
    (∀ a, Explored mode code' entry a ↔ Explored mode code entry a) ∧
    (InStep mode entry code code' →
      (∀ target, (build mode code entry).findCall? target = (build mode code' entry).findCall? target) ∧
      (SameStarts mode entry code code' →
        ∀ target, (build mode code entry).pathTo? target = (build mode code' entry).pathTo? target)) := by
  refine ⟨h.explored_iff, fun hstep => ⟨fun target => ?_, fun hstarts target => ?_⟩⟩
  · rw [findCall?, findCall?, reachable_eq hsize h hstep]
  · rcases Nat.eq_zero_or_pos code.length with hzero | hne
    · have hnil := List.length_eq_zero_iff.1 hzero
      have hnil' := List.length_eq_zero_iff.1 (h.length ▸ hzero)
      rw [hnil, hnil']
    · ext p
      exact ⟨pathTo?_of_agree hsize h hstep hstarts hne,
        pathTo?_of_agree (h.length ▸ hsize) h.symm (hstep.symm h) (hstarts.symm h) (h.length ▸ hne)⟩

/-! ## Code with filler -/

end ControlFlow

section Known

variable {known : List UInt64}

/-- Addresses that hold the entry and all that control can get to from them are all that is explored. -/
theorem Explored.mem_of_closed (hentry : known.contains entry = true)
    (hclosed : (known.all fun a => ((instructionAt mode code entry a).nexts (.of entry code)).all fun b =>
      decide (code.length ≤ (b - entry).toNat) || known.contains b) = true)
    (ha : Explored mode code entry a) : a ∈ known := by
  induction ha with
  | entry _ => exact List.contains_iff_mem.1 hentry
  | step _ hstep hin ih =>
    have hb := List.all_eq_true.1 (List.all_eq_true.1 hclosed _ ih) _ hstep
    rw [Bool.or_eq_true, decide_eq_true_eq] at hb
    exact List.contains_iff_mem.1 (hb.resolve_left (Nat.not_le.2 hin))

variable (hknown : ∀ a, Explored mode code entry a → a ∈ known)
include hknown

theorem SameExplored.of_known (hlength : code.length = code'.length)
    (h : (known.all fun a =>
      (code.drop (a - entry).toNat).take (instructionAt mode code entry a).length ==
        (code'.drop (a - entry).toNat).take (instructionAt mode code entry a).length) = true) :
    SameExplored mode entry code code' := by
  refine ⟨hlength, fun a ha k hk => ?_⟩
  have heq := eq_of_beq (List.all_eq_true.1 h a (hknown a ha))
  have hbyte := congrArg (·[k]?) heq
  simpa only [List.getElem?_take_of_lt hk, List.getElem?_drop] using hbyte

theorem InStep.of_known
    (h : (known.all fun a => (Encoding.sweepWithin mode code.length entry code).any (·.ip == a) ==
      (Encoding.sweepWithin mode code'.length entry code').any (·.ip == a)) = true) :
    InStep mode entry code code' := by
  intro a ha
  have hany := eq_of_beq (List.all_eq_true.1 h a (hknown a ha))
  rw [← Encoding.sweep_eq_sweepWithin (Nat.le_refl _), ← Encoding.sweep_eq_sweepWithin (Nat.le_refl _),
    Bool.eq_iff_iff] at hany
  simpa only [List.any_eq_true, beq_iff_eq] using hany

theorem SameStarts.of_known
    (h : (known.all fun a =>
      (ControlFlow.leaderList (.of entry code) (Encoding.sweepWithin mode code.length entry code)).contains a ==
        (ControlFlow.leaderList (.of entry code') (Encoding.sweepWithin mode code'.length entry code')).contains a)
        = true) :
    SameStarts mode entry code code' := by
  intro a ha
  have hcontains := eq_of_beq (List.all_eq_true.1 h a (hknown a ha))
  rw [← Encoding.sweep_eq_sweepWithin (Nat.le_refl _), ← Encoding.sweep_eq_sweepWithin (Nat.le_refl _)] at hcontains
  rw [ControlFlow.leaders, ControlFlow.leaders, Std.HashSet.contains_ofList, Std.HashSet.contains_ofList]
  exact hcontains

end Known

namespace ControlFlow

/-- A jump over one byte to a call. -/
def jumpOverFiller (filler : UInt8) : List UInt8 :=
  [0x48, 0x8d, 0x49, 0x08, 0xeb, 0x01, filler, 0xe8, 0xf4, 0xff, 0, 0, 0xc3]

/-- Two ways of one block each to a call, and two bytes behind the return. -/
def twoWaysThenFiller (filler filler' : UInt8) : List UInt8 :=
  [0x74, 0x06, 0x48, 0x8d, 0x49, 0x08, 0xeb, 0x06, 0x48, 0x8d, 0x49, 0x10, 0xeb, 0x00, 0xe8, 0xed, 0xff, 0, 0, 0xc3,
    filler, filler']

theorem explored_jumpOverFiller (ha : Explored .x64 (jumpOverFiller 0x90) 0x10000 a) :
    a ∈ [0x10000, 0x10004, 0x10007, 0x1000c] :=
  ha.mem_of_closed (by decide) (by decide +kernel)

theorem explored_twoWays (ha : Explored .x64 (twoWaysThenFiller 0x90 0x90) 0x10000 a) :
    a ∈ [0x10000, 0x10002, 0x10006, 0x10008, 0x1000c, 0x1000e, 0x10013] :=
  ha.mem_of_closed (by decide) (by decide +kernel)

/-- Other filler that is one instruction too changes nothing. -/
theorem unexplored_irrelevant_filler :
    (build .x64 (jumpOverFiller 0xcc) 0x10000).findCall? 0x20000 = some 0x10007 ∧
    (build .x64 (jumpOverFiller 0x90) 0x10000).pathTo? 0x10007 =
      (build .x64 (jumpOverFiller 0xcc) 0x10000).pathTo? 0x10007 := by
  have hsame : SameExplored .x64 0x10000 (jumpOverFiller 0x90) (jumpOverFiller 0xcc) :=
    .of_known (fun _ => explored_jumpOverFiller) rfl (by decide +kernel)
  have hstep : InStep .x64 0x10000 (jumpOverFiller 0x90) (jumpOverFiller 0xcc) :=
    .of_known (fun _ => explored_jumpOverFiller) (by decide +kernel)
  have hstarts : SameStarts .x64 0x10000 (jumpOverFiller 0x90) (jumpOverFiller 0xcc) :=
    .of_known (fun _ => explored_jumpOverFiller) (by decide +kernel)
  obtain ⟨-, hfound⟩ := unexplored_irrelevant .x64 0x10000 _ _ (by decide) hsame
  obtain ⟨hcalls, hpaths⟩ := hfound hstep
  refine ⟨?_, hpaths hstarts 0x10007⟩
  rw [← hcalls, findCall?_build (by decide)]
  decide +kernel

/--
Without these conditions they matter. A filler byte that begins a longer
instruction hides the call behind it, and a branch in bytes behind the return
splits a block of the shortest path, so that another way becomes the shortest.
-/
theorem unexplored_matters :
    (¬ ∀ (mode : Bitness) (entry : UInt64) (code code' : List UInt8) (target : UInt64),
      code.length ≤ UInt64.size → SameExplored mode entry code code' →
        (build mode code entry).findCall? target = (build mode code' entry).findCall? target) ∧
    ¬ ∀ (mode : Bitness) (entry : UInt64) (code code' : List UInt8) (target c : UInt64),
      code.length ≤ UInt64.size → SameExplored mode entry code code' → InStep mode entry code code' →
        (build mode code entry).findCall? target = some c →
          ((build mode code entry).pathTo? c).map (·.instructions) =
            ((build mode code' entry).pathTo? c).map (·.instructions) := by
  constructor
  · intro hsame
    have hexplored : SameExplored .x64 0x10000 (jumpOverFiller 0x90) (jumpOverFiller 0xe8) :=
      .of_known (fun _ => explored_jumpOverFiller) rfl (by decide +kernel)
    have heq := hsame .x64 0x10000 _ _ 0x20000 (by decide) hexplored
    rw [findCall?_build (by decide), findCall?_build (by decide)] at heq
    exact absurd heq (by decide +kernel)
  · intro hsame
    have hexplored : SameExplored .x64 0x10000 (twoWaysThenFiller 0x90 0x90) (twoWaysThenFiller 0xeb 0xf6) :=
      .of_known (fun _ => explored_twoWays) rfl (by decide +kernel)
    have hstep : InStep .x64 0x10000 (twoWaysThenFiller 0x90 0x90) (twoWaysThenFiller 0xeb 0xf6) :=
      .of_known (fun _ => explored_twoWays) (by decide +kernel)
    have hcall : (build .x64 (twoWaysThenFiller 0x90 0x90) 0x10000).findCall? 0x20000 = some 0x1000e := by
      rw [findCall?_build (by decide)]
      decide +kernel
    have heq := hsame .x64 0x10000 _ _ 0x20000 0x1000e (by decide) hexplored hstep hcall
    rw [pathTo?_build (by decide), pathTo?_build (by decide)] at heq
    exact absurd heq (by decide +kernel)

end ControlFlow

end KernelOffsets
