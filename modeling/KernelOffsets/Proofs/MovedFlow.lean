/-
The blocks of moved code. A search that renames the addresses it looks up
gives the renamed chains (`Search.View.Relocates.search`); moving code renames
the starts of its blocks, the branches that stay inside of it and the chains,
so the calls and the paths of moved code are the moved ones
(`ControlFlow.build_moved`).
-/
import KernelOffsets.Proofs.Lookups
import KernelOffsets.Proofs.MovedCode
import Mathlib.Data.List.Find

namespace KernelOffsets.ControlFlow

/-! ## Searches among renamed addresses -/

namespace Search.View

variable {valid : UInt64 → Prop} {σ : UInt64 → UInt64} {τ : Block → Block} {entry : UInt64}
  {blocks blocks' : UInt64 → Option Block} {v v' : View} {a : UInt64} {chain : List UInt64}

/--
Blocks under other addresses. Of what a block leads to only the entry may be
lost or gained: a search has entered it before it looks at any block.
-/
structure Relocates (valid : UInt64 → Prop) (σ : UInt64 → UInt64) (τ : Block → Block) (entry : UInt64)
    (blocks blocks' : UInt64 → Option Block) : Prop where
  start : valid entry
  injective : ∀ a x, valid a → valid x → (σ a = σ x ↔ a = x)
  block : ∀ a, valid a → blocks' (σ a) = (blocks a).map τ
  closed : ∀ a block, valid a → blocks a = some block → ∀ x ∈ block.successors, valid x
  successors : ∀ a block, valid a → blocks a = some block →
    (τ block).successors.filter (· != σ entry) = (block.successors.filter (· != entry)).map σ

/-- The entry is entered if it is the start of a block. -/
def Settled (blocks : UInt64 → Option Block) (entry : UInt64) (v : View) : Prop :=
  (blocks entry).isSome = true → (v.chains entry).isSome = true

/-- A search and the same one among renamed addresses. -/
structure Moved (valid : UInt64 → Prop) (σ : UInt64 → UInt64) (v v' : View) : Prop where
  within : ∀ a ∈ v.fresh, valid a
  chainsWithin : ∀ a chain, v.chains a = some chain → ∀ x ∈ chain, valid x
  fresh : v'.fresh = v.fresh.map σ
  chains : ∀ a, valid a → v'.chains (σ a) = (v.chains a).map (List.map σ)

theorem Settled.enter (h : Settled blocks entry v) (chain : List UInt64) (a : UInt64) :
    Settled blocks entry (v.enter blocks chain a) := by
  intro hblock
  unfold View.enter
  split
  · dsimp only
    split
    · rfl
    · exact h hblock
  · exact h hblock

theorem Settled.enterAll (h : Settled blocks entry v) (chain : List UInt64) (targets : List UInt64) :
    Settled blocks entry (targets.foldl (View.enter blocks chain) v) := by
  induction targets generalizing v with
  | nil => exact h
  | cons a targets ih => exact ih (h.enter chain a)

theorem Settled.expand (h : Settled blocks entry v) (a : UInt64) : Settled blocks entry (v.expand blocks a) := by
  unfold View.expand
  split
  · exact h.enterAll _ _
  · exact h

/-- To enter the entry again changes nothing. -/
theorem Settled.enterAll_filter (h : Settled blocks entry v) (chain : List UInt64) (targets : List UInt64) :
    (targets.filter (· != entry)).foldl (View.enter blocks chain) v =
      targets.foldl (View.enter blocks chain) v := by
  induction targets generalizing v with
  | nil => rfl
  | cons a targets ih =>
    by_cases ha : a = entry
    · subst ha
      have hsame : v.enter blocks chain a = v := by
        unfold View.enter
        split
        · next hnew =>
          obtain ⟨hblock, hnone⟩ := Bool.and_eq_true_iff.1 hnew
          rw [← Option.not_isSome, h hblock] at hnone
          cases hnone
        · rfl
      rw [List.filter_cons_of_neg (by simp), ih h, List.foldl_cons, hsame]
    · rw [List.filter_cons_of_pos (by simpa using ha), List.foldl_cons, List.foldl_cons, ih (h.enter chain a)]

namespace Relocates

variable (h : Relocates valid σ τ entry blocks blocks')
include h

theorem settled (hv : Moved valid σ v v') (hsettled : Settled blocks entry v) : Settled blocks' (σ entry) v' := by
  intro hblock
  rw [h.block entry h.start, Option.isSome_map] at hblock
  rw [hv.chains entry h.start, Option.isSome_map]
  exact hsettled hblock

theorem enter (hv : Moved valid σ v v') (hchain : ∀ x ∈ chain, valid x) (ha : valid a) :
    Moved valid σ (v.enter blocks chain a) (v'.enter blocks' (chain.map σ) (σ a)) := by
  unfold View.enter
  rw [h.block a ha, hv.chains a ha, Option.isSome_map, Option.isNone_map]
  split
  · refine ⟨?_, ?_, ?_, ?_⟩
    · intro x hx
      rcases List.mem_cons.1 hx with rfl | hx
      · exact ha
      · exact hv.within x hx
    · intro x known hknown y hy
      dsimp only at hknown
      split at hknown
      · cases hknown
        rcases List.mem_cons.1 hy with rfl | hy
        · exact ha
        · exact hchain y hy
      · exact hv.chainsWithin x known hknown y hy
    · rw [hv.fresh, List.map_cons]
    · intro x hx
      dsimp only
      by_cases he : a = x
      · rw [if_pos he, if_pos (congrArg σ he), Option.map_some, List.map_cons]
      · rw [if_neg he, if_neg (fun hσ => he ((h.injective a x ha hx).1 hσ)), hv.chains x hx]
  · exact hv

theorem enterAll (hchain : ∀ x ∈ chain, valid x) :
    ∀ (targets : List UInt64) {v v' : View}, Moved valid σ v v' → (∀ x ∈ targets, valid x) →
      Moved valid σ (targets.foldl (View.enter blocks chain) v)
        ((targets.map σ).foldl (View.enter blocks' (chain.map σ)) v')
  | [], _, _, hv, _ => hv
  | a :: targets, _, _, hv, hall => by
    rw [List.map_cons, List.foldl_cons, List.foldl_cons]
    exact enterAll hchain targets (h.enter hv hchain (hall a List.mem_cons_self))
      fun x hx => hall x (List.mem_cons_of_mem a hx)

theorem expand (hv : Moved valid σ v v') (hsettled : Settled blocks entry v) (ha : valid a) :
    Moved valid σ (v.expand blocks a) (v'.expand blocks' (σ a)) := by
  unfold View.expand
  rw [h.block a ha, hv.chains a ha]
  cases hblock : blocks a with
  | none => exact hv
  | some block =>
    cases hchain : v.chains a with
    | none => exact hv
    | some chain =>
      dsimp only [Option.map_some]
      have hwithin : ∀ x ∈ block.successors.filter (· != entry), valid x :=
        fun x hx => h.closed a block ha hblock x (List.mem_filter.1 hx).1
      rw [← hsettled.enterAll_filter, ← (h.settled hv hsettled).enterAll_filter, h.successors a block ha hblock]
      exact h.enterAll (hv.chainsWithin a chain hchain) _ hv hwithin

theorem expandAll :
    ∀ (starts : List UInt64) {v v' : View}, Moved valid σ v v' → Settled blocks entry v → (∀ x ∈ starts, valid x) →
      Moved valid σ (starts.foldl (View.expand blocks) v) ((starts.map σ).foldl (View.expand blocks') v') ∧
        Settled blocks entry (starts.foldl (View.expand blocks) v)
  | [], _, _, hv, hsettled, _ => ⟨hv, hsettled⟩
  | a :: starts, _, _, hv, hsettled, hall => by
    rw [List.map_cons, List.foldl_cons, List.foldl_cons]
    exact expandAll starts (h.expand hv hsettled (hall a List.mem_cons_self)) (hsettled.expand a)
      fun x hx => hall x (List.mem_cons_of_mem a hx)

theorem round (hv : Moved valid σ v v') (hsettled : Settled blocks entry v) :
    Moved valid σ (v.round blocks) (v'.round blocks') ∧ Settled blocks entry (v.round blocks) := by
  unfold View.round
  rw [hv.fresh, ← List.map_reverse]
  refine h.expandAll _ ⟨?_, hv.chainsWithin, rfl, hv.chains⟩ hsettled fun x hx => hv.within x (List.mem_reverse.1 hx)
  intro x hx
  cases hx

theorem rounds (n : Nat) (hv : Moved valid σ v v') (hsettled : Settled blocks entry v) :
    Moved valid σ (v.rounds blocks n) (v'.rounds blocks' n) := by
  induction n generalizing v v' with
  | zero => exact hv
  | succ n ih =>
    unfold View.rounds
    rw [hv.fresh, List.isEmpty_map]
    split
    · exact hv
    · obtain ⟨hv, hsettled⟩ := h.round hv hsettled
      exact ih hv hsettled

/-- **A search among renamed addresses** finds the renamed chains. -/
theorem search (n : Nat) : Moved valid σ (View.search blocks n entry) (View.search blocks' n (σ entry)) := by
  have hempty : Moved valid σ View.empty View.empty := ⟨nofun, nofun, rfl, fun _ _ => rfl⟩
  have hentered := h.enter hempty (List.forall_mem_nil valid) h.start
  refine h.rounds n hentered ?_
  intro hblock
  simp [View.enter, View.empty, hblock]

end Relocates

end Search.View

/-! ## Ways out of a moved instruction -/

end ControlFlow

/-- Whether an address is in a range, but not its start. -/
def CodeRange.leads (r : CodeRange) (a : UInt64) : Bool :=
  r.contains a && a != r.start

theorem CodeRange.contains_start {r : CodeRange} {a : UInt64} (h : r.contains a = true) :
    r.contains r.start = true := by
  simp only [contains, Bool.and_eq_true, decide_eq_true_eq] at h ⊢
  exact ⟨UInt64.le_refl _, UInt64.lt_of_le_of_lt h.1 h.2⟩

/-- Where control can go after an instruction that ends a block, in the code or not. -/
def Instruction.ways? (i : Instruction) : Option (List UInt64) :=
  if i.isInvalid then some []
  else match i.flow with
    | .conditionalBranch => some [i.nearTarget, i.nextIp]
    | .unconditionalBranch => some [i.nearTarget]
    | .indirectBranch | .ret | .interrupt | .exception => some []
    | .next | .call | .indirectCall | .transaction => none

theorem Instruction.successors?_eq (i : Instruction) (range : CodeRange) :
    i.successors? range = i.ways?.map (List.filter range.contains) := by
  unfold successors? ways?
  split
  · rfl
  · cases i.flow <;> rfl

theorem Instruction.getD_successors? (i : Instruction) (range : CodeRange) :
    (i.successors? range).getD ([i.nextIp].filter range.contains) =
      (i.ways?.getD [i.nextIp]).filter range.contains := by
  rw [successors?_eq]
  cases i.ways? <;> rfl

namespace Block

/-- A block at another address; what it leads to depends on the range that it is moved to. -/
def moved (mode : Bitness) (d : UInt64) (range : CodeRange) (b : Block) : Block :=
  let final := (last b.head b.tail).moved mode d
  { head := b.head.moved mode d
    tail := b.tail.map (·.moved mode d)
    successors := (final.successors? range).getD ([final.nextIp].filter range.contains) }

theorem instructions_moved (mode : Bitness) (d : UInt64) (range : CodeRange) (b : Block) :
    (b.moved mode d range).instructions = b.instructions.map (·.moved mode d) := rfl

theorem ofRun_map (mode : Bitness) (d : UInt64) (range range' : CodeRange) (run : List Instruction) :
    ofRun range' (run.map (·.moved mode d)) = (ofRun range run).map (moved mode d range') := by
  cases run with
  | nil => rfl
  | cons head tail =>
    have hlast : last (head.moved mode d) (tail.map (·.moved mode d)) = (last head tail).moved mode d := by
      unfold last
      simp only [← List.map_cons, List.getLast_map]
    simp only [List.map_cons, ofRun, Option.map_some, hlast, moved]

end Block

namespace ControlFlow

/-- A listing, and the same one moved to another range of addresses. -/
structure MovesTo (mode : Bitness) (d : UInt64) (range range' : CodeRange) (l : List Instruction) : Prop where
  spread : IsSpread range l
  spread' : IsSpread range' (l.map (·.moved mode d))
  start : range'.start = mode.moved d range.start
  address : ∀ a, range.contains a = true → a &&& mode.addressMask = a
  contains : ∀ a, a &&& mode.addressMask = a → range'.contains (mode.moved d a) = range.contains a
  inside : ∀ i ∈ l, range.contains i.ip = true
  target : ∀ i ∈ l, i.nearTarget &&& mode.addressMask = i.nearTarget
  next : ∀ i ∈ l, range.contains i.nextIp = true ∧ (i.moved mode d).nextIp = mode.moved d i.nextIp ∨
    range.contains i.nextIp = false ∧ range'.contains (i.moved mode d).nextIp = false

/-- Two addresses, of which neither leads into its range or one is the other one moved. -/
def Corresponds (mode : Bitness) (d : UInt64) (range range' : CodeRange) (a a' : UInt64) : Prop :=
  range.leads a = true ∧ range'.leads a' = true ∧ a' = mode.moved d a ∨ range.leads a = false ∧ range'.leads a' = false

namespace MovesTo

variable {mode : Bitness} {d : UInt64} {range range' : CodeRange} {l : List Instruction}
  (h : MovesTo mode d range range' l)
include h

theorem leads_moved {a : UInt64} (ha : a &&& mode.addressMask = a) :
    range'.leads (mode.moved d a) = range.leads a := by
  unfold CodeRange.leads
  rw [h.contains a ha]
  cases hcontains : range.contains a with
  | false => rfl
  | true =>
    have hstart := h.address _ (CodeRange.contains_start hcontains)
    rw [h.start, Bool.true_and, Bool.true_and, Bool.eq_iff_iff, bne_iff_ne, bne_iff_ne, Ne,
      Bitness.moved_inj ha hstart]

theorem corresponds_moved {a : UInt64} (ha : a &&& mode.addressMask = a) :
    Corresponds mode d range range' a (mode.moved d a) := by
  unfold Corresponds
  rw [h.leads_moved ha]
  cases range.leads a with
  | true => exact .inl ⟨rfl, rfl, rfl⟩
  | false => exact .inr ⟨rfl, rfl⟩

omit h in
theorem leads_zero (r : CodeRange) : r.leads 0 = false := by
  unfold CodeRange.leads CodeRange.contains
  by_cases hstart : r.start = 0
  · simp [hstart]
  · have hnot : ¬ r.start ≤ 0 := fun hle => hstart (UInt64.le_zero_iff.1 hle)
    simp [hnot]

theorem corresponds_nearTarget {i : Instruction} (hi : i ∈ l) :
    Corresponds mode d range range' i.nearTarget (i.moved mode d).nearTarget := by
  rcases i.nearTarget_moved mode d with hmoved | ⟨-, hzero, hzero'⟩
  · rw [hmoved]
    exact h.corresponds_moved (h.target i hi)
  · rw [hzero, hzero']
    exact .inr ⟨leads_zero range, leads_zero range'⟩

theorem corresponds_nextIp {i : Instruction} (hi : i ∈ l) :
    Corresponds mode d range range' i.nextIp (i.moved mode d).nextIp := by
  rcases h.next i hi with ⟨hinside, hmoved⟩ | ⟨hout, hout'⟩
  · rw [hmoved]
    exact h.corresponds_moved (h.address _ hinside)
  · exact .inr ⟨by rw [CodeRange.leads, hout, Bool.false_and], by rw [CodeRange.leads, hout', Bool.false_and]⟩

theorem ways?_moved {i : Instruction} (hi : i ∈ l) :
    Option.Rel (List.Forall₂ (Corresponds mode d range range')) i.ways? (i.moved mode d).ways? := by
  have hflow : (i.moved mode d).flow = i.flow := rfl
  have hnear := h.corresponds_nearTarget hi
  have hnext := h.corresponds_nextIp hi
  unfold Instruction.ways?
  rw [Instruction.isInvalid_moved, hflow]
  split
  · exact .some .nil
  · cases i.flow with
    | conditionalBranch => exact .some (.cons hnear (.cons hnext .nil))
    | unconditionalBranch => exact .some (.cons hnear .nil)
    | next | call | indirectCall | transaction => exact .none
    | _ => exact .some .nil

omit h in
theorem filter_leads {ts ts' : List UInt64} (hts : List.Forall₂ (Corresponds mode d range range') ts ts') :
    ts'.filter range'.leads = (ts.filter range.leads).map (mode.moved d) := by
  induction hts with
  | nil => rfl
  | @cons a a' ts ts' ha _ ih =>
    rcases ha with ⟨hleads, hleads', rfl⟩ | ⟨hleads, hleads'⟩
    · rw [List.filter_cons_of_pos hleads', List.filter_cons_of_pos hleads, List.map_cons, ih]
    · rw [List.filter_cons_of_neg (by simp [hleads']), List.filter_cons_of_neg (by simp [hleads]), ih]

theorem mem_iff {ts ts' : List UInt64} (hts : List.Forall₂ (Corresponds mode d range range') ts ts') {a : UInt64}
    (ha : range.leads a = true) : mode.moved d a ∈ ts' ↔ a ∈ ts := by
  have haddress : ∀ {x}, range.leads x = true → x &&& mode.addressMask = x :=
    fun hx => h.address _ (Bool.and_eq_true_iff.1 hx).1
  have ha' : range'.leads (mode.moved d a) = true := (h.leads_moved (haddress ha)).trans ha
  have hmem : mode.moved d a ∈ ts' ↔ mode.moved d a ∈ (ts.filter range.leads).map (mode.moved d) := by
    rw [← filter_leads hts, List.mem_filter]
    exact (and_iff_left ha').symm
  rw [hmem, List.mem_map]
  constructor
  · rintro ⟨x, hx, he⟩
    obtain ⟨hx, hleads⟩ := List.mem_filter.1 hx
    rwa [← (Bitness.moved_inj (haddress hleads) (haddress ha)).1 he]
  · exact fun hmem => ⟨a, List.mem_filter.2 ⟨hmem, ha⟩, rfl⟩

/-! ## Moved blocks -/

omit h in
/-- An address that leads into the code starts a block if an instruction that ends one goes there or stands before it. -/
theorem contains_leaders_iff {a : UInt64} (ha : range.leads a = true) :
    (leaders range l).contains a = true ↔ ∃ k ∈ l, ∃ ts, k.ways? = some ts ∧ a ∈ k.nextIp :: ts := by
  obtain ⟨hcontains, hne⟩ := Bool.and_eq_true_iff.1 ha
  rw [ControlFlow.contains_leaders_iff, or_iff_right (bne_iff_ne.1 hne)]
  refine exists_congr fun k => and_congr_right fun _ => ?_
  rw [Instruction.successors?_eq]
  cases k.ways? with
  | none => simp
  | some ts => simp [hcontains]

theorem contains_leaders_moved {i : Instruction} (hi : i ∈ l) :
    (leaders range' (l.map (·.moved mode d))).contains (mode.moved d i.ip) = (leaders range l).contains i.ip := by
  by_cases hstart : i.ip = range.start
  · rw [ControlFlow.contains_leaders_iff.2 (.inl hstart), hstart, ← h.start]
    exact ControlFlow.contains_leaders_iff.2 (.inl rfl)
  · have haddress := h.address _ (h.inside i hi)
    have hleads : range.leads i.ip = true := Bool.and_eq_true_iff.2 ⟨h.inside i hi, bne_iff_ne.2 hstart⟩
    rw [Bool.eq_iff_iff, contains_leaders_iff hleads, contains_leaders_iff ((h.leads_moved haddress).trans hleads)]
    have heach : ∀ k ∈ l, (∃ ts, (k.moved mode d).ways? = some ts ∧ mode.moved d i.ip ∈ (k.moved mode d).nextIp :: ts) ↔
        ∃ ts, k.ways? = some ts ∧ i.ip ∈ k.nextIp :: ts := by
      intro k hk
      have hways := h.ways?_moved hk
      generalize k.ways? = ways, (k.moved mode d).ways? = ways' at hways
      cases hways with
      | none => simp
      | some hts => simp only [Option.some.injEq, exists_eq_left', h.mem_iff (.cons (h.corresponds_nextIp hk) hts) hleads]
    constructor
    · rintro ⟨_, hmem, hleads⟩
      obtain ⟨k, hk, rfl⟩ := List.mem_map.1 hmem
      exact ⟨k, hk, (heach k hk).1 hleads⟩
    · rintro ⟨k, hk, hleads⟩
      exact ⟨_, List.mem_map_of_mem hk, (heach k hk).2 hleads⟩

theorem continues_moved {i j : Instruction} (hi : i ∈ l) (hj : j ∈ l) :
    continues range' (leaders range' (l.map (·.moved mode d))) (i.moved mode d) (j.moved mode d) =
      continues range (leaders range l) i j := by
  have hways := h.ways?_moved hi
  unfold continues
  rw [Instruction.successors?_eq, Instruction.successors?_eq, Option.isNone_map, Option.isNone_map,
    Instruction.ip_moved, h.contains_leaders_moved hj]
  generalize i.ways? = ways, (i.moved mode d).ways? = ways' at hways
  cases hways <;> rfl

end MovesTo

/-- Two lists are split alike where neighbours go together alike. -/
theorem splitBy_map {α β : Type} {f : α → β} {r : α → α → Bool} {r' : β → β → Bool} {l : List α}
    (h : ∀ x ∈ l, ∀ y ∈ l, r' (f x) (f y) = r x y) : (l.map f).splitBy r' = (l.splitBy r).map (List.map f) := by
  have loop : ∀ (l : List α) (a : α) (g : List α) (gs : List (List α)),
      (∀ x ∈ a :: l, ∀ y ∈ a :: l, r' (f x) (f y) = r x y) →
        List.splitBy.loop r' (l.map f) (f a) (g.map f) (gs.map (List.map f)) =
          (List.splitBy.loop r l a g gs).map (List.map f) := by
    intro l
    induction l with
    | nil => intro a g gs _; simp [List.splitBy.loop]
    | cons b l ih =>
      intro a g gs hall
      have hrest : ∀ x ∈ b :: l, ∀ y ∈ b :: l, r' (f x) (f y) = r x y :=
        fun x hx y hy => hall x (List.mem_cons_of_mem a hx) y (List.mem_cons_of_mem a hy)
      have htogether := ih b (a :: g) gs hrest
      have hapart := ih b [] ((a :: g).reverse :: gs) hrest
      rw [List.map_cons] at htogether
      rw [List.map_nil, List.map_cons, List.map_reverse, List.map_cons] at hapart
      rw [List.map_cons, List.splitBy.loop, List.splitBy.loop,
        hall a List.mem_cons_self b (List.mem_cons_of_mem a List.mem_cons_self), htogether, hapart]
      cases r a b <;> rfl
  cases l with
  | nil => rfl
  | cons a l => exact loop l a [] [] h

theorem takeWhile_congr {α : Type} {p q : α → Bool} {l : List α} (h : ∀ x ∈ l, p x = q x) :
    l.takeWhile p = l.takeWhile q := by
  induction l with
  | nil => rfl
  | cons a l ih =>
    rw [List.takeWhile_cons, List.takeWhile_cons, h a List.mem_cons_self,
      ih fun x hx => h x (List.mem_cons_of_mem a hx)]

/-- A path among moved blocks. -/
def Path.moved (mode : Bitness) (d : UInt64) (p : Path) : Path :=
  ⟨p.blocks.map (mode.moved d), p.instructions.map (·.moved mode d)⟩

namespace MovesTo

variable {mode : Bitness} {d : UInt64} {range range' : CodeRange} {l : List Instruction}
  (h : MovesTo mode d range range' l)
include h

/-- **The blocks of moved code** are the moved blocks. -/
theorem blocks_moved :
    (ofInstructions range' (l.map (·.moved mode d))).blocks =
      (ofInstructions range l).blocks.map (Block.moved mode d range') := by
  have hsplit := splitBy_map fun i hi j hj => h.continues_moved (i := i) (j := j) hi hj
  simp only [ofInstructions, hsplit, List.filterMap_map, List.map_filterMap]
  exact congrArg (List.filterMap · _) (funext fun run => Block.ofRun_map mode d range range' run)

theorem ip_iff {i : Instruction} (hi : i ∈ l) {a : UInt64} (ha : a &&& mode.addressMask = a) :
    ((i.moved mode d).ip == mode.moved d a) = (i.ip == a) := by
  rw [Bool.eq_iff_iff, beq_iff_eq, beq_iff_eq]
  exact Bitness.moved_inj (h.address _ (h.inside i hi)) ha

theorem firstAt_moved {a : UInt64} (ha : range.contains a = true) :
    (ofInstructions range' (l.map (·.moved mode d))).firstAt (mode.moved d a) =
      ((ofInstructions range l).firstAt a).map (Block.moved mode d range') := by
  unfold firstAt
  rw [h.blocks_moved, List.find?_map]
  exact congrArg _ (List.find?_congr fun b hb => h.ip_iff (mem_listing hb List.mem_cons_self) (h.address a ha))

theorem ascending_moved : (l.map (·.moved mode d)).Pairwise fun i j => i.ip < j.ip := by
  refine ascending_of_inside h.spread' fun i hi => ?_
  obtain ⟨j, hj, rfl⟩ := List.mem_map.1 hi
  rw [Instruction.ip_moved, h.contains _ (h.address _ (h.inside j hj)), h.inside j hj]

theorem blockAt?_moved {a : UInt64} (ha : a &&& mode.addressMask = a) :
    (ofInstructions range' (l.map (·.moved mode d))).blockAt? (mode.moved d a) =
      ((ofInstructions range l).blockAt? a).map (Block.moved mode d range') := by
  rw [blockAt?_of_ascending h.spread (ascending_of_inside h.spread h.inside),
    blockAt?_of_ascending h.spread' h.ascending_moved, holder?, holder?,
    h.blocks_moved, List.find?_map]
  refine congrArg _ (List.find?_congr fun b hb => ?_)
  have hsame : ∀ is : List Instruction, (∀ i ∈ is, i ∈ l) →
      (is.map (·.moved mode d)).any (·.ip == mode.moved d a) = is.any (·.ip == a) := by
    intro is his
    induction is with
    | nil => rfl
    | cons i is ih =>
      rw [List.map_cons, List.any_cons, List.any_cons, h.ip_iff (his i List.mem_cons_self) ha,
        ih fun j hj => his j (List.mem_cons_of_mem i hj)]
  exact hsame b.instructions fun i hi => mem_listing hb hi

theorem successors_moved {b : Block} (hb : b ∈ (ofInstructions range l).blocks) :
    (b.moved mode d range').successors.filter (· != range'.start) =
      (b.successors.filter (· != range.start)).map (mode.moved d) := by
  have hlast := mem_listing hb b.last_mem
  have hways : List.Forall₂ (Corresponds mode d range range') ((Block.last b.head b.tail).ways?.getD
      [(Block.last b.head b.tail).nextIp]) ((((Block.last b.head b.tail).moved mode d).ways?.getD
        [((Block.last b.head b.tail).moved mode d).nextIp])) := by
    have hrel := h.ways?_moved hlast
    generalize (Block.last b.head b.tail).ways? = ways, ((Block.last b.head b.tail).moved mode d).ways? = ways' at hrel
    cases hrel with
    | none => exact .cons (h.corresponds_nextIp hlast) .nil
    | some hts => exact hts
  have hleads : ∀ (r : CodeRange) (ts : List UInt64),
      (ts.filter r.contains).filter (· != r.start) = ts.filter r.leads := by
    intro r ts
    rw [List.filter_filter]
    exact List.filter_congr fun a _ => Bool.and_comm _ _
  rw [successors_eq hb, Block.moved, Instruction.getD_successors?, Instruction.getD_successors?, hleads, hleads]
  exact filter_leads hways

variable (hne : range.contains range.start = true)
include hne

theorem relocates :
    Search.View.Relocates (range.contains · = true) (mode.moved d) (Block.moved mode d range') range.start
      (ofInstructions range l).firstAt (ofInstructions range' (l.map (·.moved mode d))).firstAt where
  start := hne
  injective a x ha hx := Bitness.moved_inj (h.address a ha) (h.address x hx)
  block a ha := h.firstAt_moved ha
  closed a b _ hb x hx := contains_of_mem_successors (List.mem_of_find?_eq_some hb) hx
  successors a b _ hb := by
    rw [← h.start]
    exact h.successors_moved (List.mem_of_find?_eq_some hb)

/-- **The chains to moved blocks** are the moved chains. -/
theorem chains_moved :
    Search.View.Moved (range.contains · = true) (mode.moved d)
      (Search.View.search (ofInstructions range l).firstAt (ofInstructions range l).blocks.length range.start)
      (Search.View.search (ofInstructions range' (l.map (·.moved mode d))).firstAt
        (ofInstructions range' (l.map (·.moved mode d))).blocks.length range'.start) := by
  rw [h.blocks_moved, List.length_map, h.start]
  exact (h.relocates hne).search _

theorem viewedChains_moved {a : UInt64} (ha : range.contains a = true) :
    (ofInstructions range' (l.map (·.moved mode d))).viewedChains (mode.moved d a) =
      ((ofInstructions range l).viewedChains a).map (List.map (mode.moved d)) :=
  (h.chains_moved hne).chains a ha

theorem findCall?_moved {t : UInt64} (ht : t &&& mode.addressMask = t) :
    (ofInstructions range' (l.map (·.moved mode d))).findCall? (mode.moved d t) =
      ((ofInstructions range l).findCall? t).map (mode.moved d) := by
  have hreached : ∀ b ∈ (ofInstructions range l).blocks,
      ((ofInstructions range' (l.map (·.moved mode d))).viewedChains (b.moved mode d range').start).isSome =
        ((ofInstructions range l).viewedChains b.start).isSome := by
    intro b hb
    have hinside : range.contains b.start = true := h.inside _ (mem_listing hb List.mem_cons_self)
    have hchains := h.viewedChains_moved hne hinside
    exact (congrArg Option.isSome hchains).trans Option.isSome_map
  have hcalls : ∀ i ∈ l, ((i.moved mode d).isNearCall && (i.moved mode d).nearTarget == mode.moved d t) =
      (i.isNearCall && i.nearTarget == t) := by
    intro i hi
    rw [Instruction.isNearCall_moved]
    rcases i.nearTarget_moved mode d with hmoved | ⟨hnot, -, -⟩
    · rw [hmoved]
      refine congrArg _ (Bool.eq_iff_iff.2 ?_)
      rw [beq_iff_eq, beq_iff_eq]
      exact Bitness.moved_inj (h.target i hi) ht
    · rw [hnot, Bool.false_and, Bool.false_and]
  rw [findCall?_eq_viewed h.spread, findCall?_eq_viewed h.spread', viewedCall?, viewedCall?, h.blocks_moved,
    List.filter_map, List.filter_congr (q := fun b => ((ofInstructions range l).viewedChains b.start).isSome) hreached,
    List.flatMap_map]
  simp only [Block.instructions_moved, ← List.map_flatMap, List.find?_map, Option.map_map]
  have hmem : ∀ i ∈ ((ofInstructions range l).blocks.filter fun b =>
      ((ofInstructions range l).viewedChains b.start).isSome).flatMap Block.instructions, i ∈ l := by
    intro i hi
    obtain ⟨b, hb, hi⟩ := List.mem_flatMap.1 hi
    exact mem_listing (List.mem_filter.1 hb).1 hi
  exact congrArg (Option.map _) (List.find?_congr fun i hi => hcalls i (hmem i hi))

theorem pathTo?_moved {x : UInt64} (hx : x &&& mode.addressMask = x) :
    (ofInstructions range' (l.map (·.moved mode d))).pathTo? (mode.moved d x) =
      ((ofInstructions range l).pathTo? x).map (Path.moved mode d) := by
  rw [pathTo?_eq_viewed h.spread, pathTo?_eq_viewed h.spread', viewedPath?, viewedPath?,
    ← blockAt?_eq_filter h.spread, ← blockAt?_eq_filter h.spread', h.blockAt?_moved hx]
  cases hgoal : (ofInstructions range l).blockAt? x with
  | none => rfl
  | some goal =>
    have hinside : range.contains goal.start = true :=
      h.inside _ (mem_listing (of_blockAt? hgoal).1 List.mem_cons_self)
    have hchains := h.viewedChains_moved hne hinside
    simp only [Option.map_some, Option.bind_eq_bind, Option.bind_some]
    cases hchain : (ofInstructions range l).viewedChains goal.start with
    | none =>
      rw [hchain, Option.map_none] at hchains
      exact congrArg (Option.bind · _) hchains
    | some chain =>
      rw [hchain, Option.map_some] at hchains
      have hwithin := (h.chains_moved hne).chainsWithin _ chain hchain
      have heach : ∀ start ∈ chain.reverse,
          (((ofInstructions range' (l.map (·.moved mode d))).firstAt (mode.moved d start)).map
            Block.instructions).getD [] =
          (((ofInstructions range l).firstAt start).map Block.instructions |>.getD []).map (·.moved mode d) := by
        intro start hstart
        rw [h.firstAt_moved (hwithin start (List.mem_reverse.1 hstart))]
        cases (ofInstructions range l).firstAt start <;> rfl
      have hmem : ∀ i ∈ chain.reverse.flatMap
          (fun start => (((ofInstructions range l).firstAt start).map Block.instructions).getD []), i ∈ l := by
        intro i hi
        obtain ⟨start, -, hi⟩ := List.mem_flatMap.1 hi
        cases hfirst : (ofInstructions range l).firstAt start with
        | none =>
          rw [hfirst] at hi
          cases hi
        | some b =>
          rw [hfirst] at hi
          exact mem_listing (List.mem_of_find?_eq_some hfirst) hi
      refine (congrArg (Option.bind · _) hchains).trans (congrArg some ?_)
      simp only [Path.moved, ← List.map_reverse, List.flatMap_map, List.flatMap_congr heach, ← List.map_flatMap,
        List.takeWhile_map]
      refine congrArg (Path.mk _) (congrArg (List.map _) (takeWhile_congr fun i hi => ?_))
      exact congrArg (!·) (h.ip_iff (hmem i hi) hx)

end MovesTo

/-! ## Moved code -/

variable {mode : Bitness} {d entry : UInt64} {code : List UInt8}

theorem contains_iff_exists (h : mode.Holds entry code) {a : UInt64} :
    (CodeRange.of entry code).contains a = true ↔ ∃ n < code.length, a = entry + n.toUInt64 := by
  have hstop := h.toNat_add (Nat.le_refl _)
  simp only [CodeRange.contains, CodeRange.of, Bool.and_eq_true, decide_eq_true_eq, UInt64.le_iff_toNat_le,
    UInt64.lt_iff_toNat_lt, hstop]
  constructor
  · rintro ⟨hle, hlt⟩
    refine ⟨a.toNat - entry.toNat, by omega, UInt64.toNat_inj.1 ?_⟩
    rw [h.toNat_add (by omega)]
    omega
  · rintro ⟨n, hn, rfl⟩
    rw [h.toNat_add (Nat.le_of_lt hn)]
    omega

theorem contains_stop (entry : UInt64) (code : List UInt8) :
    (CodeRange.of entry code).contains (entry + code.length.toUInt64) = false := by
  simp [CodeRange.contains, CodeRange.of]

theorem movesTo_sweep (hmoves : Encoding.Moves mode d entry code) (h : mode.Holds entry code)
    (h' : mode.Holds (mode.moved d entry) code) :
    MovesTo mode d (.of entry code) (.of (mode.moved d entry) code) (Encoding.sweep mode entry code) where
  spread := Encoding.isSpread_sweep mode entry (by have := h.ends; omega)
  spread' := by
    rw [← Encoding.sweep_moved hmoves h h']
    exact Encoding.isSpread_sweep mode _ (by have := h.ends; omega)
  start := rfl
  address a ha := by
    obtain ⟨n, hn, rfl⟩ := (contains_iff_exists h).1 ha
    have hwithin := h.within
    refine Bitness.and_addressMask_of_lt ?_
    rw [h.toNat_add (Nat.le_of_lt hn)]
    omega
  contains a ha := by
    rw [Bool.eq_iff_iff, contains_iff_exists h, contains_iff_exists h']
    refine exists_congr fun n => and_congr_right fun hn => ?_
    have hwithin := h.within
    have haddress : (entry + n.toUInt64) &&& mode.addressMask = entry + n.toUInt64 := by
      refine Bitness.and_addressMask_of_lt ?_
      rw [h.toNat_add (Nat.le_of_lt hn)]
      omega
    rw [← Bitness.moved_add h h' hn, Bitness.moved_inj ha haddress]
  inside i hi := by
    obtain ⟨n, hn, rfl⟩ := Encoding.exists_offset hi
    exact (contains_iff_exists h).2 ⟨n, hn, Encoding.ip_decode _ _ _⟩
  target i hi := by
    obtain ⟨n, hn, rfl⟩ := Encoding.exists_offset hi
    exact hmoves.target n hn
  next i hi := by
    obtain ⟨n, hn, hi⟩ := Encoding.exists_offset hi
    have hlength := Encoding.length_decode_le mode (entry + n.toUInt64) (code.drop n)
    have hip := Encoding.ip_decode mode (entry + n.toUInt64) (code.drop n)
    rw [← hi, List.length_drop] at hlength
    rw [← hi] at hip
    have hnext : i.nextIp = entry + (n + i.length).toUInt64 := by
      rw [Instruction.nextIp, hip, Encoding.add_toUInt64_add]
    have hnext' : (i.moved mode d).nextIp = mode.moved d entry + (n + i.length).toUInt64 := by
      rw [Instruction.nextIp, Instruction.ip_moved, hip, Bitness.moved_add h h' hn, ← Encoding.add_toUInt64_add]
      rfl
    rw [hnext, hnext']
    rcases Nat.lt_or_eq_of_le (show n + i.length ≤ code.length by omega) with hlt | heq
    · exact .inl ⟨(contains_iff_exists h).2 ⟨_, hlt, rfl⟩, (Bitness.moved_add h h' hlt).symm⟩
    · rw [heq]
      exact .inr ⟨contains_stop _ code, contains_stop _ code⟩

/-- The blocks of some code and of the same code moved: as many, with the same calls and paths but for the distance. -/
structure IsMoved (mode : Bitness) (d : UInt64) (f f' : ControlFlow) : Prop where
  blocks : f'.blocks.length = f.blocks.length
  call : ∀ t, t &&& mode.addressMask = t → f'.findCall? (mode.moved d t) = (f.findCall? t).map (mode.moved d)
  path : ∀ x, x &&& mode.addressMask = x → f'.pathTo? (mode.moved d x) = (f.pathTo? x).map (Path.moved mode d)

/-- A call that a branch jumps over, and a branch back to it. -/
def callBetweenBranches : List UInt8 :=
  [0x74, 0x05, 0xe8, 0xf9, 0xff, 0, 0, 0xeb, 0xf9]

end ControlFlow

end KernelOffsets
