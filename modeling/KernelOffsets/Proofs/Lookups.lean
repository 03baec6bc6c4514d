/-
A search sees its tables by look-ups alone (`Search.View`), so another table
with the same look-ups gives the same chains. Two uses: hash tables do not
compute inside a proof (nor does sorting), a list of blocks does, so calls and
paths of given code are found by computation (`ControlFlow.findCall?_build`,
`ControlFlow.pathTo?_build`); and what is never looked up does not matter
(`ControlFlow.chains_congr`).
-/
import KernelOffsets.Proofs.StartOrder
import KernelOffsets.Proofs.StraightLine

namespace KernelOffsets.ControlFlow

/-! ## The search by look-ups -/

namespace Search

/-- What can be looked up in a search. -/
structure View where
  chains : UInt64 → Option (List UInt64)
  fresh : List UInt64

/-- A search as it can be looked up. -/
def view (s : Search) : View := ⟨fun a => s.chains[a]?, s.fresh⟩

namespace View

def empty : View := ⟨fun _ => none, []⟩

variable (blocks : UInt64 → Option Block)

def enter (chain : List UInt64) (v : View) (start : UInt64) : View :=
  if (blocks start).isSome && (v.chains start).isNone then
    ⟨fun a => if start = a then some (start :: chain) else v.chains a, start :: v.fresh⟩
  else v

def expand (v : View) (start : UInt64) : View :=
  match blocks start, v.chains start with
  | some block, some chain => block.successors.foldl (enter blocks chain) v
  | _, _ => v

def round (v : View) : View :=
  v.fresh.reverse.foldl (expand blocks) { v with fresh := [] }

def rounds : Nat → View → View
  | 0, v => v
  | n + 1, v => if v.fresh.isEmpty then v else rounds n (v.round blocks)

/-- The whole search, in at most `n` rounds. -/
def search (n : Nat) (entry : UInt64) : View :=
  rounds blocks n (enter blocks [] empty entry)

end View

variable {table : Std.HashMap UInt64 Block} {blocks : UInt64 → Option Block} (htable : ∀ a, table[a]? = blocks a)

theorem view_empty : empty.view = .empty := by
  simp [view, empty, View.empty]

include htable

theorem view_enter (chain : List UInt64) (s : Search) (start : UInt64) :
    (s.enter table chain start).view = s.view.enter blocks chain start := by
  have hsame : (table.contains start && !s.chains.contains start) =
      ((blocks start).isSome && (s.view.chains start).isNone) := by
    rw [Std.HashMap.contains_eq_isSome_getElem?, Std.HashMap.contains_eq_isSome_getElem?, htable, Option.not_isSome]
    rfl
  unfold enter View.enter
  rw [hsame]
  split
  · refine congrArg (View.mk · _) (funext fun a => ?_)
    simp only [Std.HashMap.getElem?_insert, beq_iff_eq]
    rfl
  · rfl

theorem view_enterAll (chain : List UInt64) :
    ∀ (targets : List UInt64) (s : Search),
      (targets.foldl (enter table chain) s).view = targets.foldl (View.enter blocks chain) s.view
  | [], _ => rfl
  | a :: targets, s => by
    rw [List.foldl_cons, List.foldl_cons, view_enterAll chain targets, view_enter htable]

theorem view_expand (s : Search) (start : UInt64) : (s.expand table start).view = s.view.expand blocks start := by
  have hchain : s.chains[start]? = s.view.chains start := rfl
  unfold expand View.expand
  rw [htable, hchain]
  cases blocks start with
  | none => rfl
  | some b =>
    cases s.view.chains start with
    | none => rfl
    | some chain => exact view_enterAll htable chain b.successors s

theorem view_expandAll :
    ∀ (starts : List UInt64) (s : Search),
      (starts.foldl (expand table) s).view = starts.foldl (View.expand blocks) s.view
  | [], _ => rfl
  | a :: starts, s => by
    rw [List.foldl_cons, List.foldl_cons, view_expandAll starts, view_expand htable]

theorem view_round (s : Search) : (s.round table).view = s.view.round blocks :=
  view_expandAll htable _ _

theorem view_rounds (n : Nat) (s : Search) : (s.rounds table n).view = s.view.rounds blocks n := by
  induction n generalizing s with
  | zero => rfl
  | succ n ih =>
    have hfresh : s.view.fresh = s.fresh := rfl
    unfold rounds View.rounds
    rw [hfresh]
    split
    · rfl
    · rw [ih, view_round htable]

end Search

/-- **A search depends on the look-ups of its blocks.** -/
theorem view_search (f : ControlFlow) {blocks : UInt64 → Option Block} (hblocks : ∀ a, f.index[a]? = blocks a) :
    f.search.view = .search blocks f.blocks.length f.entry := by
  show (Search.rounds f.index f.blocks.length _).view = _
  rw [Search.view_rounds hblocks, Search.view_enter hblocks, Search.view_empty]
  rfl

/-! ## What is not looked up -/

namespace Search.View

variable {known : UInt64 → Prop} {blocks blocks' : UInt64 → Option Block}

/-- Blocks that are the same at known addresses and lead to known addresses from there. -/
structure Agree (known : UInt64 → Prop) (blocks blocks' : UInt64 → Option Block) : Prop where
  same : ∀ a, known a → blocks a = blocks' a
  closed : ∀ a block, known a → blocks a = some block → ∀ b ∈ block.successors, known b

/-- Only known addresses are fresh. -/
def Within (known : UInt64 → Prop) (v : View) : Prop := ∀ a ∈ v.fresh, known a

namespace Agree

variable (h : Agree known blocks blocks')
include h

theorem enter {v : View} (hv : v.Within known) (chain : List UInt64) {a : UInt64} (ha : known a) :
    v.enter blocks chain a = v.enter blocks' chain a ∧ (v.enter blocks chain a).Within known := by
  constructor
  · rw [View.enter, View.enter, h.same a ha]
  · unfold View.enter
    split
    · intro b hb
      rcases List.mem_cons.1 hb with rfl | hb
      · exact ha
      · exact hv b hb
    · exact hv

theorem enterAll (chain : List UInt64) :
    ∀ (targets : List UInt64) {v : View}, v.Within known → (∀ a ∈ targets, known a) →
      targets.foldl (View.enter blocks chain) v = targets.foldl (View.enter blocks' chain) v ∧
        (targets.foldl (View.enter blocks chain) v).Within known
  | [], _, hv, _ => ⟨rfl, hv⟩
  | a :: targets, v, hv, hall => by
    obtain ⟨heq, hwithin⟩ := h.enter hv chain (hall a List.mem_cons_self)
    rw [List.foldl_cons, List.foldl_cons, ← heq]
    exact enterAll chain targets hwithin fun b hb => hall b (List.mem_cons_of_mem a hb)

theorem expand {v : View} (hv : v.Within known) {a : UInt64} (ha : known a) :
    v.expand blocks a = v.expand blocks' a ∧ (v.expand blocks a).Within known := by
  unfold View.expand
  rw [← h.same a ha]
  cases hblock : blocks a with
  | none => exact ⟨rfl, hv⟩
  | some block =>
    cases v.chains a with
    | none => exact ⟨rfl, hv⟩
    | some chain => exact h.enterAll chain block.successors hv (h.closed a block ha hblock)

theorem expandAll :
    ∀ (starts : List UInt64) {v : View}, v.Within known → (∀ a ∈ starts, known a) →
      starts.foldl (View.expand blocks) v = starts.foldl (View.expand blocks') v ∧
        (starts.foldl (View.expand blocks) v).Within known
  | [], _, hv, _ => ⟨rfl, hv⟩
  | a :: starts, v, hv, hall => by
    obtain ⟨heq, hwithin⟩ := h.expand hv (hall a List.mem_cons_self)
    rw [List.foldl_cons, List.foldl_cons, ← heq]
    exact expandAll starts hwithin fun b hb => hall b (List.mem_cons_of_mem a hb)

theorem round {v : View} (hv : v.Within known) :
    v.round blocks = v.round blocks' ∧ (v.round blocks).Within known := by
  refine h.expandAll _ ?_ fun a ha => hv a (List.mem_reverse.1 ha)
  intro a ha
  cases ha

theorem rounds {v : View} (hv : v.Within known) (n : Nat) : v.rounds blocks n = v.rounds blocks' n := by
  induction n generalizing v with
  | zero => rfl
  | succ n ih =>
    obtain ⟨heq, hwithin⟩ := h.round hv
    unfold View.rounds
    rw [← heq]
    split
    · rfl
    · exact ih hwithin

/-- **Blocks that agree where a search looks** give the same search. -/
theorem search {entry : UInt64} (hentry : known entry) (n : Nat) :
    View.search blocks n entry = View.search blocks' n entry := by
  have hempty : View.empty.Within known := fun a ha => nomatch ha
  obtain ⟨heq, hwithin⟩ := h.enter hempty [] hentry
  rw [View.search, View.search, ← heq]
  exact h.rounds hwithin n

end Agree

theorem rounds_of_fresh {v : View} (hfresh : v.fresh = []) (n : Nat) : v.rounds blocks n = v := by
  cases n with
  | zero => rfl
  | succ n => simp [rounds, hfresh]

theorem rounds_add (v : View) (m n : Nat) : v.rounds blocks (m + n) = (v.rounds blocks m).rounds blocks n := by
  induction m generalizing v with
  | zero => rw [Nat.zero_add]; rfl
  | succ m ih =>
    by_cases hfresh : v.fresh = []
    · rw [rounds_of_fresh hfresh, rounds_of_fresh hfresh, rounds_of_fresh hfresh]
    · have hne : v.fresh.isEmpty = false := by simp [hfresh]
      rw [Nat.succ_add, rounds, rounds, if_neg (by simp [hne]), if_neg (by simp [hne]), ih]

/-- Two searches that both came to an end are the same, however many rounds they were given. -/
theorem search_eq {entry : UInt64} {m n : Nat} (hm : (search blocks m entry).fresh = [])
    (hn : (search blocks n entry).fresh = []) : search blocks m entry = search blocks n entry := by
  have more : ∀ {m n : Nat}, m ≤ n → (search blocks m entry).fresh = [] →
      search blocks n entry = search blocks m entry := by
    intro m n hle hm
    obtain ⟨k, rfl⟩ := Nat.exists_eq_add_of_le hle
    rw [search, rounds_add]
    exact rounds_of_fresh hm k
  rcases Nat.le_total m n with hle | hle
  · exact (more hle hm).symm
  · exact more hle hn

end Search.View

theorem fresh_search (f : ControlFlow) : f.search.fresh = [] := by
  cases hentry : f.index.contains f.entry with
  | true => exact (exists_depth hentry).2.choose_spec.2
  | false => rw [search_of_not_contains hentry]; rfl

/-- **Blocks that are not looked up do not matter** for the chains to those that are. -/
theorem chains_congr (f f' : ControlFlow) {known : UInt64 → Prop} (hentry : f.entry = f'.entry)
    (hknown : known f.entry) (h : Search.View.Agree known (f.index[·]?) (f'.index[·]?)) (a : UInt64) :
    f.search.chains[a]? = f'.search.chains[a]? := by
  have hview := view_search f fun _ => rfl
  have hview' := view_search f' fun _ => rfl
  have hfresh := congrArg Search.View.fresh hview
  have hfresh' := congrArg Search.View.fresh hview'
  rw [← hentry, ← h.search hknown] at hview' hfresh'
  have hsame := Search.View.search_eq (hfresh.symm.trans f.fresh_search) (hfresh'.symm.trans f'.fresh_search)
  have heq : f.search.view = f'.search.view := hview.trans (hsame.trans hview'.symm)
  exact congrArg (Search.View.chains · a) heq

/-! ## Calls and paths by computation -/

/-- The addresses at which a block must start, as a list. -/
def leaderList (range : CodeRange) (l : List Instruction) : List UInt64 :=
  range.start :: l.flatMap fun i =>
    match i.successors? range with
    | some successors => i.nextIp :: successors
    | none => []

/-- The blocks of some code, found with lists. -/
def listed (mode : Bitness) (code : List UInt8) (entry : UInt64) : ControlFlow :=
  let range := CodeRange.of entry code
  let l := Encoding.sweepWithin mode code.length entry code
  let starts := leaderList range l
  ⟨entry, (l.splitBy fun before i => (before.successors? range).isNone && !starts.contains i.ip).filterMap
    (Block.ofRun range)⟩

theorem build_eq_listed (mode : Bitness) (code : List UInt8) (entry : UInt64) :
    build mode code entry = listed mode code entry := by
  have hcontinues : ∀ (range : CodeRange) (l : List Instruction), continues range (leaders range l) =
      fun before i => (before.successors? range).isNone && !(leaderList range l).contains i.ip := by
    intro range l
    funext before i
    rw [continues, leaders, Std.HashSet.contains_ofList]
    rfl
  rw [listed, ← Encoding.sweep_eq_sweepWithin (Nat.le_refl _), build, ofInstructions, hcontinues]
  rfl

/-- The first block at an address. -/
def firstAt (f : ControlFlow) (start : UInt64) : Option Block :=
  f.blocks.find? (·.start == start)

/-- The chains of a search in a list of blocks. -/
def viewedChains (f : ControlFlow) : UInt64 → Option (List UInt64) :=
  (Search.View.search f.firstAt f.blocks.length f.entry).chains

/-- The address of the lowest near call that can be reached, found in a list of blocks. -/
def viewedCall? (f : ControlFlow) (target : UInt64) : Option UInt64 :=
  (((f.blocks.filter fun b => (f.viewedChains b.start).isSome).flatMap Block.instructions).find?
    fun i => i.isNearCall && i.nearTarget == target).map (·.ip)

/-- The path to an instruction, found in a list of blocks. -/
def viewedPath? (f : ControlFlow) (target : UInt64) : Option Path := do
  let goal ← (f.holder? target).filter (·.start ≤ target)
  let chain ← f.viewedChains goal.start
  let instructions := chain.reverse.flatMap fun start => ((f.firstAt start).map Block.instructions).getD []
  return { blocks := chain.reverse, instructions := instructions.takeWhile (·.ip != target) }

section Listing

variable {range : CodeRange} {l : List Instruction} (h : IsListing range l)
include h

theorem getElem?_index_eq (a : UInt64) :
    (ofInstructions range l).index[a]? = (ofInstructions range l).firstAt a := by
  cases hfound : (ofInstructions range l).firstAt a with
  | some b =>
    have hstart := List.find?_some hfound
    exact (getElem?_index h).2 ⟨List.mem_of_find?_eq_some hfound, eq_of_beq hstart⟩
  | none =>
    cases hindex : (ofInstructions range l).index[a]? with
    | none => rfl
    | some b =>
      obtain ⟨hb, hstart⟩ := (getElem?_index h).1 hindex
      have hnot := List.find?_eq_none.1 hfound b hb
      simp [hstart] at hnot

theorem chains_search_eq (a : UInt64) :
    (ofInstructions range l).search.chains[a]? = (ofInstructions range l).viewedChains a :=
  congrArg (Search.View.chains · a) (view_search _ (getElem?_index_eq h))

end Listing

section Spread

variable {range : CodeRange} {l : List Instruction} (h : IsSpread range l)
include h

theorem findCall?_eq_viewed (target : UInt64) :
    (ofInstructions range l).findCall? target = (ofInstructions range l).viewedCall? target := by
  simp only [findCall?, reachable_eq_filter h, viewedCall?, Std.HashMap.contains_eq_isSome_getElem?,
    chains_search_eq h.toIsListing]

theorem pathTo?_eq_viewed (target : UInt64) :
    (ofInstructions range l).pathTo? target = (ofInstructions range l).viewedPath? target := by
  simp only [pathTo?, viewedPath?, blockAt?_eq_filter h, chains_search_eq h.toIsListing, getElem?_index_eq h.toIsListing]
  refine congrArg _ (funext fun goal => congrArg _ (funext fun chain => ?_))
  refine congrArg (fun l => some (Path.mk _ (List.takeWhile _ l))) (congrArg (List.flatMap · _) (funext fun start => ?_))
  cases (ofInstructions range l).firstAt start <;> rfl

end Spread

variable {mode : Bitness} {code : List UInt8} {entry : UInt64}

theorem findCall?_build (hsize : code.length ≤ UInt64.size) (target : UInt64) :
    (build mode code entry).findCall? target = (listed mode code entry).viewedCall? target := by
  rw [← build_eq_listed]
  exact findCall?_eq_viewed (Encoding.isSpread_sweep mode entry hsize) target

theorem pathTo?_build (hsize : code.length ≤ UInt64.size) (target : UInt64) :
    (build mode code entry).pathTo? target = (listed mode code entry).viewedPath? target := by
  rw [← build_eq_listed]
  exact pathTo?_eq_viewed (Encoding.isSpread_sweep mode entry hsize) target

end KernelOffsets.ControlFlow
