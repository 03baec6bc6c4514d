/-
Code without branches. Instructions of which none ends a block form one block
(`ControlFlow.ofInstructions_straight`), so a search finds the first call in
it, and the path to the call is all that stands before it
(`Resolver.locate_straight`).
-/
import KernelOffsets.ControlFlow.Cover
import KernelOffsets.Proofs.Search
import KernelOffsets.Proofs.Tracking

namespace KernelOffsets

/-! ## One block -/

namespace ControlFlow

/-- Whether instructions run from the start of their range up to higher addresses, none of them leaving the line. -/
def isStraight (range : CodeRange) : List Instruction → Bool
  | [] => false
  | i :: rest =>
    i.ip == range.start && (i :: rest).all (fun j => (j.successors? range).isNone) &&
      rest.all (range.start < ·.ip)

/-- The block of a straight line. -/
def lineBlock (range : CodeRange) (head : Instruction) (tail : List Instruction) : Block where
  head := head
  tail := tail
  successors := [(Block.last head tail).nextIp].filter range.contains

variable {range : CodeRange} {i : Instruction} {rest : List Instruction}

@[simp] theorem instructions_lineBlock : (lineBlock range i rest).instructions = i :: rest := rfl

theorem isStraight_cons :
    isStraight range (i :: rest) = true ↔
      i.ip = range.start ∧ (∀ j ∈ i :: rest, j.successors? range = none) ∧ ∀ j ∈ rest, range.start < j.ip := by
  simp only [isStraight, Bool.and_eq_true, List.all_eq_true, Option.isNone_iff_eq_none, beq_iff_eq, decide_eq_true_eq,
    and_assoc]

/-- Only the first address starts a block. -/
theorem leaders_straight (h : isStraight range (i :: rest) = true) :
    leaders range (i :: rest) = .ofList [range.start] := by
  obtain ⟨-, hnone, -⟩ := isStraight_cons.1 h
  rw [leaders, List.flatMap_eq_nil_iff.2]
  intro j hj
  rw [hnone j hj]

/-- **A straight line is one block.** -/
theorem ofInstructions_straight (h : isStraight range (i :: rest) = true) :
    ofInstructions range (i :: rest) = ⟨range.start, [lineBlock range i rest]⟩ := by
  obtain ⟨-, hnone, hips⟩ := isStraight_cons.1 h
  have hchain : (i :: rest).IsChain fun a b => continues range (leaders range (i :: rest)) a b = true := by
    have hall : ∀ a ∈ i :: rest, ∀ b ∈ rest, continues range (leaders range (i :: rest)) a b = true := by
      intro a ha b hb
      simp [leaders_straight h, continues, hnone a ha, UInt64.ne_of_lt (hips b hb)]
    refine List.Pairwise.isChain (List.pairwise_cons.2 ⟨hall i List.mem_cons_self, ?_⟩)
    exact List.pairwise_of_forall_mem_list fun a ha b hb => hall a (List.mem_cons_of_mem i ha) b hb
  have hlast : (Block.last i rest).successors? range = none := hnone _ (List.getLast_mem _)
  rw [ofInstructions, List.splitBy_of_isChain (List.cons_ne_nil i rest) hchain]
  simp [Block.ofRun, lineBlock, hlast]

/-! ## The search -/

section Line

variable (h : isStraight range (i :: rest) = true)
include h

theorem index_straight : (ofInstructions range (i :: rest)).index[range.start]? = some (lineBlock range i rest) := by
  have hstart : (lineBlock range i rest).start = range.start := (isStraight_cons.1 h).1
  rw [ofInstructions_straight h]
  simp [index, hstart]

theorem chain_straight : (ofInstructions range (i :: rest)).search.chains[range.start]? = some [range.start] := by
  have hentry : (ofInstructions range (i :: rest)).index.contains (ofInstructions range (i :: rest)).entry = true :=
    contains_iff.2 ⟨_, index_straight h⟩
  exact (exists_depth hentry).1.root

/-- The first call of a target in a straight line. -/
theorem findCall?_straight (target : UInt64) :
    (ofInstructions range (i :: rest)).findCall? target =
      ((i :: rest).find? fun j => j.isNearCall && j.nearTarget == target).map (·.ip) := by
  have hstart : (lineBlock range i rest).start = range.start := (isStraight_cons.1 h).1
  have hreach : (ofInstructions range (i :: rest)).reachable = [lineBlock range i rest] := by
    have hchain : (ofInstructions range (i :: rest)).search.chains.contains range.start = true :=
      contains_iff.2 ⟨_, chain_straight h⟩
    rw [reachable, byStart]
    rw [ofInstructions_straight h] at hchain ⊢
    simp [hstart, hchain]
  rw [findCall?, hreach, List.flatMap_singleton, instructions_lineBlock]

/-- The path to an instruction of a straight line is all that stands before it. -/
theorem pathTo?_straight {j : Instruction} (hj : j ∈ i :: rest) :
    ((ofInstructions range (i :: rest)).pathTo? j.ip).map (·.instructions) =
      some ((i :: rest).takeWhile (·.ip != j.ip)) := by
  obtain ⟨hfirst, -, hbehind⟩ := isStraight_cons.1 h
  have hstart : (lineBlock range i rest).start = range.start := hfirst
  have hle : (lineBlock range i rest).start ≤ j.ip := by
    rw [hstart]
    rcases List.mem_cons.1 hj with rfl | hj
    · exact UInt64.le_of_eq hfirst.symm
    · exact UInt64.le_of_lt (hbehind j hj)
  have hgoal : (ofInstructions range (i :: rest)).blockAt? j.ip = some (lineBlock range i rest) := by
    have hany : (lineBlock range i rest).instructions.any (·.ip == j.ip) = true :=
      List.any_eq_true.2 ⟨j, hj, beq_self_eq_true _⟩
    rw [ofInstructions_straight h, blockAt?, byStart, List.mergeSort_singleton]
    simp only [List.filter_cons, hle, decide_true, if_true, List.filter_nil, List.getLast?_singleton,
      Option.filter_some, hany]
  simp [pathTo?, hgoal, hstart, chain_straight h, index_straight h]

end Line

end ControlFlow

/-! ## The located call -/

namespace Resolver

variable {s : Resolver} {anchor target : String} {function callee : UInt64} {code : List UInt8}

/-- **The call in code without branches** is the first one, and the path to it is all that stands before it. -/
theorem locate_straight {call : UInt64} (hanchor : s.symbols anchor = some function)
    (htarget : s.symbols target = some callee)
    (hcode : s.image.functionCode function s.settings.scanWindow = .ok code)
    (hline : ControlFlow.isStraight ⟨function, function + code.length.toUInt64⟩
      (Encoding.sweep s.image.bitness function code) = true)
    (hcall : ((Encoding.sweep s.image.bitness function code).find?
      fun i => i.isNearCall && i.nearTarget == callee).map (·.ip) = some call) :
    s.locate anchor target =
      .ok (call, (Encoding.sweep s.image.bitness function code).takeWhile (·.ip != call)) := by
  obtain ⟨i, hfound, rfl⟩ := Option.map_eq_some_iff.1 hcall
  have hmem := List.mem_of_find?_eq_some hfound
  generalize hl : Encoding.sweep s.image.bitness function code = l at hline hcall hfound hmem
  cases l with
  | nil => cases hfound
  | cons head tail =>
    have hfind := ControlFlow.findCall?_straight hline callee
    have hpath := ControlFlow.pathTo?_straight hline hmem
    rw [hcall] at hfind
    obtain ⟨path, hsome, hinstructions⟩ := Option.map_eq_some_iff.1 hpath
    have hlocated : (s.image.locateCall s.symbols anchor target s.settings.scanWindow).result =
        .ok (⟨function, function + code.length.toUInt64, i.ip, callee⟩,
          ControlFlow.ofInstructions ⟨function, function + code.length.toUInt64⟩ (head :: tail)) := by
      simp only [Image.locateCall, hanchor, htarget, hcode, Logged.result_bind, Logged.require, Logged.result_pure,
        Logged.result_note, Logged.result_ofExcept, ControlFlow.result_survey, ControlFlow.build, hl, hfind, Except.bind]
    rw [locate, hlocated]
    simp only [bind, Except.bind, hsome, hinstructions]

end Resolver

/-! ## Code on its own -/

/-- The instructions of a sweep, of which there are at most `n`. -/
def Encoding.sweepWithin (mode : Bitness) : Nat → UInt64 → List UInt8 → List Instruction
  | n + 1, ip, b :: rest =>
    let i := decode mode ip (b :: rest)
    i :: sweepWithin mode n i.nextIp (rest.drop (i.length - 1))
  | _, _, _ => []

/-- There are no more instructions than bytes. -/
theorem Encoding.sweep_eq_sweepWithin {mode : Bitness} :
    ∀ {n : Nat} {ip : UInt64} {bytes : List UInt8}, bytes.length ≤ n →
      sweep mode ip bytes = sweepWithin mode n ip bytes
  | 0, ip, [], _ => sweep_nil mode ip
  | n + 1, ip, [], _ => sweep_nil mode ip
  | n + 1, ip, b :: rest, h => by
    rw [sweep_cons, sweepWithin, sweep_eq_sweepWithin]
    simp only [List.length_cons, List.length_drop] at h ⊢
    omega

namespace Resolver

/-- A search in an image that is the code of the anchor and nothing else. The target lies outside of it. -/
def alone (b : Bitness) (code : List UInt8) (settings : Settings := {}) : Resolver where
  image := .ofBytes 0x10000 b code.toArray
  symbols name := if name = "anchor" then some 0x10000 else if name = "target" then some 0x20000 else none
  settings := settings

/-- A search in an image that is the code of the anchor, at another address. -/
def aloneAt (base : UInt64) (b : Bitness) (code : List UInt8) : Resolver where
  image := .ofBytes base b code.toArray
  symbols name := if name = "anchor" then some base else if name = "target" then some 0x20000 else none
  settings := {}

/-- The instructions of an anchor on its own. -/
def listing (b : Bitness) (code : List UInt8) : List Instruction :=
  Encoding.sweepWithin b code.length 0x10000 code

theorem functionCode_ofBytes {base : UInt64} {b : Bitness} {code : List UInt8} (hpos : 0 < code.length)
    (window : Nat) : (Image.ofBytes base b code.toArray).functionCode base window = .ok (code.take window) := by
  have hrva : (Image.ofBytes base b code.toArray).rva? base = some 0 := by
    simp [Image.rva?, Image.ofBytes, Image.size, hpos]
  have hbytes : (Image.ofBytes base b code.toArray).bytesFrom? base = some code := by
    rw [Image.bytesFrom?, hrva]
    simp [Image.ofBytes, Image.size]
  have hlength : (Image.ofBytes base b code.toArray).codeLength base window = window := by
    rw [Image.codeLength, Image.functionAt?, Image.extent?, hrva]
    rfl
  rw [Image.functionCode, hbytes]
  simp only [hlength]

theorem functionCode_alone {base : UInt64} {b : Bitness} {code : List UInt8} {window : Nat}
    (hpos : 0 < code.length) (hwindow : code.length ≤ window) :
    (Image.ofBytes base b code.toArray).functionCode base window = .ok code := by
  rw [functionCode_ofBytes hpos, List.take_of_length_le hwindow]

theorem locate_alone (b : Bitness) (code : List UInt8) (settings : Settings) (call : UInt64)
    (hpos : 0 < code.length) (hwindow : code.length ≤ settings.scanWindow)
    (hline : ControlFlow.isStraight ⟨0x10000, 0x10000 + code.length.toUInt64⟩ (listing b code) = true)
    (hcall : ((listing b code).find? fun i => i.isNearCall && i.nearTarget == 0x20000).map (·.ip) = some call) :
    (alone b code settings).locate "anchor" "target" = .ok (call, (listing b code).takeWhile (·.ip != call)) := by
  have hlisting : Encoding.sweep b 0x10000 code = listing b code :=
    Encoding.sweep_eq_sweepWithin (Nat.le_refl _)
  have hcode : (Image.ofBytes 0x10000 b code.toArray).functionCode 0x10000 settings.scanWindow = .ok code :=
    functionCode_alone hpos hwindow
  rw [← hlisting] at hline hcall ⊢
  exact locate_straight (s := alone b code settings) rfl rfl hcode hline hcall

end Resolver

end KernelOffsets
