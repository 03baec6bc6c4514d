/-
Why a search that found a call can still give no offset. The call stands in a
block that was reached, so there is a path to it unless that block begins above
the call, which takes code that passes the end of the address space
(`ControlFlow.isSome_pathTo?_of_findCall?`). Control goes on from every
instruction of the path, so each of them is valid. What is left is the budget
and what the register holds at the call (`Resolver.tracked_divergences`).
-/
import KernelOffsets.Proofs.ShortestPath
import KernelOffsets.Proofs.StraightLine
import KernelOffsets.Proofs.Verdict

namespace KernelOffsets

/-! ## Calls and paths -/

namespace ControlFlow

variable {range : CodeRange} {l : List Instruction} {b : Block} {i : Instruction} {a target c : UInt64}

/-- There is a path to what the lookup finds, if that can be reached. -/
theorem isSome_pathTo?_iff {f : ControlFlow} :
    (f.pathTo? a).isSome = true ↔ ∃ b ∈ f.reachable, f.blockAt? a = some b := by
  rw [Option.isSome_iff_exists]
  constructor
  · rintro ⟨p, hp⟩
    obtain ⟨b, chain, hb, hchain, -⟩ := pathTo?_eq_some_iff.1 hp
    exact ⟨b, (mem_reachable (of_blockAt? hb).1).2 ⟨chain, hchain⟩, hb⟩
  · rintro ⟨b, hreach, hb⟩
    obtain ⟨chain, hchain⟩ := (mem_reachable (of_blockAt? hb).1).1 hreach
    exact ⟨_, pathTo?_eq_some_iff.2 ⟨b, chain, hb, hchain, rfl⟩⟩

/-- A call that is found stands in a block that can be reached. -/
theorem exists_of_findCall? {f : ControlFlow} (h : f.findCall? target = some c) :
    ∃ b ∈ f.reachable, ∃ i ∈ b.instructions, i.ip = c := by
  obtain ⟨i, hfound, rfl⟩ := Option.map_eq_some_iff.1 h
  obtain ⟨b, hreach, hi⟩ := List.mem_flatMap.1 (List.mem_of_find?_eq_some hfound)
  exact ⟨b, hreach, i, hi, rfl⟩

theorem valid_of_pathTo? (h : IsListing range l) {p : Path} (hp : (ofInstructions range l).pathTo? target = some p) :
    ∀ i ∈ p.instructions, i.isInvalid = false :=
  (isShortestPath h hp).walk.isInvalid_eq_false

section Spread

variable (h : IsSpread range l)
include h

/-- A block that can be reached starts above an instruction of it only if the range does. -/
theorem start_le_iff (hb : b ∈ (ofInstructions range l).reachable) (hi : i ∈ b.instructions) :
    b.start ≤ i.ip ↔ range.start ≤ i.ip := by
  have hmem := mem_blocks_of_mem_reachable hb
  rcases h.inside with hinside | hempty
  · have hcontains := hinside i (mem_listing hmem hi)
    simp only [CodeRange.contains, Bool.and_eq_true, decide_eq_true_eq] at hcontains
    exact iff_of_true (start_le (ascending_of_inside h hinside) hmem hi) hcontains.1
  · obtain ⟨chain, hchain⟩ := (mem_reachable hmem).1 hb
    rw [eq_start_of_chain h hempty hchain]

/-- **There is a path to a call that is found**, unless it stands below the entry. -/
theorem isSome_pathTo?_of_findCall? (hcall : (ofInstructions range l).findCall? target = some c) :
    ((ofInstructions range l).pathTo? c).isSome = true ↔ range.start ≤ c := by
  obtain ⟨b, hreach, i, hi, rfl⟩ := exists_of_findCall? hcall
  have hb := mem_blocks_of_mem_reachable hreach
  rw [isSome_pathTo?_iff, ← start_le_iff h hreach hi]
  constructor
  · rintro ⟨goal, -, hgoal⟩
    obtain ⟨hmem, hle, j, hj, hip⟩ := of_blockAt? hgoal
    obtain ⟨rfl, -⟩ := eq_of_ip_eq h.toIsListing hmem hb hj hi hip
    exact hle
  · intro hle
    exact ⟨b, hreach, (blockAt?_eq_some_iff h).2 ⟨hb, hle, i, hi, rfl⟩⟩

end Spread

/--
Paths lead to what the lookup finds and can be reached, over valid instructions
only; to a call that is found they lead unless it stands below the entry.
-/
structure FindsPaths (f : ControlFlow) : Prop where
  found : ∀ a, (f.pathTo? a).isSome = true ↔ ∃ b ∈ f.reachable, f.blockAt? a = some b
  call : ∀ {target c : UInt64}, f.findCall? target = some c → ((f.pathTo? c).isSome = true ↔ f.entry ≤ c)
  valid : ∀ {target : UInt64} {p : Path}, f.pathTo? target = some p → ∀ i ∈ p.instructions, i.isInvalid = false

/-- Paths lead to what can be reached, and to every call that is found, over valid instructions only. -/
structure HasPaths (f : ControlFlow) (l : List Instruction) : Prop where
  call : ∀ {target c : UInt64}, f.findCall? target = some c →
    ∃ p, f.pathTo? c = some p ∧ ∀ i ∈ p.instructions, i.isInvalid = false
  reachable : ∀ i ∈ l, ∃ b, f.blockAt? i.ip = some b ∧ i ∈ b.instructions ∧
    ((f.pathTo? i.ip).isSome = true ↔ b ∈ f.reachable)

theorem findsPaths_build (mode : Bitness) (entry : UInt64) {code : List UInt8} (hsize : code.length ≤ UInt64.size) :
    (build mode code entry).FindsPaths where
  found _ := isSome_pathTo?_iff
  call hcall := isSome_pathTo?_of_findCall? (Encoding.isSpread_sweep mode entry hsize) hcall
  valid hp := valid_of_pathTo? (Encoding.isListing_sweep mode entry hsize) hp

/-- A call in code that does not pass the end of the address space does not stand below the entry. -/
theorem le_of_findCall? {mode : Bitness} {entry : UInt64} {code : List UInt8}
    (hfits : entry.toNat + code.length ≤ UInt64.size) (hcall : (build mode code entry).findCall? target = some c) :
    entry ≤ c := by
  obtain ⟨b, hreach, i, hi, rfl⟩ := exists_of_findCall? hcall
  obtain ⟨n, hn, rfl⟩ := Encoding.exists_offset (mem_listing (mem_blocks_of_mem_reachable hreach) hi)
  rw [Encoding.ip_decode, UInt64.le_iff_toNat_le, Encoding.toNat_add_toUInt64, Nat.mod_eq_of_lt (by omega)]
  exact Nat.le_add_right _ _

theorem hasPaths_build (mode : Bitness) (entry : UInt64) {code : List UInt8}
    (hfits : entry.toNat + code.length ≤ UInt64.size) :
    (build mode code entry).HasPaths (Encoding.sweep mode entry code) := by
  have hsize : code.length ≤ UInt64.size := by omega
  have hspread := Encoding.isSpread_sweep mode entry hsize
  have hfinds := findsPaths_build mode entry hsize
  constructor
  · intro target c hcall
    obtain ⟨p, hp⟩ := Option.isSome_iff_exists.1 ((hfinds.call hcall).2 (le_of_findCall? hfits hcall))
    exact ⟨p, hp, hfinds.valid hp⟩
  · intro i hi
    obtain ⟨b, hb, hmem⟩ := exists_block (.of entry code) hi
    have hat : (build mode code entry).blockAt? i.ip = some b :=
      (blockAt?_eq_some_iff hspread).2 ⟨hb, start_le (Encoding.ascending_sweep mode hfits) hb hmem, i, hmem, rfl⟩
    refine ⟨b, hat, hmem, ?_⟩
    rw [hfinds.found, hat]
    simp

/-- A path has fewer instructions than the code has bytes. -/
theorem length_pathTo?_lt {mode : Bitness} {entry target : UInt64} {code : List UInt8} {p : Path}
    (hsize : code.length ≤ UInt64.size) (hp : (build mode code entry).pathTo? target = some p) :
    p.instructions.length < code.length :=
  Nat.lt_of_lt_of_le (isShortestPath (Encoding.isListing_sweep mode entry hsize) hp).fewer
    (Encoding.length_sweep_le mode entry code)

end ControlFlow

/-! ## The located call -/

namespace Image

variable {image : Image} {symbols : SymbolSource} {anchor target : String} {window : Nat} {function : UInt64}
  {code : List UInt8} {site : CallSite} {flow : ControlFlow} {e : Failure}

theorem length_functionCode_le (h : image.functionCode function window = .ok code) : code.length ≤ image.size := by
  rw [functionCode] at h
  cases hbytes : image.bytesFrom? function with
  | none =>
    rw [hbytes] at h
    cases h
  | some bytes =>
    rw [hbytes] at h
    cases h
    obtain ⟨n, hn, rfl⟩ := Option.map_eq_some_iff.1 hbytes
    have hlength : (image.data.extract n image.size).toList.length = image.size - n := by simp [size]
    rw [List.length_take, hlength]
    omega

theorem functionCode_eq_error (h : image.functionCode function window = .error e) :
    ∃ reason, e = .invalidImage reason := by
  rw [functionCode] at h
  split at h
  · cases h
  · cases h
    exact ⟨_, rfl⟩

/-- How a call is located: in the blocks of the code of the anchor. -/
structure Locates (image : Image) (symbols : SymbolSource) (anchor target : String) (window : Nat)
    (site : CallSite) (flow : ControlFlow) : Prop where
  anchor : symbols anchor = some site.function
  target : symbols target = some site.target
  code : ∃ code, image.functionCode site.function window = .ok code ∧
    flow = .build image.bitness code site.function
  call : flow.findCall? site.target = some site.call

theorem locateCall_eq_ok {callee call : UInt64} (hanchor : symbols anchor = some function)
    (htarget : symbols target = some callee) (hcode : image.functionCode function window = .ok code)
    (hcall : (ControlFlow.build image.bitness code function).findCall? callee = some call) :
    (image.locateCall symbols anchor target window).result =
      .ok (⟨function, function + code.length.toUInt64, call, callee⟩, .build image.bitness code function) := by
  simp [locateCall, hanchor, htarget, hcode, hcall, Logged.require, Except.bind]

theorem locateCall_eq_callSiteNotFound {callee : UInt64} (hanchor : symbols anchor = some function)
    (htarget : symbols target = some callee) (hcode : image.functionCode function window = .ok code)
    (hcall : (ControlFlow.build image.bitness code function).findCall? callee = none) :
    (image.locateCall symbols anchor target window).result = .error (.callSiteNotFound anchor target) := by
  simp [locateCall, hanchor, htarget, hcode, hcall, Logged.require, Except.bind]

/-- A call is located, or the search fails before anything is run. -/
theorem locateCall_cases (image : Image) (symbols : SymbolSource) (anchor target : String) (window : Nat) :
    (∃ site flow, (image.locateCall symbols anchor target window).result = .ok (site, flow) ∧
      image.Locates symbols anchor target window site flow) ∨
    ∃ e, (image.locateCall symbols anchor target window).result = .error e ∧
      ∀ address reason, e ≠ .divergence address reason := by
  cases hanchor : symbols anchor with
  | none =>
    refine .inr ⟨.symbolNotFound anchor, ?_, by simp⟩
    simp [locateCall, hanchor, Logged.require, Except.bind]
  | some function =>
    cases htarget : symbols target with
    | none =>
      refine .inr ⟨.symbolNotFound target, ?_, by simp⟩
      simp [locateCall, hanchor, htarget, Logged.require, Except.bind]
    | some callee =>
      cases hcode : image.functionCode function window with
      | error e =>
        obtain ⟨reason, rfl⟩ := functionCode_eq_error hcode
        refine .inr ⟨.invalidImage reason, ?_, by simp⟩
        simp [locateCall, hanchor, htarget, hcode, Logged.require, Except.bind]
      | ok code =>
        cases hcall : (ControlFlow.build image.bitness code function).findCall? callee with
        | none => exact .inr ⟨_, locateCall_eq_callSiteNotFound hanchor htarget hcode hcall, by simp⟩
        | some call =>
          exact .inl ⟨_, _, locateCall_eq_ok hanchor htarget hcode hcall,
            hanchor, htarget, ⟨code, hcode, rfl⟩, hcall⟩

theorem locates_of_result (h : (image.locateCall symbols anchor target window).result = .ok (site, flow)) :
    image.Locates symbols anchor target window site flow := by
  rcases image.locateCall_cases symbols anchor target window with ⟨site', flow', hresult, hlocates⟩ | ⟨e, hresult, -⟩
  · rw [h] at hresult
    cases hresult
    exact hlocates
  · rw [h] at hresult
    cases hresult

end Image

/-! ## Answers -/

namespace Resolver

variable {s : Resolver} {anchor target : String} {register : SharedRegister} {call address : UInt64}
  {path : List Instruction} {reason : Divergence}

theorem answer_of_long (hvalid : ∀ i ∈ path, i.isInvalid = false) (hlong : s.settings.maxInstructions < path.length) :
    s.answer register call path =
      .error (.divergence path[s.settings.maxInstructions].ip .budgetExhausted) := by
  have hstop := Machine.stop_replay (fun _ _ => ()) hvalid s.settings.maxInstructions
    (s.machineAt (register.within s.image.bitness))
  rw [List.getElem?_eq_getElem hlong, Option.map_some] at hstop
  simp only [answer, pointerAfter, hstop]
  rfl

/-- A path within the budget is judged by what the register holds at the call. -/
theorem reason_of_fits (hvalid : ∀ i ∈ path, i.isInvalid = false) (hfits : path.length ≤ s.settings.maxInstructions)
    (h : s.answer register call path = .error (.divergence address reason)) :
    address = call ∧ (reason = .registerNotWritten (register.within s.image.bitness) ∨
      reason = .notBaseRelative (register.within s.image.bitness) ∨
      reason = .negativeOffset (register.within s.image.bitness)) := by
  have hstop := Machine.stop_replay (fun _ _ => ()) hvalid s.settings.maxInstructions
    (s.machineAt (register.within s.image.bitness))
  rw [List.getElem?_eq_none hfits, Option.map_none] at hstop
  rw [answer_eq_judgement hstop, judgement, pointerAt] at h
  split at h
  · cases h
    exact ⟨rfl, .inl rfl⟩
  · split at h
    · cases h
      exact ⟨rfl, .inr (.inl rfl)⟩
    · split at h
      · cases h
        exact ⟨rfl, .inr (.inr rfl)⟩
      · cases h

theorem answer_eq_budgetExhausted_iff (hvalid : ∀ i ∈ path, i.isInvalid = false) :
    s.answer register call path = .error (.divergence address .budgetExhausted) ↔
      ∃ h : s.settings.maxInstructions < path.length, address = path[s.settings.maxInstructions].ip := by
  constructor
  · intro h
    by_cases hlong : s.settings.maxInstructions < path.length
    · rw [answer_of_long hvalid hlong] at h
      cases h
      exact ⟨hlong, rfl⟩
    · obtain ⟨-, hreason⟩ := reason_of_fits hvalid (Nat.le_of_not_lt hlong) h
      rcases hreason with hreason | hreason | hreason <;> cases hreason
  · rintro ⟨hlong, rfl⟩
    exact answer_of_long hvalid hlong

theorem reason_cases (hvalid : ∀ i ∈ path, i.isInvalid = false)
    (h : s.answer register call path = .error (.divergence address reason)) :
    reason = .budgetExhausted ∨ reason = .registerNotWritten (register.within s.image.bitness) ∨
      reason = .notBaseRelative (register.within s.image.bitness) ∨
      reason = .negativeOffset (register.within s.image.bitness) := by
  by_cases hlong : s.settings.maxInstructions < path.length
  · rw [answer_of_long hvalid hlong] at h
    cases h
    exact .inl rfl
  · exact .inr (reason_of_fits hvalid (Nat.le_of_not_lt hlong) h).2

theorem exists_of_locate (h : s.locate anchor target = .ok (call, path)) :
    ∃ site flow p,
      (s.image.locateCall s.symbols anchor target s.settings.scanWindow).result = .ok (site, flow) ∧
      flow.pathTo? site.call = some p ∧ p.instructions = path := by
  rw [locate] at h
  cases hresult : (s.image.locateCall s.symbols anchor target s.settings.scanWindow).result with
  | error e =>
    rw [hresult] at h
    cases h
  | ok found =>
    obtain ⟨site, flow⟩ := found
    cases hp : flow.pathTo? site.call with
    | none => simp [hresult, hp, bind, Except.bind] at h
    | some p =>
      simp only [hresult, hp, bind, Except.bind, Except.ok.injEq, Prod.mk.injEq] at h
      exact ⟨site, flow, p, rfl, hp, h.2⟩

variable {α : Type} {observe : Instruction → Machine → α × List Event}

/--
A search replays a valid path to a call that it located, or finds no path to a
call below the entry, or fails before anything is run.
-/
theorem tracked_cases (anchor target : String) (register : SharedRegister)
    (observe : Instruction → Machine → α × List Event) (hsize : s.image.size ≤ UInt64.size) :
    (∃ site flow p, (s.image.locateCall s.symbols anchor target s.settings.scanWindow).result = .ok (site, flow) ∧
      s.image.Locates s.symbols anchor target s.settings.scanWindow site flow ∧ site.function ≤ site.call ∧
      flow.pathTo? site.call = some p ∧ (∀ i ∈ p.instructions, i.isInvalid = false) ∧
      s.tracked anchor target register observe = s.answer register site.call p.instructions) ∨
    (∃ site flow, (s.image.locateCall s.symbols anchor target s.settings.scanWindow).result = .ok (site, flow) ∧
      s.image.Locates s.symbols anchor target s.settings.scanWindow site flow ∧ site.call < site.function ∧
      flow.pathTo? site.call = none ∧
      s.tracked anchor target register observe = .error (.divergence site.call .unreachable)) ∨
    ∃ e, (s.image.locateCall s.symbols anchor target s.settings.scanWindow).result = .error e ∧
      (∀ address reason, e ≠ .divergence address reason) ∧
      s.tracked anchor target register observe = .error e := by
  rw [tracked_eq, locate]
  rcases s.image.locateCall_cases s.symbols anchor target s.settings.scanWindow with
    ⟨site, flow, hresult, hlocates⟩ | ⟨e, hresult, hne⟩
  · obtain ⟨code, hcode, rfl⟩ := hlocates.code
    have hcodeSize := Nat.le_trans (Image.length_functionCode_le hcode) hsize
    have hfinds := ControlFlow.findsPaths_build s.image.bitness site.function hcodeSize
    have hpaths := hfinds.call hlocates.call
    cases hp : (ControlFlow.build s.image.bitness code site.function).pathTo? site.call with
    | some p =>
      left
      rw [hp] at hpaths
      refine ⟨site, _, p, hresult, hlocates, hpaths.1 rfl, hp, hfinds.valid hp, ?_⟩
      simp only [hresult, bind, Except.bind, hp]
    | none =>
      right
      left
      rw [hp] at hpaths
      have hbelow : site.call < site.function := UInt64.not_le.1 fun hle => Bool.false_ne_true (hpaths.2 hle)
      refine ⟨site, _, hresult, hlocates, hbelow, hp, ?_⟩
      simp only [hresult, bind, Except.bind, hp]
  · right
    right
    refine ⟨e, hresult, hne, ?_⟩
    rw [hresult]
    rfl

theorem tracked_eq_unreachable_iff (hsize : s.image.size ≤ UInt64.size) :
    s.tracked anchor target register observe = .error (.divergence address .unreachable) ↔
      ∃ site flow,
        (s.image.locateCall s.symbols anchor target s.settings.scanWindow).result = .ok (site, flow) ∧
        site.call < site.function ∧ address = site.call := by
  rcases tracked_cases anchor target register observe hsize with
    ⟨site, flow, p, hresult, -, hle, -, hvalid, htracked⟩ | ⟨site, flow, hresult, -, hbelow, -, htracked⟩ |
      ⟨e, hresult, hne, htracked⟩ <;> rw [htracked, hresult]
  · constructor
    · intro h
      rcases reason_cases hvalid h with hreason | hreason | hreason | hreason <;> cases hreason
    · rintro ⟨_, _, hsame, hbelow, -⟩
      cases hsame
      exact absurd hle (UInt64.not_le.2 hbelow)
  · constructor
    · intro h
      cases h
      exact ⟨site, flow, rfl, hbelow, rfl⟩
    · rintro ⟨_, _, hsame, -, rfl⟩
      cases hsame
      rfl
  · refine ⟨fun h => absurd (Except.error.inj h) (hne _ _), ?_⟩
    rintro ⟨_, _, hsame, -⟩
    cases hsame

theorem tracked_ne_unreachable (hsize : s.image.size ≤ UInt64.size) {function : UInt64} {code : List UInt8}
    (hanchor : s.symbols anchor = some function)
    (hcode : s.image.functionCode function s.settings.scanWindow = .ok code)
    (hfits : function.toNat + code.length ≤ UInt64.size) :
    s.tracked anchor target register observe ≠ .error (.divergence address .unreachable) := by
  intro h
  obtain ⟨site, flow, hresult, hbelow, -⟩ := (tracked_eq_unreachable_iff hsize).1 h
  have hlocates := Image.locates_of_result hresult
  obtain ⟨code', hcode', rfl⟩ := hlocates.code
  obtain rfl := Option.some.inj (hanchor.symm.trans hlocates.anchor)
  obtain rfl := Except.ok.inj (hcode.symm.trans hcode')
  exact absurd (ControlFlow.le_of_findCall? hfits hlocates.call) (UInt64.not_le.2 hbelow)

theorem tracked_ne_invalidInstruction (hsize : s.image.size ≤ UInt64.size) :
    s.tracked anchor target register observe ≠ .error (.divergence address .invalidInstruction) := by
  intro h
  rcases tracked_cases anchor target register observe hsize with
    ⟨site, flow, p, -, -, -, -, hvalid, htracked⟩ | ⟨site, flow, -, -, -, -, htracked⟩ | ⟨e, -, hne, htracked⟩ <;>
    rw [htracked] at h
  · rcases reason_cases hvalid h with hreason | hreason | hreason | hreason <;> cases hreason
  · cases h
  · exact hne _ _ (Except.error.inj h)

theorem tracked_eq_budgetExhausted_iff (hsize : s.image.size ≤ UInt64.size) :
    s.tracked anchor target register observe = .error (.divergence address .budgetExhausted) ↔
      ∃ site flow p,
        (s.image.locateCall s.symbols anchor target s.settings.scanWindow).result = .ok (site, flow) ∧
        flow.pathTo? site.call = some p ∧
        ∃ h : s.settings.maxInstructions < p.instructions.length,
          address = p.instructions[s.settings.maxInstructions].ip := by
  rcases tracked_cases anchor target register observe hsize with
    ⟨site, flow, p, hresult, -, -, hp, hvalid, htracked⟩ | ⟨site, flow, hresult, -, -, hp, htracked⟩ |
      ⟨e, hresult, hne, htracked⟩ <;> rw [htracked, hresult]
  · rw [answer_eq_budgetExhausted_iff hvalid]
    constructor
    · rintro ⟨hlong, ha⟩
      exact ⟨site, flow, p, rfl, hp, hlong, ha⟩
    · rintro ⟨_, _, p', hsame, hp', hlong, ha⟩
      cases hsame
      obtain rfl := Option.some.inj (hp.symm.trans hp')
      exact ⟨hlong, ha⟩
  · refine ⟨nofun, ?_⟩
    rintro ⟨_, _, p', hsame, hp', -⟩
    cases hsame
    rw [hp] at hp'
    cases hp'
  · refine ⟨fun h => absurd (Except.error.inj h) (hne _ _), ?_⟩
    rintro ⟨_, _, _, hsame, -⟩
    cases hsame

theorem tracked_ne_budgetExhausted (hsize : s.image.size ≤ UInt64.size) {function : UInt64} {code : List UInt8}
    (hanchor : s.symbols anchor = some function)
    (hcode : s.image.functionCode function s.settings.scanWindow = .ok code)
    (hfits : code.length ≤ s.settings.maxInstructions) :
    s.tracked anchor target register observe ≠ .error (.divergence address .budgetExhausted) := by
  intro h
  obtain ⟨site, flow, p, hresult, hp, hlong, -⟩ := (tracked_eq_budgetExhausted_iff hsize).1 h
  have hlocates := Image.locates_of_result hresult
  obtain ⟨code', hcode', rfl⟩ := hlocates.code
  obtain rfl := Option.some.inj (hanchor.symm.trans hlocates.anchor)
  obtain rfl := Except.ok.inj (hcode.symm.trans hcode')
  have hlength := ControlFlow.length_pathTo?_lt (Nat.le_trans (Image.length_functionCode_le hcode) hsize) hp
  omega

/-- Two instructions before a call. -/
def callBehindTwo : List UInt8 :=
  [0x48, 0x8d, 0x49, 0x08, 0x90, 0xe8, 0xf6, 0xff, 0, 0]

/-- An instruction before a call. -/
def callBehindOne : List UInt8 :=
  [0x48, 0x8d, 0x49, 0x08, 0xe8, 0xfb, 0xff, 1, 0]

end Resolver

end KernelOffsets
