/-
Marks are ghost state: what a machine computes, where it stops and what it
shows is the same for all marks (`Machine.replay_ghost`). Two machines match
if they differ in their marks at most, and these in a given way
(`Machine.Matches`); every instruction keeps that if the way is respected by
how marks are combined (`Matches.step`). That no mark comes from nowhere is
the same fact for machines without marks.
-/
import KernelOffsets.Encoding.Decode
import KernelOffsets.Proofs.Memory
import KernelOffsets.Proofs.Runs

namespace KernelOffsets

/-- A relation between marks that is respected by everything that is done to marks. -/
structure Respected (q : Bool → Bool → Prop) : Prop where
  unmarked : q false false
  add : ∀ {x x' y y'}, q x x' → q y y' → q (x != y) (x' != y')
  sub : ∀ {x x' y y'}, q x x' → q y y' → q (x && !y) (x' && !y')
  keepIf : ∀ {x x'} (c : Bool), q x x' → q (x && c) (x' && c)
  either : ∀ {x x' y y'}, q x x' → q y y' → q (x || y) (x' || y')

/-- Marks may differ in any way. -/
theorem respected_any : Respected fun _ _ => True where
  unmarked := trivial
  add _ _ := trivial
  sub _ _ := trivial
  keepIf _ _ := trivial
  either _ _ := trivial

/-- There are no marks. -/
theorem respected_none : Respected fun x y => x = false ∧ y = false where
  unmarked := ⟨rfl, rfl⟩
  add := by
    rintro _ _ _ _ ⟨rfl, rfl⟩ ⟨rfl, rfl⟩
    exact ⟨rfl, rfl⟩
  sub := by
    rintro _ _ _ _ ⟨rfl, rfl⟩ ⟨rfl, rfl⟩
    exact ⟨rfl, rfl⟩
  keepIf := by
    rintro _ _ c ⟨rfl, rfl⟩
    exact ⟨rfl, rfl⟩
  either := by
    rintro _ _ _ _ ⟨rfl, rfl⟩ ⟨rfl, rfl⟩
    exact ⟨rfl, rfl⟩

/-- Words are the same, and marks are related. -/
def Value.Matches (q : Bool → Bool → Prop) (u v : Value) : Prop :=
  u.bits = v.bits ∧ q u.based v.based

/-- The word in each register. -/
def RegisterFile.words (f : RegisterFile) (g : Gpr) : UInt64 := (f.value g).bits

namespace Machine

/-- Two machines over one image hold the same words in registers, the same written marks and the same bytes. -/
structure SameBits (m m' : Machine) : Prop where
  image : m.image = m'.image
  mode : m.bitness = m'.bitness
  words : ∀ g, m.registers.words g = m'.registers.words g
  written : m.registers.written = m'.registers.written
  bytes : ∀ x : UInt64, m.memory.bytes[x]? = m'.memory.bytes[x]?

/-- No register is marked, and no spilled pointer is. -/
structure IsUnmarked (m : Machine) : Prop where
  registers : ∀ g, (m.registers.value g).based = false
  slots : ∀ x, m.memory.slots.contains x = false

/-- Two machines hold the same, and their marks are related. -/
structure Matches (q : Bool → Bool → Prop) (m m' : Machine) : Prop extends SameBits m m' where
  registerMarks : ∀ g, q (m.registers.value g).based (m'.registers.value g).based
  slotMarks : ∀ x, q (m.memory.slots.contains x) (m'.memory.slots.contains x)

namespace Matches

variable {q : Bool → Bool → Prop} {m m' : Machine} {u v : Value}

/-! ## Registers -/

theorem value (h : Matches q m m') (g : Gpr) : (m.registers.value g).Matches q (m'.registers.value g) :=
  ⟨h.words g, h.registerMarks g⟩

theorem put (h : Matches q m m') (g : Gpr) (hv : u.Matches q v) :
    Matches q { m with registers := m.registers.put g u } { m' with registers := m'.registers.put g v } where
  image := h.image
  mode := h.mode
  words g' := by
    simp only [RegisterFile.words, RegisterFile.value_put]
    split
    · exact hv.1
    · exact h.words g'
  written := by simp only [RegisterFile.put, h.written]
  bytes := h.bytes
  registerMarks g' := by
    simp only [RegisterFile.value_put]
    split
    · exact hv.2
    · exact h.registerMarks g'
  slotMarks := h.slotMarks

theorem plain (hq : Respected q) {x y : UInt64} (h : x = y) : (Value.plain x).Matches q (.plain y) :=
  ⟨h, hq.unmarked⟩

theorem read (hq : Respected q) (h : Matches q m m') (r : Register) :
    (m.registers.read r).Matches q (m'.registers.read r) := by
  have hmode : m.registers.bitness = m'.registers.bitness := h.mode
  cases r with
  | gpr g w =>
    obtain ⟨hbits, hmark⟩ := h.value g
    simp only [RegisterFile.read, hbits, hmode]
    exact ⟨rfl, hq.keepIf _ hmark⟩
  | highByte half => exact plain hq (by rw [(h.value half.owner).1])
  | _ => exact plain hq rfl

theorem writeRegister (hq : Respected q) (h : Matches q m m') (r : Register) (hv : u.Matches q v) :
    Matches q (m.writeRegister r u) (m'.writeRegister r v) := by
  have hmode : m.registers.bitness = m'.registers.bitness := h.mode
  cases r with
  | gpr g w =>
    refine h.put g ?_
    obtain ⟨hold, -⟩ := h.value g
    obtain ⟨hbits, hmark⟩ := hv
    simp only [RegisterFile.merge, hold, hbits, hmode]
    cases w with
    | byte | word => exact plain hq rfl
    | dword | qword => exact ⟨rfl, hq.keepIf _ hmark⟩
  | highByte half =>
    refine h.put half.owner ?_
    exact plain hq (by rw [(h.value half.owner).1, hv.1])
  | _ => exact h

theorem clobberAll (hq : Respected q) (rs : List Register) (h : Matches q m m') :
    Matches q (rs.foldl clobber m) (rs.foldl clobber m') := by
  induction rs generalizing m m' with
  | nil => exact h
  | cons r rs ih => exact ih (h.writeRegister hq r (plain hq rfl))

theorem clearWritten (h : Matches q m m') :
    Matches q { m with registers := m.registers.clearWritten } { m' with registers := m'.registers.clearWritten } :=
  ⟨⟨h.image, h.mode, h.words, rfl, h.bytes⟩, h.registerMarks, h.slotMarks⟩

/-! ## Addresses -/

theorem address (hq : Respected q) (h : Matches q m m') (o : MemoryOperand) :
    (m.registers.address o).Matches q (m'.registers.address o) := by
  have hmode : m.registers.bitness = m'.registers.bitness := h.mode
  obtain ⟨hbase, hbaseMark⟩ := h.read hq o.base
  obtain ⟨hindex, hindexMark⟩ := h.read hq o.index
  simp only [RegisterFile.address, RegisterFile.scaled, hmode]
  split
  · exact plain hq rfl
  · refine ⟨?_, ?_⟩
    · simp only [Value.add, Value.mask, Value.plain, hbase, hindex]
    · exact hq.add (hq.add hq.unmarked hbaseMark) (hq.keepIf _ hindexMark)

theorem known? (hq : Respected q) (h : Matches q m m') (r : Register) :
    m.registers.known? r = m'.registers.known? r := by
  have hread := (h.read hq r).1
  cases r with
  | absent => rfl
  | _ => simp only [RegisterFile.known?, hread]

theorem storesOf (hq : Respected q) (h : Matches q m m') (i : Instruction) : m.storesOf i = m'.storesOf i := by
  have hmode : m.registers.bitness = m'.registers.bitness := h.mode
  have hknown := h.known? hq
  unfold Machine.storesOf RegisterFile.knownAddress?
  simp only [hknown, hmode]

/-! ## Memory -/

theorem load (hq : Respected q) (h : Matches q m m') (a : UInt64) (n : Nat) :
    (m.load a n).Matches q (m'.load a n) := by
  have hbackground : m.background = m'.background := by
    funext x
    rw [background, background, h.image]
  refine ⟨?_, ?_⟩
  · simp only [Machine.load, Memory.load, h.mode]
    refine Memory.wordAt_congr fun i _ => ?_
    rw [Memory.byteAt, Memory.byteAt, h.bytes, hbackground]
  · simp only [Machine.load, Memory.load, h.mode, Bool.and_comm (n == _)]
    exact hq.keepIf _ (h.slotMarks _)

theorem store (hq : Respected q) (h : Matches q m m') (a : UInt64) (n : Nat) (hv : u.Matches q v) :
    Matches q (m.store a n u) (m'.store a n v) where
  image := h.image
  mode := h.mode
  words := h.words
  written := h.written
  bytes x := by
    simp only [Machine.store, Memory.store, h.mode, hv.1]
    exact Memory.getElem?_writeBytes_congr h.bytes x
  registerMarks := h.registerMarks
  slotMarks x := by
    simp only [Machine.store, h.mode, Memory.contains_store_window]
    exact hq.either (hq.keepIf _ hv.2) (hq.keepIf _ (h.slotMarks x))

theorem forgetSpills (hq : Respected q) (h : Matches q m m') :
    Matches q { m with memory := m.memory.forgetSpills } { m' with memory := m'.memory.forgetSpills } where
  toSameBits := ⟨h.image, h.mode, h.words, h.written, h.bytes⟩
  registerMarks := h.registerMarks
  slotMarks x := by
    simp only [Memory.contains_forgetSpills]
    exact hq.unmarked

/-! ## Operands and the stack -/

theorem fetch (hq : Respected q) (h : Matches q m m') (o : Operand) : (m.fetch o).Matches q (m'.fetch o) := by
  cases o with
  | register r => exact h.read hq r
  | memory o =>
    simp only [Machine.fetch, (h.address hq o).1]
    exact h.load hq _ _
  | _ => exact plain hq rfl

theorem assign (hq : Respected q) (h : Matches q m m') (o : Operand) (hv : u.Matches q v) :
    Matches q (m.assign o u) (m'.assign o v) := by
  cases o with
  | register r => exact h.writeRegister hq r hv
  | memory o =>
    simp only [Machine.assign, (h.address hq o).1]
    exact h.store hq _ _ hv
  | _ => exact h

theorem operandBytes (h : Matches q m m') (o : Operand) : m.operandBytes o = m'.operandBytes o := by
  cases o <;> simp only [Machine.operandBytes, h.mode]

theorem stackTop (hq : Respected q) (h : Matches q m m') : m.stackTop = m'.stackTop := by
  rw [Machine.stackTop, Machine.stackTop, h.mode]
  exact (h.read hq _).1

theorem setStackTop (hq : Respected q) (h : Matches q m m') (a : UInt64) :
    Matches q (m.setStackTop a) (m'.setStackTop a) := by
  simp only [Machine.setStackTop, h.mode]
  exact h.writeRegister hq m'.bitness.stackPointer (plain hq rfl)

/-! ## Instructions -/

theorem push (hq : Respected q) (h : Matches q m m') (i : Instruction) : Matches q (m.push i) (m'.push i) := by
  have hmoved := h.setStackTop hq (m.stackTop - i.stackBytes.toUInt64)
  simp only [Machine.push, ← h.stackTop hq, ← hmoved.stackTop hq]
  exact hmoved.store hq _ _ (h.fetch hq i.first)

theorem pop (hq : Respected q) (h : Matches q m m') (i : Instruction) : Matches q (m.pop i) (m'.pop i) := by
  simp only [Machine.pop, ← h.stackTop hq]
  exact (h.setStackTop hq _).assign hq _ (h.load hq _ _)

theorem exchange (hq : Respected q) (h : Matches q m m') (i : Instruction) :
    Matches q (m.exchange i) (m'.exchange i) :=
  (h.assign hq i.first (h.fetch hq i.second)).assign hq i.second (h.fetch hq i.first)

theorem storeAll (hq : Respected q) (targets : List (Option UInt64 × Nat)) (h : Matches q m m') :
    Matches q { m with memory := targets.foldl (storeUnknown · m.bitness) m.memory }
      { m' with memory := targets.foldl (storeUnknown · m'.bitness) m'.memory } := by
  induction targets generalizing m m' with
  | nil => exact h
  | cons target targets ih =>
    have hone : Matches q { m with memory := storeUnknown m.memory m.bitness target }
        { m' with memory := storeUnknown m'.memory m'.bitness target } := by
      rcases target with ⟨- | a, - | n⟩
      · exact h.forgetSpills hq
      · exact h.forgetSpills hq
      · exact h.forgetSpills hq
      · exact h.store hq a (n + 1) (plain hq rfl)
    exact ih hone

theorem forget (hq : Respected q) (h : Matches q m m') (i : Instruction) : Matches q (m.forget i) (m'.forget i) := by
  have hcleared : Matches q { m with memory := if i.repeated then m.memory.forgetSpills else m.memory }
      { m' with memory := if i.repeated then m'.memory.forgetSpills else m'.memory } := by
    cases i.repeated with
    | true => exact h.forgetSpills hq
    | false => exact h
  have hstored := hcleared.storeAll hq (m.storesOf i)
  simp only [Machine.forget, ← h.storesOf hq i]
  exact hstored.clobberAll hq i.changes

theorem stepOther (hq : Respected q) (h : Matches q m m') (i : Instruction) :
    Matches q (m.stepOther i) (m'.stepOther i) := by
  unfold Machine.stepOther
  cases i.flow with
  | call | indirectCall =>
    simp only [skipCall, h.mode]
    exact h.clobberAll hq _
  | conditionalBranch | unconditionalBranch | indirectBranch => exact h
  | _ => exact h.forget hq i

/-- An instruction that puts into its first operand a word that is made of words and has no mark. -/
theorem assign_plain (hq : Respected q) (h : Matches q m m') (o : Operand) {x y : UInt64} (hxy : x = y) :
    Matches q (m.assign o (.plain x)) (m'.assign o (.plain y)) :=
  h.assign hq o (plain hq hxy)

/-- **One instruction** takes matching machines to matching machines. -/
theorem step (hq : Respected q) (h : Matches q m m') (i : Instruction) : Matches q (m.step i) (m'.step i) := by
  obtain ⟨hfirst, hfirstMark⟩ := h.fetch hq i.first
  obtain ⟨hsecond, hsecondMark⟩ := h.fetch hq i.second
  have hsize := h.operandBytes i.first
  have hsize' := h.operandBytes i.second
  unfold Machine.step combine change
  cases i.operation with
  | nop | cmp | test | bt => exact h
  | invalid | unmodelled name => exact h.stepOther hq i
  | push => exact h.push hq i
  | pop => exact h.pop hq i
  | xchg => exact h.exchange hq i
  | mov => exact h.assign hq _ ⟨hsecond, hsecondMark⟩
  | lea =>
    dsimp only
    split
    · exact h.assign hq _ (h.address hq _)
    · exact h
  | add => exact h.assign hq _ ⟨by simp only [Value.add, hfirst, hsecond], hq.add hfirstMark hsecondMark⟩
  | sub =>
    dsimp only
    split
    · exact h.assign_plain hq _ rfl
    · exact h.assign hq _ ⟨by simp only [Value.sub, hfirst, hsecond], hq.sub hfirstMark hsecondMark⟩
  | xor =>
    dsimp only
    split
    · exact h.assign_plain hq _ rfl
    · exact h.assign_plain hq _ (by rw [hfirst, hsecond])
  | inc | dec => exact h.assign hq _ ⟨by simp only [hfirst], hfirstMark⟩
  | _ =>
    simp only [hfirst, hsecond, hsize, hsize']
    exact h.assign_plain hq _ rfl

end Matches

/-! ## Runs -/

variable {m m' : Machine} {writes writes' : List (Register × Value)}

theorem SameBits.matches (h : m.SameBits m') : Matches (fun _ _ => True) m m' :=
  ⟨h, fun _ => trivial, fun _ => trivial⟩

theorem isUnmarked_iff : m.IsUnmarked ↔ Matches (fun x y => x = false ∧ y = false) m m := by
  constructor
  · rintro ⟨hregisters, hslots⟩
    exact ⟨⟨rfl, rfl, fun _ => rfl, rfl, fun _ => rfl⟩, fun g => ⟨hregisters g, hregisters g⟩,
      fun x => ⟨hslots x, hslots x⟩⟩
  · intro h
    exact ⟨fun g => (h.registerMarks g).1, fun x => (h.slotMarks x).1⟩

theorem SameBits.step (h : m.SameBits m') (i : Instruction) : (m.step i).SameBits (m'.step i) :=
  (h.matches.step respected_any i).toSameBits

theorem IsUnmarked.step (h : m.IsUnmarked) (i : Instruction) : (m.step i).IsUnmarked :=
  isUnmarked_iff.2 ((isUnmarked_iff.1 h).step respected_none i)

theorem isUnmarked_initial (image : Image) (stackTop : UInt64) : (initial image stackTop).IsUnmarked := by
  have hzero : IsUnmarked ⟨image, ⟨image.bitness, .replicate 16 (.plain 0), .replicate 16 false⟩, .empty⟩ :=
    ⟨fun g => by simp [RegisterFile.value, Value.plain], fun x => by simp [Memory.empty]⟩
  have htop := (isUnmarked_iff.1 hzero).writeRegister respected_none image.bitness.stackPointer
    (Matches.plain respected_none (rfl : stackTop = stackTop))
  exact isUnmarked_iff.2 htop.clearWritten

theorem IsUnmarked.store (h : m.IsUnmarked) (a : UInt64) (n : Nat) (x : UInt64) :
    (m.store a n (.plain x)).IsUnmarked :=
  isUnmarked_iff.2 ((isUnmarked_iff.1 h).store respected_none a n (Matches.plain respected_none rfl))

theorem IsUnmarked.enter (h : m.IsUnmarked) (hplain : ∀ w ∈ writes, w.2.based = false) :
    (m.enter writes).IsUnmarked :=
  enter_invariant
    (fun w hw _ hm => isUnmarked_iff.2 ((isUnmarked_iff.1 hm).writeRegister respected_none w.1
      ⟨rfl, hplain w hw, hplain w hw⟩))
    (fun _ hm => isUnmarked_iff.2 (isUnmarked_iff.1 hm).clearWritten) h

/-- Writes of the same words to the same registers. -/
theorem SameBits.enter (h : m.SameBits m')
    (hwrites : writes.map (fun w => (w.1, w.2.bits)) = writes'.map fun w => (w.1, w.2.bits)) :
    (m.enter writes).SameBits (m'.enter writes') := by
  have key : Matches (fun _ _ => True) { m with registers := m.registers.writeAll writes }
      { m' with registers := m'.registers.writeAll writes' } := by
    unfold RegisterFile.writeAll
    induction writes generalizing m m' writes' with
    | nil =>
      cases writes' with
      | nil => exact h.matches
      | cons w' writes' => cases hwrites
    | cons w writes ih =>
      cases writes' with
      | nil => cases hwrites
      | cons w' writes' =>
        obtain ⟨r, v⟩ := w
        obtain ⟨r', v'⟩ := w'
        simp only [List.map_cons, List.cons.injEq, Prod.mk.injEq] at hwrites
        obtain ⟨⟨rfl, hbits⟩, hrest⟩ := hwrites
        exact ih (h.matches.writeRegister respected_any r ⟨hbits, trivial⟩).toSameBits hrest
  exact key.clearWritten.toSameBits

/-- **Marks are ghost state:** on machines that differ in marks only, runs of the same instructions stop alike,
show the same words before each instruction and leave machines that differ in marks only; and where there is no
mark at the start of a run, there is none at its end. -/
theorem replay_ghost (h : m.SameBits m')
    (hwrites : writes.map (fun w => (w.1, w.2.bits)) = writes'.map fun w => (w.1, w.2.bits))
    (budget : Nat) (path : List Instruction) :
    let shown (i : Instruction) (m : Machine) := (i, m.registers.words)
    let r := (m.enter writes).replay shown budget path
    let r' := (m'.enter writes').replay shown budget path
    r.stop = r'.stop ∧ r.seen = r'.seen ∧ r.machine.SameBits r'.machine ∧
      ((m.enter writes).IsUnmarked → r.machine.IsUnmarked) := by
  intro shown r r'
  have hstep : ∀ i ∈ path, ∀ m m' : Machine, m.SameBits m' → (m.step i).SameBits (m'.step i) :=
    fun i _ _ _ h => h.step i
  have hshown : ∀ i ∈ path, ∀ m m' : Machine, m.SameBits m' → shown i m = shown i m' :=
    fun _ _ _ _ h => Prod.ext rfl (funext h.words)
  obtain ⟨hstop, hseen, hmachine⟩ := replay_related hstep hshown budget (h.enter hwrites)
  exact ⟨hstop, hseen, hmachine, replay_invariant (fun i _ m hm => hm.step i) budget⟩

/-- A base that was spilled and injected, against plain words in the same places. -/
theorem replay_ghost_spilled :
    let start := initial (.ofBytes 0x10000 .x64 #[]) 0x7ffff8
    let plain := start.store 0x7ffff8 8 (.plain 0x1000)
    let marked := start.store 0x7ffff8 8 (.onBase 0x1000)
    let path := Encoding.sweep .x64 0x10000 [0x48, 0x03, 0x0c, 0x24, 0x51]
    let shown (i : Instruction) (m : Machine) := (i, m.registers.words)
    plain.SameBits marked ∧ (plain.enter [(.gpr .cx .qword, .plain 8)]).IsUnmarked ∧
    ((plain.enter [(.gpr .cx .qword, .plain 8)]).replay shown 5 path).seen =
      ((marked.enter [(.gpr .cx .qword, .onBase 8)]).replay shown 5 path).seen ∧
    ((plain.enter [(.gpr .cx .qword, .plain 8)]).replay shown 5 path).machine.IsUnmarked := by
  intro start plain marked path shown
  have hstart : start.SameBits start := ⟨rfl, rfl, fun _ => rfl, rfl, fun _ => rfl⟩
  have hsame : plain.SameBits marked :=
    (hstart.matches.store respected_any 0x7ffff8 8 (u := .plain 0x1000) (v := .onBase 0x1000) ⟨rfl, trivial⟩).toSameBits
  have hunmarked : (plain.enter [(.gpr .cx .qword, .plain 8)]).IsUnmarked :=
    ((isUnmarked_initial _ _).store 0x7ffff8 8 0x1000).enter (by simp [Value.plain])
  have hwrites : [(Register.gpr .cx .qword, Value.plain 8)].map (fun w => (w.1, w.2.bits)) =
      [(Register.gpr .cx .qword, Value.onBase 8)].map fun w => (w.1, w.2.bits) := rfl
  obtain ⟨-, hseen, -, hkeeps⟩ := replay_ghost hsame hwrites 5 path
  exact ⟨hsame, hunmarked, hseen, hkeeps hunmarked⟩

end Machine

end KernelOffsets
