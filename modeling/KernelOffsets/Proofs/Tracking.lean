/-
What a search answers, step by step. The path to the call depends on the
image, the symbols and the window alone (`Resolver.locate`); the answer is
the replay of that path, judged at the call (`Resolver.tracked_eq`).
A replay of valid instructions stops exactly where its budget ends
(`Machine.stop_replay`), and one that does not stop has run them all
(`Machine.machine_replay`).
-/
import KernelOffsets.Resolver

namespace KernelOffsets

/-! ## Replays -/

namespace Machine

variable {α : Type} {observe : Instruction → Machine → α}

theorem stop_replayFrom {path : List Instruction} (hvalid : ∀ i ∈ path, i.isInvalid = false) :
    ∀ (n : Nat) (m : Machine) (seen : Array α),
      (replayFrom observe n m seen path).stop = path[n]?.map fun i => ⟨i.ip, .budgetExhausted⟩ := by
  induction path with
  | nil => intros; rfl
  | cons i path ih =>
    intro n m seen
    have hi : i.isInvalid = false := hvalid i (by simp)
    cases n with
    | zero => rfl
    | succ n =>
      have hgo : obstacle? (n + 1) i = none := by simp [obstacle?, hi]
      rw [replayFrom_cons observe (n + 1) m seen i path hgo]
      exact ih (fun j hj => hvalid j (by simp [hj])) n _ _

/-- **Where a replay of valid instructions stops:** at the first one beyond the budget. -/
theorem stop_replay {path : List Instruction} (observe : Instruction → Machine → α)
    (hvalid : ∀ i ∈ path, i.isInvalid = false) (n : Nat) (m : Machine) :
    (m.replay observe n path).stop = path[n]?.map fun i => ⟨i.ip, .budgetExhausted⟩ :=
  stop_replayFrom hvalid n m #[]

theorem machine_replayFrom {path : List Instruction} :
    ∀ {n : Nat} {m : Machine} {seen : Array α}, (replayFrom observe n m seen path).stop = none →
      (replayFrom observe n m seen path).machine = path.foldl step m := by
  induction path with
  | nil => intros; rfl
  | cons i path ih =>
    intro n m seen h
    cases hgo : obstacle? n i with
    | some stop =>
      simp only [replayFrom, hgo] at h
      cases h
    | none =>
      rw [replayFrom_cons observe n m seen i path hgo] at h ⊢
      exact ih h

/-- **A replay that does not stop** has run the whole path. -/
theorem machine_replay {path : List Instruction} {n : Nat} {m : Machine}
    (h : (m.replay observe n path).stop = none) : (m.replay observe n path).machine = path.foldl step m :=
  machine_replayFrom h

end Machine

/-! ## Answers -/

namespace Resolver

variable (s : Resolver) (anchor target : String) (register : SharedRegister)

/-- The call that a search ends at, and the instructions on the way to it. -/
def locate : Except Failure (UInt64 × List Instruction) := do
  let (site, flow) ← (s.image.locateCall s.symbols anchor target s.settings.scanWindow).result
  match flow.pathTo? site.call with
  | some path => .ok (site.call, path.instructions)
  | none => .error (.divergence site.call .unreachable)

/-- What the replay of a path gives as an answer. -/
def answer (call : UInt64) (path : List Instruction) : Except Failure UInt64 :=
  let r := register.within s.image.bitness
  (pointerAfter call s.settings.sentinel r
    ((s.machineAt r).replay (fun _ _ => ()) s.settings.maxInstructions path)).map (· - s.settings.sentinel)

theorem pointerAfter_congr {α β : Type} (call base : UInt64) (r : Register) {p : Replay α} {q : Replay β}
    (hm : p.machine = q.machine) (hs : p.stop = q.stop) : pointerAfter call base r p = pointerAfter call base r q := by
  simp only [pointerAfter, hm, hs]

/-- What a search answers, whatever is observed on the way. -/
def tracked {α : Type} (observe : Instruction → Machine → α × List Event) : Except Failure UInt64 :=
  (s.track anchor target register observe).result.bind (·.offset)

/-- **The answer of a search** is that of the replay of the path it located, whoever looks on. -/
theorem tracked_eq {α : Type} (observe : Instruction → Machine → α × List Event) :
    s.tracked anchor target register observe =
      (s.locate anchor target).bind fun (call, path) => s.answer register call path := by
  simp only [tracked, track, locate, Logged.result_bind]
  cases (s.image.locateCall s.symbols anchor target s.settings.scanWindow).result with
  | error e => rfl
  | ok found =>
    obtain ⟨site, flow⟩ := found
    cases hpath : flow.pathTo? site.call with
    | none => simp [Except.bind, hpath, Logged.require, bind]
    | some path =>
      have hsame := Machine.replayFrom_observe observe (fun _ _ => ())
        s.settings.maxInstructions (s.machineAt (register.within s.image.bitness)) #[] #[] path.instructions
      have hpointer := pointerAfter_congr site.call s.settings.sentinel (register.within s.image.bitness)
        hsame.1 hsame.2
      simp only [Except.bind, bind, hpath, Logged.require, answer, Machine.replay, Logged.result_pure,
        ControlFlow.result_route, Logged.bind, Logged.note, Logged.report, hpointer]
      cases pointerAfter site.call s.settings.sentinel (register.within s.image.bitness)
          (Machine.replayFrom (fun _ _ => ()) s.settings.maxInstructions
            (s.machineAt (register.within s.image.bitness)) #[] path.instructions) with
      | error e => rfl
      | ok value => rfl

theorem result_emulatedOffset :
    (s.emulatedOffset anchor target register).result =
      (s.locate anchor target).bind fun (call, path) => s.answer register call path := by
  rw [← tracked_eq s anchor target register fun i m => ((), .executing i :: m.events i)]
  simp only [emulatedOffset, tracked, Logged.result_bind, Logged.result_ofExcept]

variable {s anchor target} {call : UInt64} {path : List Instruction}

theorem result_of_locate (h : s.locate anchor target = .ok (call, path)) :
    (s.emulatedOffset anchor target register).result = s.answer register call path := by
  rw [result_emulatedOffset, h]
  rfl

end Resolver

end KernelOffsets
