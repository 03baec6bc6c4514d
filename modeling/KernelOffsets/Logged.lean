/-
Computations that report events and may fail. The events of a failed
computation are kept. What a computation answers does not depend on what it
reports: `result_bind` is the rule of `Except`.
-/
import KernelOffsets.Event
import KernelOffsets.Failure

namespace KernelOffsets

/-- A result, or a failure, with the events reported on the way. -/
structure Logged (α : Type) where
  events : List Event
  result : Except Failure α

namespace Logged

/-- Runs one computation after another; a failure of the first is the failure of both. -/
protected def bind {α β : Type} (x : Logged α) (f : α → Logged β) : Logged β :=
  match x.result with
  | .ok a => ⟨x.events ++ (f a).events, (f a).result⟩
  | .error e => ⟨x.events, .error e⟩

instance : Monad Logged where
  pure a := ⟨[], .ok a⟩
  bind := Logged.bind

/-- Reports events. -/
def report (events : List Event) : Logged Unit := ⟨events, .ok ()⟩

/-- Reports one event. -/
def note (e : Event) : Logged Unit := report [e]

/-- A result without events. -/
def ofExcept {α : Type} (r : Except Failure α) : Logged α := ⟨[], r⟩

/-- Fails. -/
def fail {α : Type} (e : Failure) : Logged α := ofExcept (.error e)

/-- The value of an option, or a failure. -/
def require {α : Type} (o : Option α) (e : Failure) : Logged α :=
  match o with
  | some a => pure a
  | none => fail e

@[simp] theorem result_pure {α : Type} (a : α) : (pure a : Logged α).result = .ok a := rfl

@[simp] theorem result_report (events : List Event) : (report events).result = .ok () := rfl

@[simp] theorem result_note (e : Event) : (note e).result = .ok () := rfl

@[simp] theorem result_ofExcept {α : Type} (r : Except Failure α) : (ofExcept r).result = r := rfl

@[simp] theorem result_fail {α : Type} (e : Failure) : (fail e : Logged α).result = .error e := rfl

@[simp] theorem result_bind {α β : Type} (x : Logged α) (f : α → Logged β) :
    (x >>= f).result = x.result.bind fun a => (f a).result := by
  show (Logged.bind x f).result = _
  unfold Logged.bind
  cases x.result <;> rfl

end Logged

end KernelOffsets
