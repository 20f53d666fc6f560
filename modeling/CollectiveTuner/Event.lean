/-!
# Diagnostic events

Everything the library reports besides results is an `Event`. A computation that reports
events is a `Logged` value: its result together with the events in the order of emission.
-/

namespace CollectiveTuner

/-- The severity of an event, from the most severe to the least. -/
inductive Level
  | error
  | warn
  | info
  | debug
  | trace
  deriving DecidableEq, Repr

namespace Level

/-- All levels, from the most severe to the least. -/
def all : List Level := [error, warn, info, debug, trace]

/-- The name of a level in logs. -/
def name : Level → String
  | error => "ERROR"
  | warn => "WARN"
  | info => "INFO"
  | debug => "DEBUG"
  | trace => "TRACE"

/-- Rank of the level: the more severe, the smaller. -/
def verbosity : Level → Nat
  | error => 0
  | warn => 1
  | info => 2
  | debug => 3
  | trace => 4

/-- A log that shows `threshold` also shows every more severe level. -/
def isShownAt (level threshold : Level) : Bool :=
  level.verbosity ≤ threshold.verbosity

end Level

/-- A value attached to an event. -/
inductive FieldValue
  | text (value : String)
  | number (value : Int)
  | flag (value : Bool)
  deriving DecidableEq, Repr

/-- One diagnostic: a severity, a sentence and named values. -/
structure Event where
  /-- How severe the event is. -/
  level : Level
  /-- What happened. -/
  message : String
  /-- The values that go with the message. -/
  fields : List (String × FieldValue)
  deriving DecidableEq, Repr

/-- A result together with the events reported on the way to it. -/
structure Logged (α : Type) where
  /-- The result. -/
  value : α
  /-- The events, in the order in which they were reported. -/
  events : List Event
  deriving DecidableEq, Repr

namespace Logged

instance : Monad Logged where
  pure value := ⟨value, []⟩
  bind first next :=
    let second := next first.value
    ⟨second.value, first.events ++ second.events⟩

/-- A result that is given has that value. -/
@[simp] theorem value_pure {α : Type} (a : α) : (pure a : Logged α).value = a := rfl

/-- Nothing is reported by just giving a result. -/
@[simp] theorem events_pure {α : Type} (a : α) : (pure a : Logged α).events = [] := rfl

/-- The value of two computations in sequence is that of the second one. -/
@[simp] theorem value_bind {α β : Type} (first : Logged α) (next : α → Logged β) :
    (first >>= next).value = (next first.value).value := rfl

/-- The events of two computations in sequence come one after the other. -/
@[simp] theorem events_bind {α β : Type} (first : Logged α) (next : α → Logged β) :
    (first >>= next).events = first.events ++ (next first.value).events := rfl

/-- Going on from a result puts its events before the later ones. -/
theorem mk_bind {α β : Type} (value : α) (events : List Event) (next : α → Logged β) :
    (⟨value, events⟩ : Logged α) >>= next =
      ⟨(next value).value, events ++ (next value).events⟩ := rfl

instance : LawfulMonad Logged :=
  LawfulMonad.mk' Logged
    (fun x => by
      cases x
      simp [Functor.map])
    (fun _ _ => by simp [bind, pure])
    (fun _ _ _ => by simp [bind, List.append_assoc])

end Logged

/-- Reports one event. -/
def report (level : Level) (message : String) (fields : List (String × FieldValue)) :
    Logged Unit :=
  ⟨(), [⟨level, message, fields⟩]⟩

end CollectiveTuner
