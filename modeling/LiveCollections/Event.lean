import LiveCollections.Error

/-!
# Events

What an operation reports besides its answer. A table of value sets traces how
its slots come and go; a storage reports a strategy that broke its contract.

A sweep knows how many slots it looked at as well as how many it dropped. Only
the second number is shown.
-/

namespace LiveCollections

inductive Event
  | valueSetCreated
  | unusedSwept (examined dropped : Nat)
  | valueSetDetached (removed : Nat)
  | multimapCleared (detached : Nat)
  | contractViolated (error : CollectionError)
  deriving DecidableEq, Repr

namespace Event

inductive Level
  | trace
  | error
  deriving DecidableEq, Repr

/-- One named datum of an event: a count, or the text of an error. -/
inductive Datum
  | count (value : Nat)
  | text (value : String)
  deriving DecidableEq, Repr

def Level.name : Level → String
  | trace => "TRACE"
  | error => "ERROR"

def level : Event → Level
  | contractViolated _ => .error
  | _ => .trace

def message : Event → String
  | valueSetCreated => "created value set for new key"
  | unusedSwept .. => "dropped unused value sets"
  | valueSetDetached _ => "detached value set"
  | multimapCleared _ => "cleared multimap"
  | contractViolated _ => "index strategy contract violated; overwriting in place"

def data : Event → List (String × Datum)
  | valueSetCreated => []
  | unusedSwept _ dropped => [("swept", .count dropped)]
  | valueSetDetached removed => [("removed", .count removed)]
  | multimapCleared detached => [("detached", .count detached)]
  | contractViolated error => [("error", .text error.message)]

end Event

end LiveCollections
