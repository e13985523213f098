/-!
# What an operation can refuse, and what it can break on

Looking up an absent key is never an error: it answers `none` or `false`. A
`CollectionError` is kept for a question without an answer (the first key of an
empty window), for a change that a view must refuse, and for a position asked
for a key that already has one.

A `Fault` is not an answer. It says that a strategy named a position outside the
keys it was shown; the operation that met it stops where it stood.
-/

namespace LiveCollections

inductive CollectionError
  | emptyCollection
  | outOfRange
  | invalidRange
  /-- An insertion position was requested for the key stored at `index`. -/
  | contractViolation (index : Nat)
  deriving DecidableEq, Repr

namespace CollectionError

def message : CollectionError → String
  | emptyCollection => "collection is empty"
  | outOfRange => "element is outside the view's range"
  | invalidRange => "range bounds are reversed or outside the parent range"
  | contractViolation index =>
    "insertion point requested for a key already present at index " ++ toString index

/-- No error of a collection is caused by another one. -/
def cause? : CollectionError → Option CollectionError
  | _ => none

end CollectionError

inductive Fault
  /-- An insertion at `index` into only `length` entries. -/
  | indexPastEnd (index length : Nat)
  deriving DecidableEq, Repr

end LiveCollections
