import LiveCollections.Index.BinarySearch
import LiveCollections.Storage.Cursor

/-!
# Windows over a sorted storage

A window is a pair of bounds, the lower inclusive and the upper exclusive, either
of which may be open. It holds no entries: every question is answered from the
storage as it is now. Positions come from a binary search for the bounds,
membership from comparing the key with the bounds (the key is the first
argument), and a running iterator from its position and the upper bound.

Narrowing accepts an endpoint equal to either bound, so that the upper bound of a
window may be repeated although no key at it is admitted.

An iterator of a window looks up its first position once. Once it has answered
nothing it is finished for good.
-/

namespace LiveCollections

variable {K V : Type}

abbrev SortedStorage (K V : Type) := Storage (BinarySearch K) K V

structure Window (K : Type) where
  lower : Option K
  upper : Option K
  deriving DecidableEq, Repr

namespace Window

def unbounded : Window K := ⟨none, none⟩

instance : Inhabited (Window K) := ⟨unbounded⟩

def atOrAboveLower (w : Window K) (order : Comparator K) (key : K) : Bool :=
  w.lower.all fun lower => order.compare key lower != .lt

def belowUpper (w : Window K) (order : Comparator K) (key : K) : Bool :=
  w.upper.all fun upper => order.compare key upper == .lt

def admits (w : Window K) (order : Comparator K) (key : K) : Bool :=
  w.atOrAboveLower order key && w.belowUpper order key

def admitsEndpoint (w : Window K) (order : Comparator K) (key : K) : Bool :=
  w.atOrAboveLower order key && w.upper.all fun upper => order.compare key upper != .gt

/-- The window between new endpoints; an endpoint that is not given is inherited. -/
def narrow (w : Window K) (order : Comparator K) (lower upper : Option K) :
    Except CollectionError (Window K) :=
  if !(lower.all (w.admitsEndpoint order) && upper.all (w.admitsEndpoint order)) then
    .error .invalidRange
  else
    match lower, upper with
    | some a, some b =>
      if order.compare a b = .gt then .error .invalidRange else .ok ⟨some a, some b⟩
    | _, _ => .ok ⟨lower.or w.lower, upper.or w.upper⟩

def sub (w : Window K) (order : Comparator K) (lower upper : K) :
    Except CollectionError (Window K) :=
  w.narrow order (some lower) (some upper)

def head (w : Window K) (order : Comparator K) (upper : K) : Except CollectionError (Window K) :=
  w.narrow order none (some upper)

def tail (w : Window K) (order : Comparator K) (lower : K) : Except CollectionError (Window K) :=
  w.narrow order (some lower) none

def lowerIndex (w : Window K) (s : SortedStorage K V) : Nat :=
  match w.lower with
  | some lower => s.strategy.insertionPoint s.keys lower
  | none => 0

def upperIndex (w : Window K) (s : SortedStorage K V) : Nat :=
  match w.upper with
  | some upper => s.strategy.insertionPoint s.keys upper
  | none => s.size

def size (w : Window K) (s : SortedStorage K V) : Nat := w.upperIndex s - w.lowerIndex s

def isEmpty (w : Window K) (s : SortedStorage K V) : Bool := w.size s == 0

def first (w : Window K) (s : SortedStorage K V) : Except CollectionError K :=
  if w.upperIndex s ≤ w.lowerIndex s then .error .emptyCollection
  else
    match s.keyAt? (w.lowerIndex s) with
    | some key => .ok key
    | none => .error .emptyCollection

def last (w : Window K) (s : SortedStorage K V) : Except CollectionError K :=
  if w.upperIndex s ≤ w.lowerIndex s then .error .emptyCollection
  else
    match s.keyAt? (w.upperIndex s - 1) with
    | some key => .ok key
    | none => .error .emptyCollection

def contains (w : Window K) (s : SortedStorage K V) (key : K) : Bool :=
  w.admits s.strategy.comparator key && s.contains key

def get? (w : Window K) (s : SortedStorage K V) (key : K) : Option V :=
  if w.admits s.strategy.comparator key then s.get? key else none

/-- Refuses a key outside the window; inside it, the storage's own upsert. -/
def insert (w : Window K) (s : SortedStorage K V) (key : K) (value : V) :
    Except CollectionError (Outcome (BinarySearch K) K V (Option V)) :=
  if w.admits s.strategy.comparator key then .ok (s.upsert key value) else .error .outOfRange

def remove (w : Window K) (s : SortedStorage K V) (key : K) :
    Except CollectionError (Option (K × V) × SortedStorage K V) :=
  if w.admits s.strategy.comparator key then .ok (s.removeKey key) else .error .outOfRange

/-- An iterator of a window: a position, the upper bound, and whether it has ended. -/
structure Iterator (K : Type) where
  position : Nat
  upper : Option K
  finished : Bool
  deriving DecidableEq, Repr

def iterator (w : Window K) (s : SortedStorage K V) : Iterator K :=
  ⟨w.lowerIndex s, w.upper, false⟩

namespace Iterator

def next (s : SortedStorage K V) (it : Iterator K) : Option (K × V) × Iterator K :=
  if it.finished then (none, it)
  else
    match s.entryAt? it.position with
    | some (key, value) =>
      if (Window.mk none it.upper).belowUpper s.strategy.comparator key then
        (some (key, value), { it with position := it.position + 1 })
      else (none, { it with finished := true })
    | none => (none, { it with finished := true })

def take (s : SortedStorage K V) (count : Nat) (it : Iterator K) :
    List (K × V) × Iterator K :=
  takeItems (next s) count it

def drain (s : SortedStorage K V) (it : Iterator K) : List (K × V) × Iterator K :=
  take s (s.size + 1) it

/-- The bounds may stop the iterator at once, so nothing is promised. -/
def sizeHint (_ : Iterator K) : Nat × Option Nat := (0, none)

end Iterator

/-- What a fresh iterator yields while nothing changes. -/
def entries (w : Window K) (s : SortedStorage K V) : List (K × V) :=
  ((w.iterator s).drain s).1

end Window

namespace Storage

def firstKey (s : SortedStorage K V) : Except CollectionError K := Window.unbounded.first s

def lastKey (s : SortedStorage K V) : Except CollectionError K := Window.unbounded.last s

def extendFromWindow (s : SortedStorage K V) (it : Window.Iterator K)
    (change : K × V → K × V) : Outcome (BinarySearch K) K V Unit × Window.Iterator K :=
  let (items, last) := it.drain s
  (s.upsertAll (items.map change), last)

end Storage

end LiveCollections
