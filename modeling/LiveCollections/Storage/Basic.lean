import LiveCollections.Event
import LiveCollections.Index.Strategy

/-!
# Storage

Two parallel lists, keys and values, with a strategy that says where keys live.
A set is a storage whose values are all `()`.

Positional edits shift the entries behind them. The capacity is the room last
asked for: it grows only when an insertion meets a full storage, before anything
else happens, so that growth stays even if the position turns out to be past the
end. `pairs` is the view in which every edit is one list operation.
-/

namespace LiveCollections

variable {σ K V : Type}

structure Storage (σ K V : Type) where
  keys : List K
  values : List V
  capacity : Nat
  strategy : σ

/-- What an operation answers, what it reports, and the storage it leaves. -/
structure Outcome (σ K V α : Type) where
  answer : Except Fault α
  after : Storage σ K V
  events : List Event := []

namespace Storage

def minimumRoom : Nat := 4

def withCapacity (capacity : Nat) (strategy : σ) : Storage σ K V :=
  { keys := [], values := [], capacity, strategy }

def empty (strategy : σ) : Storage σ K V := withCapacity 0 strategy

instance [Inhabited σ] : Inhabited (Storage σ K V) := ⟨empty default⟩

def size (s : Storage σ K V) : Nat := s.keys.length

def isEmpty (s : Storage σ K V) : Bool := s.keys.isEmpty

def pairs (s : Storage σ K V) : List (K × V) := s.keys.zip s.values

def keyAt? (s : Storage σ K V) (index : Nat) : Option K := s.keys[index]?

def valueAt? (s : Storage σ K V) (index : Nat) : Option V := s.values[index]?

def entryAt? (s : Storage σ K V) (index : Nat) : Option (K × V) :=
  match s.keyAt? index, s.valueAt? index with
  | some key, some value => some (key, value)
  | _, _ => none

/-- Room for as many entries again, and for four at least, once the storage is full. -/
def growIfFull (s : Storage σ K V) : Storage σ K V :=
  if s.size < s.capacity then s
  else { s with capacity := s.size + max s.size minimumRoom }

def insertAt (s : Storage σ K V) (index : Nat) (key : K) (value : V) : Outcome σ K V Unit :=
  let grown := s.growIfFull
  if index ≤ s.size then
    { answer := .ok ()
      after := { grown with
        keys := s.keys.insertIdx index key, values := s.values.insertIdx index value } }
  else
    { answer := .error (.indexPastEnd index s.size), after := grown }

def removeAt (s : Storage σ K V) (index : Nat) : Option (K × V) × Storage σ K V :=
  match s.entryAt? index with
  | none => (none, s)
  | some entry =>
    (some entry, { s with keys := s.keys.eraseIdx index, values := s.values.eraseIdx index })

def replaceValueAt (s : Storage σ K V) (index : Nat) (value : V) : Option V × Storage σ K V :=
  match s.valueAt? index with
  | none => (none, s)
  | some previous => (some previous, { s with values := s.values.set index value })

/-- Forgets the entries and keeps the room. -/
def clear (s : Storage σ K V) : Storage σ K V := { s with keys := [], values := [] }

def shrinkToFit (s : Storage σ K V) : Storage σ K V := { s with capacity := s.size }

/-- A copy holds the same entries in exactly the room they need. -/
def copy (s : Storage σ K V) : Storage σ K V := s.shrinkToFit

def indexOfValue? [BEq V] (s : Storage σ K V) (value : V) : Option Nat :=
  s.values.findIdx? (· == value)

def containsValue [BEq V] (s : Storage σ K V) (value : V) : Bool :=
  (s.indexOfValue? value).isSome

end Storage

end LiveCollections
