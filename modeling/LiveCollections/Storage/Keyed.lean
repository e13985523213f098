import LiveCollections.Storage.Basic

/-!
# Access by key

Everything here goes through the strategy, and through nothing else, to learn
where a key lives. `upsert` asks first where the key is and only then where it
would go; a strategy that denies having a key and then names the position it is
stored at has broken its contract, and the value is overwritten in place.

A set reads the answers of `upsert` and `removeKey` as "was it new" and "was it
there".
-/

namespace LiveCollections.Storage

variable {σ K V : Type} [IndexStrategy σ K]

def indexOf? (s : Storage σ K V) (key : K) : Option Nat :=
  IndexStrategy.indexOf s.strategy s.keys key

def insertionIndex (s : Storage σ K V) (key : K) : Except CollectionError Nat :=
  IndexStrategy.insertionIndex s.strategy s.keys key

def contains (s : Storage σ K V) (key : K) : Bool := (s.indexOf? key).isSome

def get? (s : Storage σ K V) (key : K) : Option V := (s.indexOf? key).bind s.valueAt?

def containsEntry [BEq V] (s : Storage σ K V) (key : K) (value : V) : Bool :=
  (s.get? key).any (· == value)

/-- Takes the refused position as that of the key; any other refusal changes nothing. -/
def recover (s : Storage σ K V) (error : CollectionError) (value : V) :
    Outcome σ K V (Option V) :=
  let events := [.contractViolated error]
  match error with
  | .contractViolation index =>
    let (previous, after) := s.replaceValueAt index value
    { answer := .ok previous, after, events }
  | _ => { answer := .ok none, after := s, events }

/-- Inserts an absent key and overwrites the value of a present one, which it answers. -/
def upsert (s : Storage σ K V) (key : K) (value : V) : Outcome σ K V (Option V) :=
  match s.indexOf? key with
  | some index =>
    let (previous, after) := s.replaceValueAt index value
    { answer := .ok previous, after }
  | none =>
    match s.insertionIndex key with
    | .ok index =>
      let inserted := s.insertAt index key value
      { inserted with answer := inserted.answer.map fun _ => none }
    | .error error => s.recover error value

def removeKey (s : Storage σ K V) (key : K) : Option (K × V) × Storage σ K V :=
  match s.indexOf? key with
  | some index => s.removeAt index
  | none => (none, s)

/-- Overwrites the value of a present key and leaves an absent one absent. -/
def replaceValue (s : Storage σ K V) (key : K) (value : V) : Option V × Storage σ K V :=
  match s.indexOf? key with
  | some index => s.replaceValueAt index value
  | none => (none, s)

/-- Upserts in order, up to the first fault. -/
def upsertAll (s : Storage σ K V) : List (K × V) → Outcome σ K V Unit
  | [] => { answer := .ok (), after := s }
  | (key, value) :: rest =>
    let first := s.upsert key value
    match first.answer with
    | .error fault => { answer := .error fault, after := first.after, events := first.events }
    | .ok _ =>
      let others := first.after.upsertAll rest
      { others with events := first.events ++ others.events }

/-- Every entry on the left is found on the right, as the right side looks for keys. -/
def entriesWithin [BEq V] (left right : Storage σ K V) : Bool :=
  left.pairs.all fun (key, value) => right.containsEntry key value

def sameEntries [BEq V] (left right : Storage σ K V) : Bool :=
  left.size == right.size && left.entriesWithin right

def sameElements (left right : Storage σ K V) : Bool :=
  left.size == right.size && left.keys.all right.contains

end LiveCollections.Storage
