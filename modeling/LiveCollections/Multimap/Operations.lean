import LiveCollections.Multimap.Store

/-!
# Changing a multimap

Putting creates the set of an absent key; removing and replacing a single value
never do. A removal that empties a set drops its slot, unless a view holds it. The
set that `removeAll` or `clear` takes out of the table is emptied, so that a view
which still holds it reads no values of the key from then on.
-/

namespace LiveCollections.Multimap

variable {K V : Type} [DecidableEq K] [DecidableEq V]

/-- Inserts, and answers whether the value is new. -/
def insertion (value : V) (values : ValueSet V) : Bool × ValueSet V :=
  (!values.contains value, values.insert value)

/-- Inserts all, and answers whether any of them is new. -/
def insertions (added : List V) (values : ValueSet V) : Bool × ValueSet V :=
  (added.any fun value => !values.contains value, values.insertAll added)

/-- Removes, and answers whether the value was there. -/
def removal (value : V) (values : ValueSet V) : Bool × ValueSet V :=
  (values.contains value, values.erase value)

/-- Puts a new value in the place of an old one, if that is there. -/
def exchange (old new : V) (values : ValueSet V) : Bool × ValueSet V :=
  if values.contains old then (true, (values.erase old).insert new) else (false, values)

namespace Store

def create (s : Store K V) : TableId × Store K V := s.newTable []

def put (s : Store K V) (m : TableId) (key : K) (value : V) : Bool × Store K V :=
  s.update m key (insertion value)

/-- Putting no values does not create the key. -/
def putAll (s : Store K V) (m : TableId) (key : K) (values : List V) : Bool × Store K V :=
  if values.isEmpty then (false, s) else s.update m key (insertions values)

/-- Puts the pairs in order, and answers how many were new. -/
def putEach (s : Store K V) (m : TableId) : List (K × V) → Nat × Store K V
  | [] => (0, s)
  | (key, value) :: rest =>
    let (isNew, s) := s.put m key value
    let (count, s) := s.putEach m rest
    (count + isNew.toNat, s)

/-- A new multimap with the given pairs, put one by one. -/
def createFrom (s : Store K V) (pairs : List (K × V)) : TableId × Store K V :=
  let (m, s) := s.create
  (m, (s.putEach m pairs).2)

def remove (s : Store K V) (m : TableId) (key : K) (value : V) : Bool × Store K V :=
  match s.slot? m key with
  | none => (false, s)
  | some id =>
    let (removed, s) := s.change id (removal value)
    if removed && (s.values id).isEmpty then (removed, s.prune m key) else (removed, s)

def removeAll (s : Store K V) (m : TableId) (key : K) : ValueSet V × Store K V :=
  match s.slot? m key with
  | none => (.empty, s)
  | some id =>
    let removed := s.values id
    (removed, ((s.dropSlot m key).setValues id .empty).report (.valueSetDetached removed.size))

def replaceValue (s : Store K V) (m : TableId) (key : K) (old new : V) : Bool × Store K V :=
  (s.updatePresent? m key (exchange old new)).getD (false, s)

/-- Gives a key new values, and answers the old ones. The key keeps its set. -/
def replaceValues (s : Store K V) (m : TableId) (key : K) (values : List V) :
    ValueSet V × Store K V :=
  s.update m key fun current => (current, .ofList values)

def clear (s : Store K V) (m : TableId) : Store K V :=
  let table := s.table m
  let emptied := table.slots.foldl (fun s slot => s.setValues slot.2 .empty) s
  (emptied.setTable m { table with slots := [] }).report (.multimapCleared table.slots.length)

end Store

end LiveCollections.Multimap
