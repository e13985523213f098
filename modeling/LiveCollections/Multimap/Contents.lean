import LiveCollections.Hash.Element
import LiveCollections.Multimap.Snapshot

/-!
# Reading a multimap

A key counts as present only while its set has a value; slots without values are
passed over by every reader. The content hash sums over the present keys, and over
the values of each key, so that no order of the table or of a set can show in it.
-/

namespace LiveCollections.Multimap.Store

variable {K V : Type}

def size (s : Store K V) (m : TableId) : Nat := valueCount (s.slotGroups m)

def isEmpty (s : Store K V) (m : TableId) : Bool :=
  (s.slotGroups m).all fun group => group.2.isEmpty

/-- The keys with a value, as a key set that is read now. -/
def keys (s : Store K V) (m : TableId) : List K :=
  ((s.slotGroups m).filter fun group => !group.2.isEmpty).map Prod.fst

def keyCount (s : Store K V) (m : TableId) : Nat := (s.keys m).length

def pairs (s : Store K V) (m : TableId) : List (K × V) :=
  (s.slotGroups m).flatMap fun group => group.2.elements.map fun value => (group.1, value)

section Membership

variable [DecidableEq K]

def containsKey (s : Store K V) (m : TableId) (key : K) : Bool :=
  (s.slot? m key).any fun id => !(s.values id).isEmpty

def containsValue [DecidableEq V] (s : Store K V) (m : TableId) (value : V) : Bool :=
  (s.slotGroups m).any fun group => group.2.contains value

def containsEntry [DecidableEq V] (s : Store K V) (m : TableId) (key : K) (value : V) : Bool :=
  (s.slot? m key).any fun id => (s.values id).contains value

end Membership

section Hashing

variable [Hash.Hashed K] [Hash.Hashed V]

def groupHash (group : K × ValueSet V) : UInt64 :=
  Hash.ofElement group.1 ^^^ Hash.total (group.2.elements.map Hash.ofElement)

def contentHash (s : Store K V) (m : TableId) : UInt64 :=
  Hash.total (((s.slotGroups m).filter fun group => !group.2.isEmpty).map groupHash)

/-- The words that a multimap gives to a hasher: its content hash and nothing else. -/
def hashWords (s : Store K V) (m : TableId) : List UInt64 := [s.contentHash m]

end Hashing

end LiveCollections.Multimap.Store
