import LiveCollections.Multimap.Operations

/-!
# Live views of a multimap

A value view is a key together with the identity of the set that the key had when
the view was taken. Getting a view creates the set of an absent key, which is not
yet a key of the multimap: only a key with a value is. A view writes to its set
directly, whether or not a table still knows the set, and it counts as holding it
until it is released.

Walking over the values of a view works on a copy, so that the action may write
to the very same set.
-/

namespace LiveCollections.Multimap

variable {K V : Type} [DecidableEq K] [DecidableEq V]

structure ValueView (K : Type) where
  key : K
  set : SetId
  deriving DecidableEq, Repr

/-- Two views share storage when they hold one set. -/
def ValueView.shares (v w : ValueView K) : Bool := v.set == w.set

namespace Store

def get (s : Store K V) (m : TableId) (key : K) : ValueView K × Store K V :=
  let (id, s) := s.slotFor m key
  (⟨key, id⟩, s.acquire id)

def copyView (s : Store K V) (v : ValueView K) : ValueView K × Store K V := (v, s.acquire v.set)

def dropView (s : Store K V) (v : ValueView K) : Store K V := s.release v.set

def viewed (s : Store K V) (v : ValueView K) : ValueSet V := s.values v.set

def insertInto (s : Store K V) (v : ValueView K) (value : V) : Bool × Store K V :=
  s.change v.set (insertion value)

def removeFrom (s : Store K V) (v : ValueView K) (value : V) : Bool × Store K V :=
  s.change v.set (removal value)

/-- Runs an action for each value that the view has at the call. -/
def forEach (s : Store K V) (v : ValueView K) (action : V → Store K V → Store K V) :
    List V × Store K V :=
  let visited := (s.viewed v).elements
  (visited, visited.foldl (fun s value => action value s) s)

/-- Puts the image of each value of a view under the key of the view. -/
def forEachPut (s : Store K V) (v : ValueView K) (m : TableId) (image : V → V) :
    List V × Store K V :=
  s.forEach v fun value s => (s.put m v.key (image value)).2

end Store

end LiveCollections.Multimap
