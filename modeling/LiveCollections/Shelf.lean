import LiveCollections.Storage.Keyed

/-!
# Shared storages

A collection, its views and its iterators share one storage: each of them holds
the same handle and reads the storage again at every call. A storage is never
taken off the shelf, so a view outlives the collection it was taken from.

Equality takes a handle as equal to itself without looking at the entries.
-/

namespace LiveCollections

variable {σ K V : Type}

structure Handle where
  index : Nat
  deriving DecidableEq, Repr

structure Shelf (σ K V : Type) where
  storages : Array (Storage σ K V) := #[]

namespace Shelf

def place (shelf : Shelf σ K V) (s : Storage σ K V) : Handle × Shelf σ K V :=
  (⟨shelf.storages.size⟩, ⟨shelf.storages.push s⟩)

def read? (shelf : Shelf σ K V) (handle : Handle) : Option (Storage σ K V) :=
  shelf.storages[handle.index]?

def write (shelf : Shelf σ K V) (handle : Handle) (s : Storage σ K V) : Shelf σ K V :=
  ⟨shelf.storages.setIfInBounds handle.index s⟩

/-- Whether two maps on the shelf hold the same entries, looked up as the right one does. -/
def sameMap [IndexStrategy σ K] [BEq V] (shelf : Shelf σ K V) (left right : Handle) : Bool :=
  left == right ||
    match shelf.read? left, shelf.read? right with
    | some a, some b => a.sameEntries b
    | _, _ => false

def sameSet [IndexStrategy σ K] (shelf : Shelf σ K V) (left right : Handle) : Bool :=
  left == right ||
    match shelf.read? left, shelf.read? right with
    | some a, some b => a.sameElements b
    | _, _ => false

theorem read?_place (shelf : Shelf σ K V) (s : Storage σ K V) :
    (shelf.place s).2.read? (shelf.place s).1 = some s := by
  simp [place, read?]

theorem read?_write_ne (shelf : Shelf σ K V) (s : Storage σ K V) {handle other : Handle}
    (h : handle ≠ other) : (shelf.write handle s).read? other = shelf.read? other := by
  have hi : handle.index ≠ other.index := fun e => h (by cases handle; cases other; simp_all)
  simp [write, read?, Array.getElem?_setIfInBounds_ne hi]

end Shelf

end LiveCollections
