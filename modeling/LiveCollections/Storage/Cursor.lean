import LiveCollections.Storage.Keyed

/-!
# Running iterators

A cursor is a position, and nothing else: each step reads the entry that is at
the position at that moment. A change of the storage between two steps shifts
what the cursor meets next, and a cursor that has reached the end goes on if
entries are added behind it.

`take` asks a bounded number of times and stops at the first time there is
nothing. No cursor can yield more items than the storage has entries, so `drain`
is a `take` that is certain to stop that way.
-/

namespace LiveCollections

variable {σ K V ι α : Type}

/-- Up to `count` items, and the iterator as it is left. -/
def takeItems (next : ι → Option α × ι) : Nat → ι → List α × ι
  | 0, it => ([], it)
  | count + 1, it =>
    match next it with
    | (none, it) => ([], it)
    | (some item, it) =>
      let (items, last) := takeItems next count it
      (item :: items, last)

structure Cursor where
  position : Nat := 0
  deriving DecidableEq, Repr

namespace Cursor

def next (s : Storage σ K V) (c : Cursor) : Option (K × V) × Cursor :=
  match s.entryAt? c.position with
  | some entry => (some entry, ⟨c.position + 1⟩)
  | none => (none, c)

def take (s : Storage σ K V) (count : Nat) (c : Cursor) : List (K × V) × Cursor :=
  takeItems (next s) count c

def drain (s : Storage σ K V) (c : Cursor) : List (K × V) × Cursor := take s (s.size + 1) c

/-- At least the entries from the position on; no bound above. -/
def sizeHint (s : Storage σ K V) (c : Cursor) : Nat × Option Nat := (s.size - c.position, none)

end Cursor

namespace Storage

/-- Upserts what the rest of an iterator yields, changed by `change`. All reads come first. -/
def extendFrom [IndexStrategy σ K] (s : Storage σ K V) (c : Cursor)
    (change : K × V → K × V) : Outcome σ K V Unit × Cursor :=
  let (items, last) := c.drain s
  (s.upsertAll (items.map change), last)

end Storage

end LiveCollections
