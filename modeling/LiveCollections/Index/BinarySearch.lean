import LiveCollections.Comparator
import LiveCollections.Index.Strategy

/-!
# Binary search

The search halves a run of candidates without looking for an early hit: the
middle key is compared, and unless it stands above the searched key it stays a
candidate, together with everything after it. A last comparison at the one
remaining candidate decides between a hit and the two positions beside it.

The stored key is always the first argument of the comparator. Under a lawless
comparator the search still ends, and answers a position inside the list.
-/

namespace LiveCollections

variable {K : Type}

structure BinarySearch (K : Type) where
  comparator : Comparator K

inductive SearchResult
  | found (index : Nat)
  | absent (index : Nat)
  deriving DecidableEq, Repr

/-- The position of a hit, or the one at which a missing key would go. -/
def SearchResult.position : SearchResult → Nat
  | found index | absent index => index

namespace BinarySearch

def natural [Ord K] : BinarySearch K := ⟨.natural⟩

instance [Ord K] : Inhabited (BinarySearch K) := ⟨natural⟩

/-- How the key stored at `index` stands to `key`; past the end it counts as above. -/
def standing (s : BinarySearch K) (keys : List K) (key : K) (index : Nat) : Ordering :=
  match keys[index]? with
  | some stored => s.comparator.compare stored key
  | none => .gt

/-- The candidate that is left of the `size` candidates from `base` on. -/
def halve (standing : Nat → Ordering) (base size : Nat) : Nat :=
  if 1 < size then
    let half := size / 2
    let middle := base + half
    halve standing (if standing middle = .gt then base else middle) (size - half)
  else base
termination_by size
decreasing_by omega

theorem halve_lt (standing : Nat → Ordering) {base size : Nat} (h : 0 < size) :
    halve standing base size < base + size := by
  fun_induction halve standing base size with
  | case1 base size _ half middle ih =>
    refine Nat.lt_of_lt_of_le (ih (by omega)) ?_
    split <;> omega
  | case2 base size => omega

def search (s : BinarySearch K) (keys : List K) (key : K) : SearchResult :=
  let candidate := halve (s.standing keys key) 0 keys.length
  match s.standing keys key candidate with
  | .eq => .found candidate
  | .lt => .absent (candidate + 1)
  | .gt => .absent candidate

def insertionPoint (s : BinarySearch K) (keys : List K) (key : K) : Nat :=
  (s.search keys key).position

theorem insertionPoint_le (s : BinarySearch K) (keys : List K) (key : K) :
    s.insertionPoint keys key ≤ keys.length := by
  cases keys with
  | nil => simp [insertionPoint, search, halve, standing, SearchResult.position]
  | cons first rest =>
    have inside : halve (s.standing (first :: rest) key) 0 (rest.length + 1) < 0 + (rest.length + 1) :=
      halve_lt _ (by simp)
    simp only [insertionPoint, search, List.length_cons]
    generalize halve (s.standing (first :: rest) key) 0 (rest.length + 1) = candidate at inside ⊢
    cases s.standing (first :: rest) key candidate <;> simp only [SearchResult.position] <;> omega

instance : IndexStrategy (BinarySearch K) K where
  indexOf s keys key :=
    match s.search keys key with
    | .found index => some index
    | .absent _ => none
  insertionIndex s keys key :=
    match s.search keys key with
    | .found index => .error (.contractViolation index)
    | .absent index => .ok index

end BinarySearch

end LiveCollections
