import LiveCollections.Proofs.Index.Search
import LiveCollections.Proofs.Run
import LiveCollections.Proofs.Storage.Commands
import LiveCollections.Proofs.Storage.Keys
import LiveCollections.Window
import Mathlib.Data.Finset.Sort

/-!
# Sorted collections

The keys of a sorted collection ascend strictly at all times, so that binary search
finds a key by its class and a new key goes where it keeps them ascending. A sorted
collection is then an ordered finite map: the map of its entries, listed in the order of
the classes.
-/

namespace LiveCollections

variable {K V : Type} {c : Comparator K}

namespace Storage

structure Sorted (c : Comparator K) (s : SortedStorage K V) : Prop where
  strategy : s.strategy = ⟨c⟩
  ascending : c.Ascending s.keys

-- ---------------------------------------------------------------------------
-- Searching a sorted storage
-- ---------------------------------------------------------------------------

theorem indexOf?_eq_search (s : SortedStorage K V) (key : K) : s.indexOf? key =
    match s.strategy.search s.keys key with
    | .found index => some index
    | .absent _ => none := rfl

theorem insertionIndex_eq_search (s : SortedStorage K V) (key : K) : s.insertionIndex key =
    match s.strategy.search s.keys key with
    | .found index => .error (.contractViolation index)
    | .absent index => .ok index := rfl

namespace Sorted

variable {s : SortedStorage K V}

theorem found (h : s.Sorted c) {key : K} {i : Nat} (hi : s.indexOf? key = some i) :
    ∃ stored, s.keys[i]? = some stored ∧ c.compare stored key = .eq := by
  rw [indexOf?_eq_search, h.strategy] at hi
  split at hi
  · rename_i hs
    cases hi
    exact BinarySearch.compare_of_search_eq_found hs
  · cases hi

variable [Std.TransCmp c.compare]

theorem absent (h : s.Sorted c) {key : K} (hi : s.indexOf? key = none) :
    ∃ i, s.insertionIndex key = .ok i ∧ BinarySearch.Splits ⟨c⟩ s.keys key i := by
  rw [indexOf?_eq_search, h.strategy] at hi
  rw [insertionIndex_eq_search, h.strategy]
  split at hi
  · cases hi
  · rename_i i hs
    exact ⟨i, rfl, BinarySearch.splits_of_search_eq_absent h.ascending.ordered hs⟩

theorem locates (h : s.Sorted c) : s.Locates c.classOf where
  found hi := by
    obtain ⟨stored, hs, same⟩ := h.found hi
    exact ⟨stored, hs, Comparator.classOf_eq_iff.mpr same⟩
  absent hi := by
    obtain ⟨i, hs, splits⟩ := h.absent hi
    refine ⟨fun stored hm e => ?_, i, hs, splits.1⟩
    exact splits.compare_ne_eq stored hm (Comparator.classOf_eq_iff.mp e)

theorem upsert (h : s.Sorted c) (key : K) (value : V) : (s.upsert key value).after.Sorted c := by
  unfold Storage.upsert
  cases hi : s.indexOf? key with
  | some i => exact ⟨by simpa using h.strategy, by simpa using h.ascending⟩
  | none =>
    obtain ⟨i, hs, splits⟩ := h.absent hi
    rw [hs]
    refine ⟨(strategy_insertAt s i key value).trans h.strategy, ?_⟩
    rw [keys_insertAt s splits.1]
    exact splits.ascending_insertIdx h.ascending

omit [Std.TransCmp c.compare] in
theorem removeKey (h : s.Sorted c) (key : K) : (s.removeKey key).2.Sorted c := by
  unfold Storage.removeKey
  split
  · exact ⟨(strategy_removeAt s _).trans h.strategy,
      h.ascending.sublist (keys_removeAt_sublist s _)⟩
  · exact h

omit [Std.TransCmp c.compare] in
theorem replaceValue (h : s.Sorted c) (key : K) (value : V) :
    (s.replaceValue key value).2.Sorted c := by
  unfold Storage.replaceValue
  split
  · exact ⟨by simpa using h.strategy, by simpa using h.ascending⟩
  · exact h

theorem faithful : Faithful c.classOf (Sorted c : SortedStorage K V → Prop) where
  locates := locates
  upsert key value h := h.upsert key value
  removeKey key h := h.removeKey key
  replaceValue key value h := h.replaceValue key value
  clear h := ⟨h.strategy, .nil⟩
  copy h := ⟨h.strategy, h.ascending⟩

variable {m : Reference c.Class K V}

theorem contains_iff (h : s.Sorted c) (hm : s.Represents c.classOf m) (key : K) :
    s.contains key = true ↔ ∃ entry ∈ s.pairs, c.compare entry.1 key = .eq := by
  simp only [hm.contains_iff h.locates, Comparator.classOf_eq_iff]

theorem get?_eq_some_iff (h : s.Sorted c) (hm : s.Represents c.classOf m) (key : K) (value : V) :
    s.get? key = some value ↔ ∃ stored, (stored, value) ∈ s.pairs ∧ c.compare stored key = .eq := by
  simp only [hm.get?_eq_some_iff h.locates, Comparator.classOf_eq_iff]

end Sorted

end Storage

-- ---------------------------------------------------------------------------
-- Windows as guards
-- ---------------------------------------------------------------------------

def Window.within (w : Window K) (c : Comparator K) (key : K) : Bool :=
  w.lower.all (fun lower => (c.compare lower key).isLE) &&
    w.upper.all fun upper => c.compare key upper == .lt

/-- The guard compares a key with the lower bound in the other direction. -/
theorem Window.admits_eq_within [Std.TransCmp c.compare] (w : Window K) (key : K) :
    w.admits c key = w.within c key := by
  have lower : ∀ lower, (c.compare key lower != .lt) = (c.compare lower key).isLE := by
    intro lower
    rw [@Std.OrientedCmp.eq_swap _ c.compare _ key lower]
    cases c.compare lower key <;> rfl
  simp only [admits, atOrAboveLower, belowUpper, within, lower]

inductive SortedCommand (K V : Type)
  | whole (command : CollectionCommand K V)
  | insertWithin (w : Window K) (key : K) (value : V)
  | removeWithin (w : Window K) (key : K)

abbrev SortedAnswer (K V : Type) := Except CollectionError (CollectionAnswer K V)

def Storage.step (s : SortedStorage K V) :
    SortedCommand K V → SortedAnswer K V × SortedStorage K V
  | .whole command => (s.perform command).map .ok id
  | .insertWithin w key value =>
    match w.insert s key value with
    | .ok outcome => (.ok (.inserted outcome.answer outcome.events), outcome.after)
    | .error error => (.error error, s)
  | .removeWithin w key =>
    match w.remove s key with
    | .ok (entry, after) => (.ok (.removed entry), after)
    | .error error => (.error error, s)

def Reference.step (c : Comparator K) [Std.TransCmp c.compare] (m : Reference c.Class K V) :
    SortedCommand K V → SortedAnswer K V × Reference c.Class K V
  | .whole command => (m.perform c.classOf command).map .ok id
  | .insertWithin w key value =>
    if w.within c key then (m.perform c.classOf (.insert key value)).map .ok id
    else (.error .outOfRange, m)
  | .removeWithin w key =>
    if w.within c key then (m.perform c.classOf (.remove key)).map .ok id
    else (.error .outOfRange, m)

variable [Std.TransCmp c.compare]

theorem Storage.Sorted.step {s : SortedStorage K V} (hs : s.Sorted c) {m : Reference c.Class K V}
    (h : s.Represents c.classOf m) (command : SortedCommand K V) :
    (s.step command).1 = (m.step c command).1 ∧ (s.step command).2.Sorted c ∧
      (s.step command).2.Represents c.classOf (m.step c command).2 := by
  have comparator : s.strategy.comparator = c := by rw [hs.strategy]
  cases command with
  | whole command =>
    obtain ⟨answer, kept, after⟩ := Sorted.faithful.perform hs h command
    exact ⟨congrArg Except.ok answer, kept, after⟩
  | insertWithin w key value =>
    obtain ⟨answer, kept, after⟩ := Sorted.faithful.perform hs h (.insert key value)
    simp only [Storage.step, Reference.step, Window.insert, comparator, w.admits_eq_within]
    by_cases inside : w.within c key = true
    · simp only [if_pos inside]
      exact ⟨congrArg Except.ok answer, kept, after⟩
    · simp only [if_neg inside]
      exact ⟨trivial, hs, h⟩
  | removeWithin w key =>
    obtain ⟨answer, kept, after⟩ := Sorted.faithful.perform hs h (.remove key)
    simp only [Storage.step, Reference.step, Window.remove, comparator, w.admits_eq_within]
    by_cases inside : w.within c key = true
    · simp only [if_pos inside]
      exact ⟨congrArg Except.ok answer, kept, after⟩
    · simp only [if_neg inside]
      exact ⟨trivial, hs, h⟩

omit [Std.TransCmp c.compare] in
theorem Storage.sorted_withCapacity (capacity : Nat) :
    (withCapacity capacity ⟨c⟩ : SortedStorage K V).Sorted c := ⟨rfl, .nil⟩

theorem Storage.Sorted.run (c : Comparator K) [Std.TransCmp c.compare] (capacity : Nat)
    (commands : List (SortedCommand K V)) :
    let start : SortedStorage K V := .withCapacity capacity ⟨c⟩
    (run Storage.step start commands).1 = (run (Reference.step c) ∅ commands).1 ∧
      (run Storage.step start commands).2.Sorted c ∧
      (run Storage.step start commands).2.Represents c.classOf
        (run (Reference.step c) ∅ commands).2 := by
  refine run_simulates (R := fun _ (s : SortedStorage K V) m => s.Sorted c ∧
    s.Represents c.classOf m) ?_ ?_ commands
  · exact ⟨sorted_withCapacity capacity, represents_withCapacity capacity _⟩
  · intro _ s m command related
    exact related.1.step related.2 command

def Storage.Reached (c : Comparator K) (s : SortedStorage K V) : Prop :=
  ∃ capacity commands, s = (run Storage.step (.withCapacity capacity ⟨c⟩) commands).2

theorem Storage.Reached.sorted {s : SortedStorage K V} (h : s.Reached c) : s.Sorted c := by
  obtain ⟨capacity, commands, rfl⟩ := h
  exact (Storage.Sorted.run c capacity commands).2.1

theorem Storage.Reached.represents {s : SortedStorage K V} (h : s.Reached c) :
    ∃ m, s.Represents c.classOf m := by
  obtain ⟨capacity, commands, rfl⟩ := h
  exact ⟨_, (Storage.Sorted.run c capacity commands).2.2⟩

theorem Storage.Reached.paired {s : SortedStorage K V} (h : s.Reached c) : s.Paired := by
  obtain ⟨m, represents⟩ := h.represents
  exact represents.paired

end LiveCollections
