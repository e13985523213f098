import LiveCollections.Proofs.Storage.Sorted

/-!
# Sorted collections under any comparator

A comparator that is no order can keep a sorted collection from finding its keys, but it
cannot corrupt the collection. What a search answers is bounded by the halving alone,
whatever the comparisons say: a hit is a key that compares equal, a miss is a position
inside. The two lookups of an upsert run one search on one list of keys, so that they agree,
and the second never has to report that the first has overlooked the key.

Nothing here assumes more of a storage than that it holds as many values as keys, which no
command changes.
-/

namespace LiveCollections

variable {K V α : Type}

-- ---------------------------------------------------------------------------
-- Changes in one place
-- ---------------------------------------------------------------------------

theorem eq_take_append_cons {l : List α} {i : Nat} {a : α} (h : l[i]? = some a) :
    l = l.take i ++ a :: l.drop (i + 1) := by
  obtain ⟨lt, rfl⟩ := List.getElem?_eq_some_iff.mp h
  rw [← List.drop_eq_getElem_cons lt, List.take_append_drop]

namespace Storage

/-- `t` has the entries of `s`, but for one place: there it has the new entry for the old one. -/
def Exchanges (s t : SortedStorage K V) (old new : Option (K × V)) : Prop :=
  ∃ front back, s.pairs = front ++ old.toList ++ back ∧ t.pairs = front ++ new.toList ++ back

variable {s : SortedStorage K V} {i : Nat} {key : K} {value : V}

theorem exchanges_replaceValueAt {stored : K} {previous : V}
    (h : s.pairs[i]? = some (stored, previous)) (value : V) :
    s.Exchanges (s.replaceValueAt i value).2 (some (stored, previous)) (some (stored, value)) := by
  refine ⟨s.pairs.take i, s.pairs.drop (i + 1), by simpa using eq_take_append_cons h, ?_⟩
  obtain ⟨lt, -⟩ := List.getElem?_eq_some_iff.mp h
  rw [pairs_replaceValueAt, List.modify_eq_set_getElem?, h]
  change s.pairs.set i (stored, value) = _
  rw [List.set_eq_take_append_cons_drop, if_pos lt]
  simp

theorem exchanges_insertAt (h : s.Paired) (hi : i ≤ s.size) (key : K) (value : V) :
    s.Exchanges (s.insertAt i key value).after none (some (key, value)) := by
  have fits : i ≤ s.pairs.length := by rwa [h.length_pairs]
  refine ⟨s.pairs.take i, s.pairs.drop i, by simp, ?_⟩
  rw [pairs_insertAt h hi, insertIdx_eq_take_append fits]
  simp

theorem exchanges_removeAt {entry : K × V} (h : s.pairs[i]? = some entry) :
    s.Exchanges (s.removeAt i).2 (some entry) none := by
  refine ⟨s.pairs.take i, s.pairs.drop (i + 1), by simpa using eq_take_append_cons h, ?_⟩
  rw [pairs_removeAt, List.eraseIdx_eq_take_drop_succ]
  simp

-- ---------------------------------------------------------------------------
-- Access by key
-- ---------------------------------------------------------------------------

theorem Paired.lookups (h : s.Paired) (key : K) :
    (∃ i stored previous, s.indexOf? key = some i ∧ s.pairs[i]? = some (stored, previous) ∧
        s.strategy.comparator.compare stored key = .eq) ∨
      ∃ i, s.indexOf? key = none ∧ s.insertionIndex key = .ok i ∧ i ≤ s.size := by
  have spec := s.strategy.search_inside s.keys key
  rw [indexOf?_eq_search, insertionIndex_eq_search]
  cases hs : s.strategy.search s.keys key with
  | absent i =>
    rw [hs] at spec
    exact .inr ⟨i, rfl, rfl, spec⟩
  | found i =>
    rw [hs] at spec
    obtain ⟨stored, found, equal⟩ := spec
    rw [h.keys_eq, List.getElem?_map, Option.map_eq_some_iff] at found
    obtain ⟨⟨_, previous⟩, hp, rfl⟩ := found
    exact .inl ⟨i, _, previous, rfl, hp, equal⟩

inductive Upserted (s : SortedStorage K V) (key : K) (value : V) :
    Outcome (BinarySearch K) K V (Option V) → Prop
  | overwritten {stored : K} {previous : V} {t : SortedStorage K V}
    (equal : s.strategy.comparator.compare stored key = .eq)
    (exchanged : s.Exchanges t (some (stored, previous)) (some (stored, value))) :
    Upserted s key value { answer := .ok (some previous), after := t, events := [] }
  | added {t : SortedStorage K V} (exchanged : s.Exchanges t none (some (key, value))) :
    Upserted s key value { answer := .ok none, after := t, events := [] }

theorem Paired.upserted (h : s.Paired) (key : K) (value : V) :
    s.Upserted key value (s.upsert key value) := by
  unfold Storage.upsert
  rcases h.lookups key with ⟨i, stored, previous, hi, hp, equal⟩ | ⟨i, hi, hs, le⟩
  · have answer := replaceValueAt_answer hp value
    have exchanged := exchanges_replaceValueAt hp value
    rw [hi]
    dsimp only
    rw [answer]
    exact .overwritten equal exchanged
  · obtain ⟨answer, events⟩ := insertAt_answer (s := s) le key value
    have exchanged := exchanges_insertAt h le key value
    rw [hi, hs]
    dsimp only
    rw [answer, events]
    exact .added exchanged

inductive Removed (s : SortedStorage K V) (key : K) : Option (K × V) × SortedStorage K V → Prop
  | taken {entry : K × V} {t : SortedStorage K V}
    (equal : s.strategy.comparator.compare entry.1 key = .eq)
    (exchanged : s.Exchanges t (some entry) none) : Removed s key (some entry, t)
  | missed : Removed s key (none, s)

theorem Paired.removed (h : s.Paired) (key : K) : s.Removed key (s.removeKey key) := by
  unfold Storage.removeKey
  rcases h.lookups key with ⟨i, stored, previous, hi, hp, equal⟩ | ⟨i, hi, -, -⟩
  · have answer := removeAt_answer hp
    have exchanged := exchanges_removeAt hp
    rw [hi]
    dsimp only
    generalize s.removeAt i = result at answer exchanged ⊢
    obtain ⟨entry, t⟩ := result
    cases answer
    exact .taken equal exchanged
  · rw [hi]
    exact .missed

theorem Paired.quiet_upsert (h : s.Paired) (key : K) (value : V) :
    (s.upsert key value).answer.isOk = true ∧ (s.upsert key value).events = [] := by
  have upserted := h.upserted key value
  generalize s.upsert key value = outcome at upserted ⊢
  cases upserted <;> exact ⟨rfl, rfl⟩

theorem Paired.extended (h : s.Paired) (entries : List (K × V)) :
    (s.upsertAll entries).answer = .ok () ∧ (s.upsertAll entries).events = [] ∧
      (s.upsertAll entries).after =
        entries.foldl (fun s entry => (s.upsert entry.1 entry.2).after) s :=
  upsertAll_of_quiet h entries (fun key value h => h.quiet_upsert key value) fun key value h =>
    h.upsert key value

end Storage

-- ---------------------------------------------------------------------------
-- Windows
-- ---------------------------------------------------------------------------

namespace Window

variable {s : SortedStorage K V}

theorem lowerIndex_le_size (w : Window K) (s : SortedStorage K V) : w.lowerIndex s ≤ s.size := by
  unfold lowerIndex
  split
  · exact s.strategy.insertionPoint_le s.keys _
  · exact Nat.zero_le _

theorem upperIndex_le_size (w : Window K) (s : SortedStorage K V) : w.upperIndex s ≤ s.size := by
  unfold upperIndex
  split
  · exact s.strategy.insertionPoint_le s.keys _
  · exact Nat.le_refl _

/-- The positions of the bounds may have crossed. Otherwise there is a key at either end. -/
inductive Ends (w : Window K) (s : SortedStorage K V) : Prop
  | crossed (size : w.size s = 0) (first : w.first s = .error .emptyCollection)
    (last : w.last s = .error .emptyCollection)
  | apart {low more : Nat} {lowest highest : K} (lower : w.lowerIndex s = low)
    (upper : w.upperIndex s = low + more + 1) (size : w.size s = more + 1)
    (lowestAt : s.keys[low]? = some lowest) (highestAt : s.keys[low + more]? = some highest)
    (first : w.first s = .ok lowest) (last : w.last s = .ok highest)

theorem ends (w : Window K) (s : SortedStorage K V) : w.Ends s := by
  have fits := w.upperIndex_le_size s
  rcases Nat.lt_or_ge (w.lowerIndex s) (w.upperIndex s) with lt | ge
  · obtain ⟨more, upper⟩ := Nat.exists_eq_add_of_lt lt
    have low : w.lowerIndex s < s.keys.length := Nat.lt_of_lt_of_le lt fits
    have high : w.lowerIndex s + more < s.keys.length := by
      rw [upper] at fits
      exact fits
    have lowestAt := List.getElem?_eq_getElem low
    have highestAt := List.getElem?_eq_getElem high
    refine .apart rfl upper (by rw [size]; omega) lowestAt highestAt ?_ ?_
    · rw [first, if_neg (Nat.not_le.mpr lt), Storage.keyAt?, lowestAt]
    · rw [last, if_neg (Nat.not_le.mpr lt), upper, Nat.add_sub_cancel, Storage.keyAt?, highestAt]
  · exact .crossed (Nat.sub_eq_zero_of_le ge) (if_pos ge) (if_pos ge)

theorem first_succeeds_iff (w : Window K) (s : SortedStorage K V) :
    (∃ key, w.first s = .ok key) ↔ 0 < w.size s := by
  rcases w.ends s with ⟨size, first, -⟩ | ⟨-, -, size, -, -, first, -⟩ <;> simp [size, first]

theorem last_succeeds_iff (w : Window K) (s : SortedStorage K V) :
    (∃ key, w.last s = .ok key) ↔ 0 < w.size s := by
  rcases w.ends s with ⟨size, -, last⟩ | ⟨-, -, size, -, -, -, last⟩ <;> simp [size, last]

end Window

-- ---------------------------------------------------------------------------
-- Runs
-- ---------------------------------------------------------------------------

def CollectionAnswer.quiet : CollectionAnswer K V → Bool
  | .inserted answer events => answer.isOk && events.isEmpty
  | .extended answer events => answer.isOk && events.isEmpty
  | .removed _ | .replaced _ | .cleared | .copied => true

/-- A key outside a window is refused, which is no fault. -/
def SortedAnswer.quiet : SortedAnswer K V → Bool
  | .ok answer => answer.quiet
  | .error _ => true

namespace Storage

variable {s : SortedStorage K V}

theorem strategy_upsert (s : SortedStorage K V) (key : K) (value : V) :
    (s.upsert key value).after.strategy = s.strategy := by
  rcases s.after_upsert_cases key value with ⟨i, after⟩ | ⟨i, -, after⟩ | after <;> rw [after]
  · exact s.strategy_replaceValueAt i value
  · exact s.strategy_insertAt i key value

theorem strategy_perform (s : SortedStorage K V) (command : CollectionCommand K V) :
    (s.perform command).2.strategy = s.strategy :=
  perform_invariant (I := fun t => t.strategy = s.strategy)
    (fun key value h => (strategy_upsert _ key value).trans h)
    (fun i h => (strategy_removeAt _ i).trans h)
    (fun i value h => (strategy_replaceValueAt _ i value).trans h) id id rfl command

/-- What no command changes, whatever the comparator answers. -/
structure Kept (c : Comparator K) (s : SortedStorage K V) : Prop where
  strategy : s.strategy = ⟨c⟩
  paired : s.Paired

variable {c : Comparator K}

theorem Kept.perform (h : s.Kept c) (command : CollectionCommand K V) :
    (s.perform command).2.Kept c :=
  ⟨(strategy_perform s command).trans h.strategy, h.paired.perform command⟩

theorem Paired.quiet_perform (h : s.Paired) (command : CollectionCommand K V) :
    (s.perform command).1.quiet = true := by
  cases command with
  | insert key value =>
    obtain ⟨answer, events⟩ := h.quiet_upsert key value
    simp only [Storage.perform, CollectionAnswer.quiet, answer, events]
    rfl
  | extend entries =>
    obtain ⟨answer, events, -⟩ := h.extended entries
    simp only [Storage.perform, answer, events]
    rfl
  | remove _ | replace _ _ | clear | copy => rfl

theorem Kept.step (h : s.Kept c) (command : SortedCommand K V) :
    (s.step command).1.quiet = true ∧ (s.step command).2.Kept c := by
  cases command with
  | whole command => exact ⟨h.paired.quiet_perform command, h.perform command⟩
  | insertWithin w key value =>
    simp only [Storage.step, Window.insert]
    cases w.admits s.strategy.comparator key
    · exact ⟨rfl, h⟩
    · exact ⟨h.paired.quiet_perform (.insert key value), h.perform (.insert key value)⟩
  | removeWithin w key =>
    simp only [Storage.step, Window.remove]
    cases w.admits s.strategy.comparator key
    · exact ⟨rfl, h⟩
    · exact ⟨rfl, h.perform (.remove key)⟩

theorem Kept.run (h : s.Kept c) (commands : List (SortedCommand K V)) :
    (∀ answer ∈ (run Storage.step s commands).1, answer.quiet = true) ∧
      (run Storage.step s commands).2.Kept c :=
  run_answers (P := fun answer : SortedAnswer K V => answer.quiet = true) h
    (fun _ command h => h.step command) commands

-- ---------------------------------------------------------------------------
-- What is left without laws
-- ---------------------------------------------------------------------------

structure Intact (s : SortedStorage K V) : Prop where
  paired : s.keys.length = s.values.length
  lookups : ∀ key, s.indexOf? key = none → ∃ i, s.insertionIndex key = .ok i ∧ i ≤ s.size
  upserted : ∀ key value, s.Upserted key value (s.upsert key value)
  extended : ∀ entries, (s.upsertAll entries).answer = .ok () ∧
    (s.upsertAll entries).events = [] ∧ (s.upsertAll entries).after =
      entries.foldl (fun s entry => (s.upsert entry.1 entry.2).after) s
  removed : ∀ key, s.Removed key (s.removeKey key)
  lower : ∀ w : Window K, w.lowerIndex s ≤ s.size
  upper : ∀ w : Window K, w.upperIndex s ≤ s.size
  ends : ∀ w : Window K, w.Ends s
  first : ∀ w : Window K, (∃ key, w.first s = .ok key) ↔ 0 < w.size s
  last : ∀ w : Window K, (∃ key, w.last s = .ok key) ↔ 0 < w.size s

theorem Paired.intact (h : s.Paired) : s.Intact where
  paired := h
  lookups key absent := by
    rcases h.lookups key with ⟨_, _, _, present, -, -⟩ | ⟨i, -, place⟩
    · rw [absent] at present
      cases present
    · exact ⟨i, place⟩
  upserted := h.upserted
  extended := h.extended
  removed := h.removed
  lower w := w.lowerIndex_le_size s
  upper w := w.upperIndex_le_size s
  ends w := w.ends s
  first w := w.first_succeeds_iff s
  last w := w.last_succeeds_iff s

end Storage

/-- No comparator makes a search leave the list, a command fail or an entry go missing. -/
theorem lawless_comparators_corrupt_nothing (c : Comparator K) :
    (∀ keys key, match BinarySearch.search ⟨c⟩ keys key with
      | .found i => ∃ stored, keys[i]? = some stored ∧ c.compare stored key = .eq
      | .absent i => i ≤ keys.length) ∧
    ∀ capacity (commands : List (SortedCommand K V)),
      let s := run Storage.step (.withCapacity capacity ⟨c⟩) commands
      (∀ answer ∈ s.1, answer.quiet = true) ∧ s.2.strategy = ⟨c⟩ ∧ s.2.Intact := by
  refine ⟨BinarySearch.search_inside ⟨c⟩, fun capacity commands => ?_⟩
  have start : (Storage.withCapacity capacity ⟨c⟩ : SortedStorage K V).Kept c :=
    ⟨rfl, Storage.paired_withCapacity capacity _⟩
  obtain ⟨quiet, kept⟩ := start.run commands
  exact ⟨quiet, kept.strategy, kept.paired.intact⟩

/-- Where every key counts as smaller no key is ever found, and each one is kept. -/
example :
    let c : Comparator Nat := .custom fun _ _ => .lt
    let s := (run Storage.step (.withCapacity 0 ⟨c⟩)
      [.whole (.insert 1 "a"), .whole (.insert 1 "b"), .whole (.remove 1)]).2
    s.pairs = [(1, "a"), (1, "b")] := by
  decide +kernel

end LiveCollections
