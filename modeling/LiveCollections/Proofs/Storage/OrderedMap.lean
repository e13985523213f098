import LiveCollections.Proofs.Storage.Windows

/-!
# Sorted collections as ordered maps

The entries of a sorted collection are those of the map that it stands for, listed in
the order of their classes. Every reader therefore answers what the map says: how many
entries there are, what there is for a key, which keys come first and last, and what an
iteration yields.
-/

namespace LiveCollections

variable {K V : Type} {c : Comparator K} [Std.TransCmp c.compare]

def Reference.listing (m : Reference c.Class K V) : List (K × V) :=
  (m.keys.sort (· ≤ ·)).filterMap m.lookup

namespace Storage.Sorted

variable {s : SortedStorage K V} {m : Reference c.Class K V}

theorem sort_keys (hs : s.Sorted c) (h : s.Represents c.classOf m) :
    m.keys.sort (· ≤ ·) = s.pairs.map fun pair => c.classOf pair.1 := by
  rw [← h.lists.toFinset_classes, List.toFinset_sort _ h.lists.distinct]
  have ordered := hs.ascending.ordered
  rw [h.paired.keys_eq, Comparator.Ordered, List.pairwise_map] at ordered
  exact List.pairwise_map.mpr (ordered.imp Comparator.classOf_le_iff.mpr)

theorem pairs_eq_listing (hs : s.Sorted c) (h : s.Represents c.classOf m) : s.pairs = m.listing := by
  have found : ∀ pair ∈ s.pairs, (m.lookup ∘ fun pair => c.classOf pair.1) pair = some pair :=
    fun pair hp => h.lists.lookup_of_mem hp
  rw [Reference.listing, sort_keys hs h, List.filterMap_map, List.filterMap_congr found,
    List.filterMap_some]

omit [Std.TransCmp c.compare] in
theorem inside_unbounded (s : SortedStorage K V) : Window.unbounded.inside c s = s.pairs :=
  List.filter_eq_self.mpr fun _ _ => rfl

theorem indexOf?_stored (hs : s.Sorted c) {i : Nat} {stored key : K} (hi : s.keys[i]? = some stored)
    (same : c.compare stored key = .eq) : s.indexOf? key = some i := by
  cases hj : s.indexOf? key with
  | none =>
    have away := (hs.locates.absent hj).1 stored (List.mem_of_getElem? hi)
    exact absurd (Comparator.classOf_eq_iff.mpr same) away
  | some j =>
    obtain ⟨other, found, equivalent⟩ := hs.found hj
    have both : c.compare stored other = .eq :=
      Std.TransCmp.eq_trans same (Std.OrientedCmp.eq_symm equivalent)
    rw [hs.ascending.index_unique hi found both]

theorem upsert_stored (hs : s.Sorted c) (paired : s.Paired) {i : Nat} {stored key : K}
    {previous : V} (hi : s.pairs[i]? = some (stored, previous))
    (same : c.compare stored key = .eq) (value : V) :
    s.upsert key value =
      { answer := .ok (some previous), after := { s with values := s.values.set i value } } := by
  have storedAt : s.keys[i]? = some stored := by
    rw [paired.keys_eq, List.getElem?_map, hi]
    rfl
  have written : s.replaceValueAt i value =
      (some previous, { s with values := s.values.set i value }) := by
    rw [replaceValueAt, valueAt?_of_pairs hi]
  simp only [Storage.upsert, hs.indexOf?_stored storedAt same, written]

omit [Std.TransCmp c.compare] in
theorem replaceValue_absent (hs : s.Sorted c) {key : K}
    (absent : ∀ stored ∈ s.keys, c.compare stored key ≠ .eq) (value : V) :
    s.replaceValue key value = (none, s) := by
  unfold Storage.replaceValue
  cases hi : s.indexOf? key with
  | none => rfl
  | some i =>
    obtain ⟨stored, found, same⟩ := hs.found hi
    exact absurd same (absent stored (List.mem_of_getElem? found))

end Storage.Sorted

-- ---------------------------------------------------------------------------
-- Readers
-- ---------------------------------------------------------------------------

/-- What the readers of a sorted collection answer, and how its entries are stored. -/
structure Storage.ReadsAs [BEq V] (s : SortedStorage K V) (m : Reference c.Class K V) : Prop where
  ascending : c.Ascending s.keys
  paired : s.keys.length = s.values.length
  size : s.size = m.keys.card
  isEmpty : s.isEmpty = true ↔ m.keys = ∅
  contains : ∀ key, s.contains key = (m.lookup (c.classOf key)).isSome
  get? : ∀ key, s.get? key = (m.lookup (c.classOf key)).map Prod.snd
  containsEntry : ∀ key value, s.containsEntry key value =
    (m.lookup (c.classOf key)).any fun entry => entry.2 == value
  containsValue : ∀ value, s.containsValue value = true ↔
    ∃ x entry, m.lookup x = some entry ∧ (entry.2 == value) = true
  firstKey : s.firstKey = Window.endKey m.listing.head?
  lastKey : s.lastKey = Window.endKey m.listing.getLast?
  taken : ∀ count, ((Cursor.mk 0).take s count).1 = m.listing.take count
  drained : ((Cursor.mk 0).drain s).1 = m.listing

theorem Storage.Sorted.readsAs [BEq V] {s : SortedStorage K V} {m : Reference c.Class K V}
    (hs : s.Sorted c) (h : s.Represents c.classOf m) : s.ReadsAs m where
  __ := h.answersAs hs.locates
  ascending := hs.ascending
  paired := h.paired
  firstKey := by
    rw [Storage.firstKey, Window.first_eq h.paired hs, inside_unbounded, hs.pairs_eq_listing h]
  lastKey := by
    rw [Storage.lastKey, Window.last_eq h.paired hs, inside_unbounded, hs.pairs_eq_listing h]
  taken count := by rw [Cursor.take_eq, ← hs.pairs_eq_listing h]; rfl
  drained := by rw [Cursor.drain_eq, ← hs.pairs_eq_listing h]; rfl

structure Storage.Overwrites (c : Comparator K) (s : SortedStorage K V) : Prop where
  stored : ∀ {i stored key previous} value, s.pairs[i]? = some (stored, previous) →
    c.compare stored key = .eq → s.upsert key value =
      { answer := .ok (some previous), after := { s with values := s.values.set i value } }
  absent : ∀ {key} value, (∀ stored ∈ s.keys, c.compare stored key ≠ .eq) →
    s.replaceValue key value = (none, s)

theorem Storage.Sorted.overwrites {s : SortedStorage K V} (hs : s.Sorted c) (paired : s.Paired) :
    s.Overwrites c where
  stored value hi same := hs.upsert_stored paired hi same value
  absent value away := hs.replaceValue_absent away value

/-- Sorted collections answer all commands as maps of classes do, and read as those maps. -/
theorem sorted_collections_are_ordered_maps [BEq V] (c : Comparator K) [Std.TransCmp c.compare]
    (capacity : Nat) (commands : List (SortedCommand K V)) :
    let s := run Storage.step (.withCapacity capacity ⟨c⟩) commands
    let m := run (Reference.step c) ∅ commands
    s.1 = m.1 ∧ s.2.ReadsAs m.2 ∧ s.2.Overwrites c := by
  obtain ⟨answers, sorted, represents⟩ := Storage.Sorted.run c capacity commands
  exact ⟨answers, sorted.readsAs represents, sorted.overwrites represents.paired⟩

/-- Numbers with as many tens are taken for one another. -/
theorem numbers_are_kept_by_tens :
    let c : Comparator Nat := .byMeasure (· / 10)
    let commands : List (SortedCommand Nat Nat) := [.whole (.insert 25 1), .whole (.insert 12 2),
      .insertWithin ⟨some 10, none⟩ 18 3, .whole (.replace 40 4)]
    let s := run Storage.step (.withCapacity 0 ⟨c⟩) commands
    s.2.ReadsAs (run (Reference.step c) ∅ commands).2 ∧ s.2.pairs = [(12, 3), (25, 1)] := by
  intro c commands
  exact ⟨(sorted_collections_are_ordered_maps c 0 commands).2.1, by decide +kernel⟩

end LiveCollections
