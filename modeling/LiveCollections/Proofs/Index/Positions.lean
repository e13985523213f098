import LiveCollections.Proofs.Index.Search

/-!
# The position of a key

A search of ordered keys meets the key wherever it is stored, and elsewhere parts the keys
below it from those above it. Keys that compare equal may be stored more than once, and then
the search meets some one of them. In strictly ascending keys no position is left to choice:
the insertion point counts the keys below, so that it grows with the key.
-/

namespace LiveCollections.BinarySearch

variable {K : Type} {s : BinarySearch K} {keys : List K} {key : K}

-- ---------------------------------------------------------------------------
-- Ordered keys
-- ---------------------------------------------------------------------------

theorem Splits.unique {i j : Nat} (hi : s.Splits keys key i) (hj : s.Splits keys key j) : i = j := by
  -- where the positions differ, the key at the first is above and below at once
  have apart : ∀ {i j}, s.Splits keys key i → s.Splits keys key j → ¬ i < j := by
    rintro i j ⟨-, -, above⟩ ⟨inside, below, -⟩ lt
    have stored : i < keys.length := Nat.lt_of_lt_of_le lt inside
    have front : keys[i] ∈ keys.take j := List.mem_take_iff_getElem.mpr ⟨i, by omega, rfl⟩
    have back : keys[i] ∈ keys.drop i := List.mem_drop_iff_getElem.mpr ⟨0, by omega, rfl⟩
    have both := (below _ front).symm.trans (above _ back)
    cases both
  exact Nat.le_antisymm (Nat.le_of_not_lt (apart hj hi)) (Nat.le_of_not_lt (apart hi hj))

variable [Std.TransCmp s.comparator.compare]

theorem search_ordered (h : s.comparator.Ordered keys) (key : K) :
    match s.search keys key with
    | .found i => ∃ stored, keys[i]? = some stored ∧ s.comparator.compare stored key = .eq
    | .absent i => s.Splits keys key i := by
  cases hs : s.search keys key with
  | found i => exact compare_of_search_eq_found hs
  | absent i => exact splits_of_search_eq_absent h hs

theorem search_finds_iff (h : s.comparator.Ordered keys) (key : K) :
    (∃ i, s.search keys key = .found i) ↔
      ∃ stored ∈ keys, s.comparator.compare stored key = .eq := by
  have spec := search_ordered h key
  cases hs : s.search keys key with
  | found i =>
    rw [hs] at spec
    obtain ⟨stored, hi, equal⟩ := spec
    exact iff_of_true ⟨i, rfl⟩ ⟨stored, List.mem_of_getElem? hi, equal⟩
  | absent i =>
    rw [hs] at spec
    refine iff_of_false nofun ?_
    rintro ⟨stored, hm, equal⟩
    exact spec.compare_ne_eq stored hm equal

theorem search_eq_absent_iff (h : s.comparator.Ordered keys) {i : Nat} :
    s.search keys key = .absent i ↔ s.Splits keys key i := by
  refine ⟨splits_of_search_eq_absent h, fun splits => ?_⟩
  cases hs : s.search keys key with
  | found j =>
    obtain ⟨stored, hm, equal⟩ := (search_finds_iff h key).mp ⟨j, hs⟩
    exact absurd equal (splits.compare_ne_eq stored hm)
  | absent j => rw [(splits_of_search_eq_absent h hs).unique splits]

-- ---------------------------------------------------------------------------
-- Ascending keys
-- ---------------------------------------------------------------------------

theorem search_eq_found_iff (h : s.comparator.Ascending keys) {i : Nat} :
    s.search keys key = .found i ↔
      ∃ stored, keys[i]? = some stored ∧ s.comparator.compare stored key = .eq := by
  refine ⟨compare_of_search_eq_found, ?_⟩
  rintro ⟨stored, hi, equal⟩
  obtain ⟨j, hs⟩ := (search_finds_iff h.ordered key).mpr ⟨stored, List.mem_of_getElem? hi, equal⟩
  obtain ⟨other, hj, equal'⟩ := compare_of_search_eq_found hs
  have same := Std.TransCmp.eq_trans equal' (Std.OrientedCmp.eq_symm equal)
  rw [hs, h.index_unique hj hi same]

theorem insertionPoint_eq_countP (h : s.comparator.Ascending keys) (key : K) :
    s.insertionPoint keys key =
      keys.countP fun stored => s.comparator.compare stored key == .lt := by
  obtain ⟨inside, below, above⟩ := insertionPoint_spec h key
  generalize s.insertionPoint keys key = i at inside below above ⊢
  have front : (keys.take i).countP (fun stored => s.comparator.compare stored key == .lt) =
      (keys.take i).length :=
    List.countP_eq_length.mpr fun stored hm => by simp [below stored hm]
  have back : (keys.drop i).countP (fun stored => s.comparator.compare stored key == .lt) = 0 :=
    List.countP_eq_zero.mpr fun stored hm => by simp [above stored hm]
  calc i = (keys.take i).length := (List.length_take_of_le inside).symm
    _ = (keys.take i ++ keys.drop i).countP fun stored => s.comparator.compare stored key == .lt := by
      rw [List.countP_append, front, back, Nat.add_zero]
    _ = keys.countP fun stored => s.comparator.compare stored key == .lt := by
      rw [List.take_append_drop]

theorem insertionPoint_mono (h : s.comparator.Ascending keys) {a b : K}
    (le : (s.comparator.compare a b).isLE) : s.insertionPoint keys a ≤ s.insertionPoint keys b := by
  rw [insertionPoint_eq_countP h, insertionPoint_eq_countP h]
  refine List.countP_mono_left fun stored _ below => ?_
  rw [beq_iff_eq] at below ⊢
  exact Std.TransCmp.lt_of_lt_of_isLE below le

theorem ascending_insertionIndex (h : s.comparator.Ascending keys)
    (absent : ∀ stored ∈ keys, s.comparator.compare stored key ≠ .eq) :
    IndexStrategy.insertionIndex s keys key = .ok (s.insertionPoint keys key) ∧
      s.comparator.Ascending (keys.insertIdx (s.insertionPoint keys key) key) := by
  cases hs : s.search keys key with
  | found i =>
    obtain ⟨stored, hm, equal⟩ := (search_finds_iff h.ordered key).mp ⟨i, hs⟩
    exact absurd equal (absent stored hm)
  | absent i =>
    have point : s.insertionPoint keys key = i := by rw [insertionPoint, hs, SearchResult.position]
    rw [point]
    refine ⟨?_, (splits_of_search_eq_absent h.ordered hs).ascending_insertIdx h⟩
    simp only [IndexStrategy.insertionIndex, hs]

-- ---------------------------------------------------------------------------
-- The main result
-- ---------------------------------------------------------------------------

/-- Ordered keys are searched without fail; ascending ones leave one position for each key. -/
theorem searches_meet_keys_or_part_them (s : BinarySearch K) [Std.TransCmp s.comparator.compare]
    (keys : List K) (ordered : s.comparator.Ordered keys) (key : K) :
    (match s.search keys key with
      | .found i => ∃ stored, keys[i]? = some stored ∧ s.comparator.compare stored key = .eq
      | .absent i => s.Splits keys key i) ∧
    ((∃ i, s.search keys key = .found i) ↔
      ∃ stored ∈ keys, s.comparator.compare stored key = .eq) ∧
    (s.comparator.Ascending keys →
      (∀ i, s.search keys key = .found i ↔
        ∃ stored, keys[i]? = some stored ∧ s.comparator.compare stored key = .eq) ∧
      (∀ i, s.search keys key = .absent i ↔ s.Splits keys key i) ∧
      s.insertionPoint keys key =
        keys.countP (fun stored => s.comparator.compare stored key == .lt) ∧
      (∀ above, (s.comparator.compare key above).isLE →
        s.insertionPoint keys key ≤ s.insertionPoint keys above) ∧
      ((∀ stored ∈ keys, s.comparator.compare stored key ≠ .eq) →
        ∃ i, IndexStrategy.insertionIndex s keys key = .ok i ∧
          s.comparator.Ascending (keys.insertIdx i key))) := by
  refine ⟨search_ordered ordered key, search_finds_iff ordered key, fun ascending => ?_⟩
  refine ⟨fun i => search_eq_found_iff ascending, fun i => search_eq_absent_iff ordered,
    insertionPoint_eq_countP ascending key, fun above le => insertionPoint_mono ascending le, ?_⟩
  intro absent
  exact ⟨_, ascending_insertionIndex ascending absent⟩

/-- Of the numbers with one ten the second is met; one with three tens belongs at the end. -/
theorem nineteen_is_met_and_thirty_goes_last :
    let s : BinarySearch Nat := ⟨.byMeasure (· / 10)⟩
    Std.TransCmp s.comparator.compare ∧ s.comparator.Ordered [3, 12, 15, 27] ∧
      (∃ i, s.search [3, 12, 15, 27] 19 = .found i) ∧ s.search [3, 12, 15, 27] 19 = .found 2 ∧
      s.comparator.Ascending [3, 15, 27] ∧
      (∀ stored ∈ [3, 15, 27], s.comparator.compare stored 30 ≠ .eq) ∧
      ∃ i, IndexStrategy.insertionIndex s [3, 15, 27] 30 = .ok i ∧
        s.comparator.Ascending ([3, 15, 27].insertIdx i 30) := by
  intro s
  have lawful : Std.TransCmp s.comparator.compare :=
    inferInstanceAs (Std.TransCmp (Comparator.byMeasure (· / 10)).compare)
  have ordered : s.comparator.Ordered [3, 12, 15, 27] := by unfold Comparator.Ordered; decide
  have ascending : s.comparator.Ascending [3, 15, 27] := by unfold Comparator.Ascending; decide
  have absent : ∀ stored ∈ [3, 15, 27], s.comparator.compare stored 30 ≠ .eq := by decide
  have meets := (searches_meet_keys_or_part_them s _ ordered 19).2.1
  have single := (searches_meet_keys_or_part_them s _ ascending.ordered 30).2.2 ascending
  exact ⟨lawful, ordered, meets.mpr ⟨12, by decide, by decide⟩, by decide +kernel, ascending,
    absent, single.2.2.2.2 absent⟩

end LiveCollections.BinarySearch
