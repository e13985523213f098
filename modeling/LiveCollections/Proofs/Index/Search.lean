import LiveCollections.Index.BinarySearch
import LiveCollections.Proofs.Comparator

/-!
# Binary search

Whatever the comparator answers, a hit is a key that compares equal and a miss is a
position inside: both are seen from the halving and its last comparison alone.

Where to put a missing key needs the keys to be ordered. Halving keeps two facts: the
candidate is the first of the run or does not stand above the searched key, and
everything after the candidate that has been given up stands above it. In ordered keys
the one comparison that is left then decides where the key is or would go.
-/

namespace LiveCollections

variable {K : Type}

theorem insertIdx_eq_take_append {l : List K} {i : Nat} (h : i ≤ l.length) (a : K) :
    l.insertIdx i a = l.take i ++ a :: l.drop i := by
  induction i generalizing l with
  | zero => simp
  | succ i ih =>
    cases l with
    | nil => simp at h
    | cons b l => simpa using ih (Nat.le_of_succ_le_succ h)

namespace BinarySearch

-- ---------------------------------------------------------------------------
-- Halving
-- ---------------------------------------------------------------------------

theorem halve_eq_or_ne_gt (standing : Nat → Ordering) (base size : Nat) :
    halve standing base size = base ∨ standing (halve standing base size) ≠ .gt := by
  fun_induction halve standing base size with
  | case1 base size _ half middle ih =>
    rcases ih with same | below
    · split at same
      · rename_i above
        rw [if_pos above]
        exact .inl same
      · rename_i notAbove
        rw [if_neg notAbove, same]
        exact .inr notAbove
    · exact .inr below
  | case2 base size _ => exact .inl rfl

theorem standing_of_halve_lt {standing : Nat → Ordering}
    (upward : ∀ {i j}, i ≤ j → standing i = .gt → standing j = .gt) {base size j : Nat}
    (h : halve standing base size < j) (hj : j < base + size) : standing j = .gt := by
  fun_induction halve standing base size with
  | case1 base size _ half middle ih =>
    by_cases above : standing middle = .gt
    · rw [dif_pos above] at ih
      rw [if_pos above] at h
      by_cases near : j < base + (size - half)
      · exact ih h near
      · exact upward (by omega) above
    · rw [dif_neg above] at ih
      rw [if_neg above] at h
      exact ih h (by omega)
  | case2 base size _ => omega

variable {s : BinarySearch K} {keys : List K} {key : K}

theorem standing_of_getElem? {i : Nat} {stored : K} (h : keys[i]? = some stored) :
    s.standing keys key i = s.comparator.compare stored key := by
  rw [standing, h]

/-- The searched key belongs between the keys before `i` and the keys from `i` on. -/
def Splits (s : BinarySearch K) (keys : List K) (key : K) (i : Nat) : Prop :=
  i ≤ keys.length ∧ (∀ stored ∈ keys.take i, s.comparator.compare stored key = .lt) ∧
    ∀ stored ∈ keys.drop i, s.comparator.compare stored key = .gt

theorem splits_of_standing {i : Nat} (hi : i ≤ keys.length)
    (below : ∀ j, j < i → s.standing keys key j = .lt)
    (above : ∀ j, i ≤ j → j < keys.length → s.standing keys key j = .gt) :
    s.Splits keys key i := by
  refine ⟨hi, fun stored hs => ?_, fun stored hs => ?_⟩
  · obtain ⟨j, hj, rfl⟩ := List.mem_take_iff_getElem.mp hs
    have inside : j < keys.length := by omega
    rw [← standing_of_getElem? (List.getElem?_eq_getElem inside)]
    exact below j (by omega)
  · obtain ⟨j, hj, rfl⟩ := List.mem_drop_iff_getElem.mp hs
    rw [← standing_of_getElem? (List.getElem?_eq_getElem (by omega))]
    exact above _ (by omega) (by omega)

-- ---------------------------------------------------------------------------
-- Searching
-- ---------------------------------------------------------------------------

/-- What a search may answer when nothing is known of the comparator. -/
theorem search_inside (s : BinarySearch K) (keys : List K) (key : K) :
    match s.search keys key with
    | .found i => ∃ stored, keys[i]? = some stored ∧ s.comparator.compare stored key = .eq
    | .absent i => i ≤ keys.length := by
  have inside := s.insertionPoint_le keys key
  unfold insertionPoint at inside
  cases hs : s.search keys key with
  | absent i =>
    rw [hs] at inside
    exact inside
  | found i =>
    have equal : s.standing keys key i = .eq := by
      unfold search at hs
      dsimp only at hs
      split at hs
      · cases hs
        assumption
      · cases hs
      · cases hs
    -- a position past the end would count as above
    cases hk : keys[i]? with
    | some stored => exact ⟨stored, hk, by rwa [standing_of_getElem? hk] at equal⟩
    | none =>
      rw [standing, hk] at equal
      cases equal

theorem compare_of_search_eq_found {i : Nat} (hi : s.search keys key = .found i) :
    ∃ stored, keys[i]? = some stored ∧ s.comparator.compare stored key = .eq := by
  have spec := s.search_inside keys key
  rwa [hi] at spec

variable [Std.TransCmp s.comparator.compare]

theorem standing_upward (h : s.comparator.Ordered keys) {i j : Nat} (hij : i ≤ j)
    (above : s.standing keys key i = .gt) : s.standing keys key j = .gt := by
  rcases Nat.eq_or_lt_of_le hij with rfl | lt
  · exact above
  · rcases Nat.lt_or_ge j keys.length with inside | outside
    · have hi : i < keys.length := Nat.lt_trans lt inside
      rw [standing_of_getElem? (List.getElem?_eq_getElem hi)] at above
      rw [standing_of_getElem? (List.getElem?_eq_getElem inside)]
      have le := List.pairwise_iff_getElem.mp h i j hi inside lt
      exact Std.TransCmp.gt_of_isGE_of_gt (Std.OrientedCmp.isGE_of_isLE le) above
    · rw [standing, List.getElem?_eq_none outside]

theorem splits_of_search_eq_absent (h : s.comparator.Ordered keys) {i : Nat}
    (hi : s.search keys key = .absent i) : s.Splits keys key i := by
  have first := halve_eq_or_ne_gt (s.standing keys key) 0 keys.length
  have rest : ∀ j, halve (s.standing keys key) 0 keys.length < j → j < keys.length →
      s.standing keys key j = .gt := fun j hj inside =>
    standing_of_halve_lt (fun hij => standing_upward h hij) hj (by omega)
  unfold search at hi
  generalize halve (s.standing keys key) 0 keys.length = candidate at first rest hi
  dsimp only at hi
  cases hc : s.standing keys key candidate with
  | eq =>
    rw [hc] at hi
    cases hi
  | lt =>
    rw [hc] at hi
    cases hi
    have inside : candidate < keys.length := by
      refine Nat.lt_of_not_le fun outside => ?_
      rw [standing, List.getElem?_eq_none outside] at hc
      cases hc
    refine splits_of_standing inside (fun j hj => ?_) fun j hj => rest j hj
    rcases Nat.eq_or_lt_of_le (Nat.le_of_lt_succ hj) with rfl | lt
    · exact hc
    · have before : j < keys.length := Nat.lt_trans lt inside
      rw [standing_of_getElem? (List.getElem?_eq_getElem inside)] at hc
      rw [standing_of_getElem? (List.getElem?_eq_getElem before)]
      exact Std.TransCmp.lt_of_isLE_of_lt
        (List.pairwise_iff_getElem.mp h j candidate before inside lt) hc
  | gt =>
    rw [hc] at hi
    cases hi
    have zero : i = 0 := by simpa [hc] using first
    subst zero
    refine splits_of_standing (Nat.zero_le _) (fun j hj => absurd hj (Nat.not_lt_zero j)) ?_
    exact fun j _ _ => standing_upward h (Nat.zero_le j) hc

omit [Std.TransCmp s.comparator.compare] in
theorem Splits.compare_ne_eq {i : Nat} (h : s.Splits keys key i) :
    ∀ stored ∈ keys, s.comparator.compare stored key ≠ .eq := by
  intro stored hs
  rw [← List.take_append_drop i keys, List.mem_append] at hs
  rcases hs with hs | hs
  · simp [h.2.1 stored hs]
  · simp [h.2.2 stored hs]

theorem Splits.ascending_insertIdx {i : Nat} (h : s.Splits keys key i)
    (hk : s.comparator.Ascending keys) : s.comparator.Ascending (keys.insertIdx i key) := by
  obtain ⟨hi, below, above⟩ := h
  have parts : s.comparator.Ascending (keys.take i ++ keys.drop i) := by
    rwa [List.take_append_drop]
  obtain ⟨left, right, across⟩ := List.pairwise_append.mp parts
  rw [insertIdx_eq_take_append hi]
  refine List.pairwise_append.mpr ⟨left, List.pairwise_cons.mpr ⟨fun stored hs => ?_, right⟩, ?_⟩
  · exact Std.OrientedCmp.lt_of_gt (above stored hs)
  · intro stored hs other ho
    rcases List.mem_cons.mp ho with rfl | ho
    · exact below stored hs
    · exact across stored hs other ho

-- ---------------------------------------------------------------------------
-- Insertion points
-- ---------------------------------------------------------------------------

/-- In ascending keys the insertion point parts the keys below from those that are not. -/
theorem insertionPoint_spec (h : s.comparator.Ascending keys) (key : K) :
    s.insertionPoint keys key ≤ keys.length ∧
      (∀ stored ∈ keys.take (s.insertionPoint keys key), s.comparator.compare stored key = .lt) ∧
      ∀ stored ∈ keys.drop (s.insertionPoint keys key), s.comparator.compare stored key ≠ .lt := by
  unfold insertionPoint
  cases hs : s.search keys key with
  | absent i =>
    obtain ⟨hi, below, above⟩ := splits_of_search_eq_absent h.ordered hs
    exact ⟨hi, below, fun stored hm => by simp [above stored hm]⟩
  | found i =>
    obtain ⟨stored, hi, same⟩ := compare_of_search_eq_found hs
    obtain ⟨lt, rfl⟩ := List.getElem?_eq_some_iff.mp hi
    refine ⟨Nat.le_of_lt lt, fun other ho => ?_, fun other ho => ?_⟩
    · obtain ⟨j, hj, rfl⟩ := List.mem_take_iff_getElem.mp ho
      have hji : j < i := by simp only [SearchResult.position] at hj; omega
      exact Std.TransCmp.lt_of_lt_of_eq
        (List.pairwise_iff_getElem.mp h j i (by omega) lt hji) same
    · obtain ⟨j, hj, rfl⟩ := List.mem_drop_iff_getElem.mp ho
      simp only [SearchResult.position] at hj ⊢
      rcases Nat.eq_zero_or_pos j with rfl | pos
      · simp [same]
      · have above := List.pairwise_iff_getElem.mp h i (i + j) lt (by omega) (by omega)
        have gt := Std.TransCmp.gt_of_gt_of_eq (Std.OrientedCmp.gt_of_lt above) same
        simp [gt]

end BinarySearch

end LiveCollections
