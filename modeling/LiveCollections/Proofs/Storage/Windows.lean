import LiveCollections.Proofs.Storage.Iteration
import LiveCollections.Proofs.Storage.Sorted

/-!
# What a window shows

A window finds its entries in three ways: by the positions of its bounds, by comparing a
key with the bounds, and by walking up to the upper bound. In a sorted collection all of
them agree on the entries whose keys are within the bounds. A window holds nothing but
its bounds, so this is so for every window at every time, however it was narrowed and
whatever has changed since.
-/

namespace LiveCollections

variable {K V α : Type} {c : Comparator K}

-- ---------------------------------------------------------------------------
-- Predicates that change once
-- ---------------------------------------------------------------------------

section Prefixes

variable {p : α → Bool} {l : List α} {n : Nat}

theorem filter_eq_take (front : ∀ a ∈ l.take n, p a = true) (back : ∀ a ∈ l.drop n, p a = false) :
    l.filter p = l.take n := by
  have none : (l.drop n).filter p = [] := List.filter_eq_nil_iff.mpr fun a ha => by simp [back a ha]
  calc l.filter p = (l.take n ++ l.drop n).filter p := by rw [List.take_append_drop]
    _ = l.take n := by
      rw [List.filter_append, List.filter_eq_self.mpr front, none, List.append_nil]

theorem filter_eq_drop (front : ∀ a ∈ l.take n, p a = false) (back : ∀ a ∈ l.drop n, p a = true) :
    l.filter p = l.drop n := by
  have none : (l.take n).filter p = [] := List.filter_eq_nil_iff.mpr fun a ha => by simp [front a ha]
  calc l.filter p = (l.take n ++ l.drop n).filter p := by rw [List.take_append_drop]
    _ = l.drop n := by rw [List.filter_append, List.filter_eq_self.mpr back, none, List.nil_append]

theorem takeWhile_eq_filter (h : l.Pairwise fun a b => p b = true → p a = true) :
    l.takeWhile p = l.filter p := by
  induction l with
  | nil => rfl
  | cons a l ih =>
    obtain ⟨first, rest⟩ := List.pairwise_cons.mp h
    cases ha : p a with
    | true => rw [List.takeWhile_cons_of_pos ha, List.filter_cons_of_pos ha, ih rest]
    | false =>
      have none : ∀ b ∈ a :: l, ¬p b = true := by
        intro b hb ht
        rcases List.mem_cons.mp hb with rfl | hb
        · exact absurd ht (by simp [ha])
        · exact absurd (first b hb ht) (by simp [ha])
      rw [List.takeWhile_cons_of_neg (by simp [ha]), List.filter_eq_nil_iff.mpr none]

end Prefixes

namespace Window

-- ---------------------------------------------------------------------------
-- The positions of the bounds
-- ---------------------------------------------------------------------------

variable {w : Window K} {s : SortedStorage K V} [Std.TransCmp c.compare]

theorem insertionPoint_entries (paired : s.Paired) (h : s.Sorted c) (bound : K) :
    s.strategy.insertionPoint s.keys bound ≤ s.size ∧
      (∀ entry ∈ s.pairs.take (s.strategy.insertionPoint s.keys bound),
        c.compare entry.1 bound = .lt) ∧
      ∀ entry ∈ s.pairs.drop (s.strategy.insertionPoint s.keys bound),
        c.compare entry.1 bound ≠ .lt := by
  rw [h.strategy]
  obtain ⟨le, below, above⟩ := BinarySearch.insertionPoint_spec (s := ⟨c⟩) h.ascending bound
  generalize BinarySearch.insertionPoint ⟨c⟩ s.keys bound = i at le below above ⊢
  rw [paired.keys_eq, ← List.map_take] at below
  rw [paired.keys_eq, ← List.map_drop] at above
  refine ⟨le, fun entry he => below _ ?_, fun entry he => above _ ?_⟩
  · exact List.mem_map.mpr ⟨entry, he, rfl⟩
  · exact List.mem_map.mpr ⟨entry, he, rfl⟩

theorem lowerIndex_spec (paired : s.Paired) (h : s.Sorted c) (w : Window K) :
    (∀ entry ∈ s.pairs.take (w.lowerIndex s), w.atOrAboveLower c entry.1 = false) ∧
      ∀ entry ∈ s.pairs.drop (w.lowerIndex s), w.atOrAboveLower c entry.1 = true := by
  unfold lowerIndex atOrAboveLower
  cases w.lower with
  | none => exact ⟨by simp, fun _ _ => rfl⟩
  | some lower =>
    obtain ⟨-, below, above⟩ := insertionPoint_entries paired h lower
    refine ⟨fun entry he => ?_, fun entry he => ?_⟩
    · simpa using below entry he
    · simpa using above entry he

theorem upperIndex_spec (paired : s.Paired) (h : s.Sorted c) (w : Window K) :
    w.upperIndex s ≤ s.size ∧
      (∀ entry ∈ s.pairs.take (w.upperIndex s), w.belowUpper c entry.1 = true) ∧
      ∀ entry ∈ s.pairs.drop (w.upperIndex s), w.belowUpper c entry.1 = false := by
  unfold upperIndex belowUpper
  cases w.upper with
  | none => exact ⟨Nat.le_refl _, fun _ _ => rfl, by simp [← paired.length_pairs]⟩
  | some upper =>
    obtain ⟨le, below, above⟩ := insertionPoint_entries paired h upper
    refine ⟨le, fun entry he => ?_, fun entry he => ?_⟩
    · simpa using below entry he
    · simpa using above entry he

-- ---------------------------------------------------------------------------
-- The entries inside
-- ---------------------------------------------------------------------------

def inside (w : Window K) (c : Comparator K) (s : SortedStorage K V) : List (K × V) :=
  s.pairs.filter fun entry => w.within c entry.1

omit [Std.TransCmp c.compare] in
theorem mem_inside {entry : K × V} :
    entry ∈ w.inside c s ↔ entry ∈ s.pairs ∧ w.within c entry.1 = true := List.mem_filter

theorem inside_eq_filter_drop (paired : s.Paired) (h : s.Sorted c) (w : Window K) :
    w.inside c s = (s.pairs.drop (w.lowerIndex s)).filter fun entry => w.belowUpper c entry.1 := by
  obtain ⟨front, back⟩ := lowerIndex_spec paired h w
  rw [← filter_eq_drop front back, List.filter_filter, inside]
  refine List.filter_congr fun entry _ => ?_
  rw [← admits_eq_within, admits, Bool.and_comm]

theorem inside_eq_slice (paired : s.Paired) (h : s.Sorted c) (w : Window K) :
    w.inside c s = (s.pairs.take (w.upperIndex s)).drop (w.lowerIndex s) := by
  obtain ⟨-, front, back⟩ := upperIndex_spec paired h w
  rw [inside_eq_filter_drop paired h, List.drop_take]
  refine filter_eq_take (fun entry he => front entry ?_) fun entry he => back entry ?_
  · rw [← List.drop_take] at he
    exact List.mem_of_mem_drop he
  · rw [List.drop_drop] at he
    exact List.drop_subset_drop_left _ (by omega) he

-- ---------------------------------------------------------------------------
-- What a window answers
-- ---------------------------------------------------------------------------

def endKey : Option (K × V) → Except CollectionError K
  | some entry => .ok entry.1
  | none => .error .emptyCollection

theorem size_eq (paired : s.Paired) (h : s.Sorted c) (w : Window K) :
    w.size s = (w.inside c s).length := by
  obtain ⟨le, -, -⟩ := upperIndex_spec paired h w
  have fits : min (w.upperIndex s) s.pairs.length = w.upperIndex s := by
    rw [paired.length_pairs]
    exact Nat.min_eq_left le
  rw [inside_eq_slice paired h, List.length_drop, List.length_take, fits, size]

theorem isEmpty_iff (paired : s.Paired) (h : s.Sorted c) (w : Window K) :
    w.isEmpty s = true ↔ w.inside c s = [] := by
  rw [isEmpty, size_eq paired h, beq_iff_eq, List.length_eq_zero_iff]

omit [Std.TransCmp c.compare] in
theorem keyAt?_eq (paired : s.Paired) (i : Nat) : s.keyAt? i = s.pairs[i]?.map Prod.fst := by
  rw [Storage.keyAt?, paired.keys_eq, List.getElem?_map]

theorem first_eq (paired : s.Paired) (h : s.Sorted c) (w : Window K) :
    w.first s = endKey (w.inside c s).head? := by
  unfold first
  rw [inside_eq_slice paired h, List.head?_drop, keyAt?_eq paired]
  by_cases crossed : w.upperIndex s ≤ w.lowerIndex s
  · rw [if_pos crossed, List.getElem?_take_eq_none crossed]
    rfl
  · rw [if_neg crossed, List.getElem?_take_of_lt (Nat.lt_of_not_le crossed)]
    cases s.pairs[w.lowerIndex s]? <;> rfl

theorem last_eq (paired : s.Paired) (h : s.Sorted c) (w : Window K) :
    w.last s = endKey (w.inside c s).getLast? := by
  obtain ⟨le, -, -⟩ := upperIndex_spec paired h w
  have fits : (s.pairs.take (w.upperIndex s)).length = w.upperIndex s := by
    rw [List.length_take, paired.length_pairs]
    exact Nat.min_eq_left le
  unfold last
  rw [inside_eq_slice paired h, List.getLast?_drop, fits, keyAt?_eq paired]
  by_cases crossed : w.upperIndex s ≤ w.lowerIndex s
  · rw [if_pos crossed, if_pos crossed]
    rfl
  · rw [if_neg crossed, if_neg crossed, List.getLast?_eq_getElem?, fits,
      List.getElem?_take_of_lt (by omega)]
    cases s.pairs[w.upperIndex s - 1]? <;> rfl

theorem belowUpper_of_lt {w : Window K} {a b : K} (lt : c.compare a b = .lt)
    (h : w.belowUpper c b = true) : w.belowUpper c a = true := by
  unfold belowUpper at h ⊢
  cases hu : w.upper with
  | none => rfl
  | some upper =>
    rw [hu] at h
    have below : c.compare b upper = .lt := by simpa using h
    simpa using Std.TransCmp.lt_trans lt below

/-- Walking stops at the first key that is not below the upper bound; no later key is. -/
theorem left_iterator (paired : s.Paired) (h : s.Sorted c) (w : Window K) :
    (w.iterator s).left s = w.inside c s := by
  have ascending : s.pairs.Pairwise fun a b => c.compare a.1 b.1 = .lt := by
    have keys := h.ascending
    rw [paired.keys_eq] at keys
    exact List.pairwise_map.mp keys
  rw [inside_eq_filter_drop paired h, ← takeWhile_eq_filter]
  · rw [Iterator.left, h.strategy]
    rfl
  · refine (ascending.sublist (List.drop_sublist _ _)).imp ?_
    intro a b lt below
    exact belowUpper_of_lt lt below

theorem within_congr (w : Window K) {a b : K} (same : c.compare a b = .eq) :
    w.within c a = w.within c b := by
  unfold within
  simp only [Std.TransCmp.congr_left same, Std.TransCmp.congr_right same]

variable {m : Reference c.Class K V}

theorem contains_iff (h : s.Sorted c) (hm : s.Represents c.classOf m) (w : Window K) (key : K) :
    w.contains s key = true ↔ w.within c key = true ∧
      ∃ entry ∈ w.inside c s, c.compare entry.1 key = .eq := by
  unfold contains
  rw [h.strategy, admits_eq_within, Bool.and_eq_true, h.contains_iff hm]
  constructor
  · rintro ⟨inside, entry, he, same⟩
    exact ⟨inside, entry, mem_inside.mpr ⟨he, (within_congr w same).trans inside⟩, same⟩
  · rintro ⟨inside, entry, he, same⟩
    exact ⟨inside, entry, (mem_inside.mp he).1, same⟩

theorem get?_eq_some_iff (h : s.Sorted c) (hm : s.Represents c.classOf m) (w : Window K) (key : K)
    (value : V) : w.get? s key = some value ↔
      ∃ stored, (stored, value) ∈ w.inside c s ∧ c.compare stored key = .eq := by
  unfold get?
  rw [h.strategy, admits_eq_within]
  cases inside : w.within c key with
  | true =>
    rw [if_pos rfl, h.get?_eq_some_iff hm]
    constructor
    · rintro ⟨stored, hs, same⟩
      exact ⟨stored, mem_inside.mpr ⟨hs, (within_congr w same).trans inside⟩, same⟩
    · rintro ⟨stored, hs, same⟩
      exact ⟨stored, (mem_inside.mp hs).1, same⟩
  | false =>
    refine ⟨nofun, ?_⟩
    rintro ⟨stored, hs, same⟩
    rw [← within_congr w same, (mem_inside.mp hs).2] at inside
    cases inside

/-- What a window answers where these entries are inside its bounds. -/
structure Shows (w : Window K) (c : Comparator K) (s : SortedStorage K V)
    (entries : List (K × V)) : Prop where
  size : w.size s = entries.length
  isEmpty : w.isEmpty s = true ↔ entries = []
  first : w.first s = endKey entries.head?
  last : w.last s = endKey entries.getLast?
  contains : ∀ key, w.contains s key = true ↔
    w.within c key = true ∧ ∃ entry ∈ entries, c.compare entry.1 key = .eq
  get? : ∀ key value, w.get? s key = some value ↔
    ∃ stored, (stored, value) ∈ entries ∧ c.compare stored key = .eq
  taken : ∀ count, ((w.iterator s).take s count).1 = entries.take count
  drained : w.entries s = entries

theorem shows_inside (h : s.Sorted c) (hm : s.Represents c.classOf m) (w : Window K) :
    w.Shows c s (w.inside c s) where
  size := size_eq hm.paired h w
  isEmpty := isEmpty_iff hm.paired h w
  first := first_eq hm.paired h w
  last := last_eq hm.paired h w
  contains := contains_iff h hm w
  get? := get?_eq_some_iff h hm w
  taken count := by rw [Iterator.take_eq, left_iterator hm.paired h]
  drained := by rw [entries, Iterator.drain_eq, left_iterator hm.paired h]

/-- Whatever was done to a sorted collection, before a window was narrowed and after, the window
shows the entries that are within its bounds. -/
theorem windows_are_filters (c : Comparator K) [Std.TransCmp c.compare] (capacity : Nat)
    (commands : List (SortedCommand K V)) (w : Window K) :
    let s := (run Storage.step (.withCapacity capacity ⟨c⟩) commands).2
    w.Shows c s (s.pairs.filter fun entry => w.within c entry.1) := by
  obtain ⟨-, sorted, represents⟩ := Storage.Sorted.run (V := V) c capacity commands
  exact shows_inside sorted represents w

/-- The window shows the number that is added through it. -/
theorem window_from_two_to_five :
    let s : SortedStorage Nat Unit := (run Storage.step (.withCapacity 0 ⟨.natural⟩)
      [.whole (.extend [(5, ()), (3, ()), (1, ()), (4, ())]), .insertWithin ⟨some 2, some 5⟩ 2 ()]).2
    (Window.mk (some 2) (some 5)).Shows .natural s [(2, ()), (3, ()), (4, ())] := by
  intro s
  have inside : s.pairs.filter (fun entry =>
      (Window.mk (some 2) (some 5)).within .natural entry.1) = [(2, ()), (3, ()), (4, ())] := by
    unfold s
    decide +kernel
  rw [← inside]
  exact windows_are_filters .natural 0 _ ⟨some 2, some 5⟩

end Window

end LiveCollections
