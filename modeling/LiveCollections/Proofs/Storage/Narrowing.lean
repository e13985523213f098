import LiveCollections.Proofs.Index.Positions
import LiveCollections.Proofs.Storage.Windows
import Mathlib.Logic.Relation

/-!
# Narrowing windows

A window accepts new endpoints that are between its bounds, the upper bound itself
included, and that are not reversed. The narrower window lets through what the window
does and the endpoints do, so it never reaches beyond a window that it comes from.

Bounds that come from the unbounded window by narrowing are in order, and so are their
positions in every sorted storage. Two endpoints may be given together or one after the
other, in either order: the outcome is the same.
-/

namespace LiveCollections.Window

variable {K V : Type} {c : Comparator K} {u v w : Window K} {lower upper : Option K} {key : K}

def Spans (w : Window K) (c : Comparator K) (key : K) : Prop :=
  (∀ lower ∈ w.lower, (c.compare lower key).isLE) ∧ ∀ upper ∈ w.upper, (c.compare key upper).isLE

def InOrder (w : Window K) (c : Comparator K) : Prop :=
  ∀ lower ∈ w.lower, ∀ upper ∈ w.upper, (c.compare lower upper).isLE

structure Accepts (w : Window K) (c : Comparator K) (lower upper : Option K) : Prop where
  spansLower : ∀ a ∈ lower, w.Spans c a
  spansUpper : ∀ b ∈ upper, w.Spans c b
  inOrder : ∀ a ∈ lower, ∀ b ∈ upper, (c.compare a b).isLE

/-- The second window comes from the first by narrowings, none or several. -/
def Narrows (c : Comparator K) : Window K → Window K → Prop :=
  Relation.ReflTransGen fun u v => ∃ lower upper, u.narrow c lower upper = .ok v

-- ---------------------------------------------------------------------------
-- Endpoints
-- ---------------------------------------------------------------------------

section Endpoints

variable [Std.TransCmp c.compare]

theorem admitsEndpoint_iff : w.admitsEndpoint c key = true ↔ w.Spans c key := by
  have below : ∀ lower, c.compare key lower ≠ .lt ↔ (c.compare lower key).isLE := by
    intro lower
    rw [@Std.OrientedCmp.eq_swap _ c.compare _ key lower]
    cases c.compare lower key <;> simp
  have above : ∀ upper, c.compare key upper ≠ .gt ↔ (c.compare key upper).isLE := by
    intro upper
    cases c.compare key upper <;> simp
  unfold admitsEndpoint atOrAboveLower Spans
  simp [Option.all_eq_true, below, above]

theorem narrow_cases (w : Window K) (lower upper : Option K) :
    w.Accepts c lower upper ∧ w.narrow c lower upper = .ok ⟨lower.or w.lower, upper.or w.upper⟩ ∨
      ¬ w.Accepts c lower upper ∧ w.narrow c lower upper = .error .invalidRange := by
  unfold narrow
  cases endpoints : lower.all (w.admitsEndpoint c) && upper.all (w.admitsEndpoint c) with
  | false =>
    refine .inr ⟨fun h => ?_, by simp⟩
    have admitted : (lower.all (w.admitsEndpoint c) && upper.all (w.admitsEndpoint c)) = true := by
      simp only [Bool.and_eq_true, Option.all_eq_true, admitsEndpoint_iff]
      exact ⟨h.spansLower, h.spansUpper⟩
    rw [admitted] at endpoints
    cases endpoints
  | true =>
    simp only [Bool.and_eq_true, Option.all_eq_true, admitsEndpoint_iff] at endpoints
    obtain ⟨first, second⟩ := endpoints
    cases lower with
    | none => exact .inl ⟨⟨first, second, nofun⟩, rfl⟩
    | some a =>
      cases upper with
      | none => exact .inl ⟨⟨first, second, nofun⟩, rfl⟩
      | some b =>
        by_cases reversed : c.compare a b = .gt
        · refine .inr ⟨fun h => ?_, by simp [reversed]⟩
          have le := h.inOrder a rfl b rfl
          rw [reversed] at le
          cases le
        · refine .inl ⟨⟨first, second, ?_⟩, by simp [reversed]⟩
          rintro _ ⟨⟩ _ ⟨⟩
          cases hc : c.compare a b with
          | lt | eq => rfl
          | gt => exact absurd hc reversed

theorem narrow_eq_ok_iff : w.narrow c lower upper = .ok v ↔
    w.Accepts c lower upper ∧ v = ⟨lower.or w.lower, upper.or w.upper⟩ := by
  rcases narrow_cases (c := c) w lower upper with ⟨accepts, narrowed⟩ | ⟨refused, narrowed⟩
  · rw [narrowed, Except.ok.injEq, eq_comm]
    exact ⟨fun same => ⟨accepts, same⟩, fun same => same.2⟩
  · rw [narrowed]
    exact ⟨nofun, fun same => absurd same.1 refused⟩

theorem narrow_eq_error (h : ¬ w.Accepts c lower upper) :
    w.narrow c lower upper = .error .invalidRange := by
  rcases narrow_cases (c := c) w lower upper with ⟨accepts, -⟩ | ⟨-, narrowed⟩
  · exact absurd accepts h
  · exact narrowed

end Endpoints

-- ---------------------------------------------------------------------------
-- What a narrower window lets through
-- ---------------------------------------------------------------------------

theorem within_iff : w.within c key = true ↔
    (∀ lower ∈ w.lower, (c.compare lower key).isLE) ∧ ∀ upper ∈ w.upper, c.compare key upper = .lt := by
  simp [within, Option.all_eq_true]

section Reach

variable [Std.TransCmp c.compare]

/-- Inherited bounds say nothing about a key that given endpoints let through. -/
theorem within_narrow (h : w.narrow c lower upper = .ok v) (key : K) :
    v.within c key = (w.within c key && (Window.mk lower upper).within c key) := by
  obtain ⟨accepts, rfl⟩ := narrow_eq_ok_iff.mp h
  have below : (∀ l ∈ lower.or w.lower, (c.compare l key).isLE) ↔
      (∀ l ∈ w.lower, (c.compare l key).isLE) ∧ ∀ l ∈ lower, (c.compare l key).isLE := by
    cases lower with
    | none => simp
    | some a =>
      have spans := (accepts.spansLower a rfl).1
      constructor
      · intro le
        have le : (c.compare a key).isLE := le a rfl
        exact ⟨fun l hl => Std.TransCmp.isLE_trans (spans l hl) le, by simpa using le⟩
      · exact fun le => le.2
  have above : (∀ u ∈ upper.or w.upper, c.compare key u = .lt) ↔
      (∀ u ∈ w.upper, c.compare key u = .lt) ∧ ∀ u ∈ upper, c.compare key u = .lt := by
    cases upper with
    | none => simp
    | some b =>
      have spans := (accepts.spansUpper b rfl).2
      constructor
      · intro lt
        have lt : c.compare key b = .lt := lt b rfl
        exact ⟨fun u hu => Std.TransCmp.lt_of_lt_of_isLE lt (spans u hu), by simpa using lt⟩
      · exact fun lt => lt.2
  rw [Bool.eq_iff_iff, Bool.and_eq_true, within_iff, within_iff, within_iff, below, above]
  exact and_and_and_comm

theorem Narrows.within (h : Narrows c u v) (key : K) (inside : v.within c key = true) :
    u.within c key = true := by
  induction h with
  | refl => exact inside
  | tail _ step ih =>
    obtain ⟨lower, upper, narrowed⟩ := step
    rw [within_narrow narrowed, Bool.and_eq_true] at inside
    exact ih inside.1

theorem inside_narrow (h : w.narrow c lower upper = .ok v) (s : SortedStorage K V) :
    v.inside c s = (w.inside c s).filter fun entry => (Window.mk lower upper).within c entry.1 := by
  unfold inside
  rw [List.filter_filter]
  refine List.filter_congr fun entry _ => ?_
  rw [within_narrow h, Bool.and_comm]

variable {s : SortedStorage K V}

theorem insert_eq_ok_iff (h : s.Sorted c) {value : V}
    {outcome : Outcome (BinarySearch K) K V (Option V)} :
    w.insert s key value = .ok outcome ↔ w.within c key = true ∧ s.upsert key value = outcome := by
  unfold insert
  rw [h.strategy, admits_eq_within]
  cases w.within c key <;> simp

theorem remove_eq_ok_iff (h : s.Sorted c) {result : Option (K × V) × SortedStorage K V} :
    w.remove s key = .ok result ↔ w.within c key = true ∧ s.removeKey key = result := by
  unfold remove
  rw [h.strategy, admits_eq_within]
  cases w.within c key <;> simp

theorem Narrows.insert (h : Narrows c u v) (hs : s.Sorted c) {value : V}
    {outcome : Outcome (BinarySearch K) K V (Option V)} (done : v.insert s key value = .ok outcome) :
    u.insert s key value = .ok outcome := by
  obtain ⟨inside, after⟩ := (insert_eq_ok_iff hs).mp done
  exact (insert_eq_ok_iff hs).mpr ⟨h.within key inside, after⟩

theorem Narrows.remove (h : Narrows c u v) (hs : s.Sorted c)
    {result : Option (K × V) × SortedStorage K V} (done : v.remove s key = .ok result) :
    u.remove s key = .ok result := by
  obtain ⟨inside, after⟩ := (remove_eq_ok_iff hs).mp done
  exact (remove_eq_ok_iff hs).mpr ⟨h.within key inside, after⟩

end Reach

-- ---------------------------------------------------------------------------
-- Bounds in order
-- ---------------------------------------------------------------------------

section Order

variable [Std.TransCmp c.compare]

theorem inOrder_narrow (hw : w.InOrder c) (h : w.narrow c lower upper = .ok v) : v.InOrder c := by
  obtain ⟨accepts, rfl⟩ := narrow_eq_ok_iff.mp h
  intro l hl r hr
  cases lower with
  | none =>
    cases upper with
    | none => exact hw l hl r hr
    | some b =>
      cases hr
      exact (accepts.spansUpper r rfl).1 l hl
  | some a =>
    cases hl
    cases upper with
    | none => exact (accepts.spansLower l rfl).2 r hr
    | some b =>
      cases hr
      exact accepts.inOrder l rfl r rfl

theorem Narrows.inOrder (h : Narrows c u v) (hu : u.InOrder c) : v.InOrder c := by
  induction h with
  | refl => exact hu
  | tail _ step ih =>
    obtain ⟨lower, upper, narrowed⟩ := step
    exact inOrder_narrow ih narrowed

theorem lowerIndex_le_upperIndex {s : SortedStorage K V} (hs : s.Sorted c) (hw : w.InOrder c) :
    w.lowerIndex s ≤ w.upperIndex s := by
  unfold lowerIndex upperIndex
  cases hl : w.lower with
  | none => exact Nat.zero_le _
  | some l =>
    cases hr : w.upper with
    | none => exact BinarySearch.insertionPoint_le ..
    | some r =>
      rw [hs.strategy]
      exact BinarySearch.insertionPoint_mono (s := ⟨c⟩) hs.ascending (hw l hl r hr)

end Order

-- ---------------------------------------------------------------------------
-- One endpoint after the other
-- ---------------------------------------------------------------------------

section Stepwise

variable {a b : K}

theorem accepts_lower_iff : w.Accepts c (some a) none ↔ w.Spans c a :=
  ⟨fun h => h.spansLower a rfl, fun h => ⟨by simpa using h, nofun, nofun⟩⟩

theorem accepts_upper_iff : w.Accepts c none (some b) ↔ w.Spans c b :=
  ⟨fun h => h.spansUpper b rfl, fun h => ⟨nofun, by simpa using h, nofun⟩⟩

theorem accepts_both_iff : w.Accepts c (some a) (some b) ↔
    w.Spans c a ∧ w.Spans c b ∧ (c.compare a b).isLE := by
  constructor
  · intro h
    exact ⟨h.spansLower a rfl, h.spansUpper b rfl, h.inOrder a rfl b rfl⟩
  · rintro ⟨first, second, le⟩
    exact ⟨by simpa using first, by simpa using second, by simpa using le⟩

variable [Std.TransCmp c.compare]

theorem accepts_tail_head : w.Accepts c (some a) (some b) ↔
    w.Accepts c (some a) none ∧ (Window.mk (some a) w.upper).Accepts c none (some b) := by
  rw [accepts_both_iff, accepts_lower_iff, accepts_upper_iff]
  refine and_congr_right fun first => ?_
  constructor
  · rintro ⟨second, le⟩
    exact ⟨by simpa using le, second.2⟩
  · rintro ⟨le, below⟩
    have le : (c.compare a b).isLE := le a rfl
    exact ⟨⟨fun l hl => Std.TransCmp.isLE_trans (first.1 l hl) le, below⟩, le⟩

theorem accepts_head_tail : w.Accepts c (some a) (some b) ↔
    w.Accepts c none (some b) ∧ (Window.mk w.lower (some b)).Accepts c (some a) none := by
  rw [accepts_both_iff, accepts_lower_iff, accepts_upper_iff, and_left_comm]
  refine and_congr_right fun second => ?_
  constructor
  · rintro ⟨first, le⟩
    exact ⟨first.1, by simpa using le⟩
  · rintro ⟨above, le⟩
    have le : (c.compare a b).isLE := le b rfl
    exact ⟨⟨above, fun u hu => Std.TransCmp.isLE_trans le (second.2 u hu)⟩, le⟩

/-- Two narrowings make one, if what they accept and what they leave is the same. -/
theorem narrow_bind {lower' upper' : Option K}
    (accepts : w.Accepts c (some a) (some b) ↔ w.Accepts c lower upper ∧
      (Window.mk (lower.or w.lower) (upper.or w.upper)).Accepts c lower' upper')
    (bounds : Window.mk (lower'.or (lower.or w.lower)) (upper'.or (upper.or w.upper)) =
      ⟨some a, some b⟩) :
    (w.narrow c lower upper).bind (fun v => v.narrow c lower' upper') =
      w.narrow c (some a) (some b) := by
  by_cases first : w.Accepts c lower upper
  · rw [narrow_eq_ok_iff.mpr ⟨first, rfl⟩, Except.bind]
    by_cases second :
        (Window.mk (lower.or w.lower) (upper.or w.upper)).Accepts c lower' upper'
    · rw [narrow_eq_ok_iff.mpr ⟨second, rfl⟩, bounds]
      exact (narrow_eq_ok_iff.mpr ⟨accepts.mpr ⟨first, second⟩, rfl⟩).symm
    · rw [narrow_eq_error second, narrow_eq_error fun both => second (accepts.mp both).2]
  · rw [narrow_eq_error first, narrow_eq_error fun both => first (accepts.mp both).1]
    rfl

theorem tail_head_eq_sub (w : Window K) (a b : K) :
    (w.tail c a).bind (fun v => v.head c b) = w.sub c a b := narrow_bind accepts_tail_head rfl

theorem head_tail_eq_sub (w : Window K) (a b : K) :
    (w.head c b).bind (fun v => v.tail c a) = w.sub c a b := narrow_bind accepts_head_tail rfl

end Stepwise

-- ---------------------------------------------------------------------------
-- The main result
-- ---------------------------------------------------------------------------

/-- A window that comes from the whole collection narrows within its bounds, to what it shows within
the new ones, and keeps its bounds in order. -/
theorem narrowing_composes (c : Comparator K) [Std.TransCmp c.compare] (w : Window K)
    (reached : Narrows c unbounded w) :
    -- it narrows to endpoints that it accepts and refuses the others
    (∀ lower upper, ((∃ v, w.narrow c lower upper = .ok v) ↔ w.Accepts c lower upper) ∧
      (¬ w.Accepts c lower upper → w.narrow c lower upper = .error .invalidRange)) ∧
    (∀ lower upper v, w.narrow c lower upper = .ok v → ∀ s : SortedStorage K V, s.Reached c →
      -- the narrower window shows what the endpoints let through
      v.entries s = (w.entries s).filter (fun entry => (Window.mk lower upper).within c entry.1) ∧
      -- and changes nothing that this window, or one that it comes from, would not change alike
      ∀ u, Narrows c u w → ∀ key,
        (∀ value outcome, v.insert s key value = .ok outcome →
          u.insert s key value = .ok outcome) ∧
        ∀ result, v.remove s key = .ok result → u.remove s key = .ok result) ∧
    -- its bounds are in order, and so are their positions
    w.InOrder c ∧
    (∀ s : SortedStorage K V, s.Reached c →
      w.lowerIndex s ≤ w.upperIndex s ∧ w.lowerIndex s + w.size s = w.upperIndex s) ∧
    -- the order of the endpoints does not matter
    ∀ a b, (w.tail c a).bind (fun v => v.head c b) = w.sub c a b ∧
      (w.head c b).bind (fun v => v.tail c a) = w.sub c a b := by
  have inOrder : w.InOrder c := reached.inOrder nofun
  refine ⟨fun lower upper => ⟨?_, narrow_eq_error⟩, ?_, inOrder, ?_, fun a b =>
    ⟨tail_head_eq_sub w a b, head_tail_eq_sub w a b⟩⟩
  · constructor
    · rintro ⟨v, narrowed⟩
      exact (narrow_eq_ok_iff.mp narrowed).1
    · intro accepts
      exact ⟨_, narrow_eq_ok_iff.mpr ⟨accepts, rfl⟩⟩
  · intro lower upper v narrowed s hs
    obtain ⟨m, represents⟩ := hs.represents
    refine ⟨?_, fun u hu key => ?_⟩
    · rw [(shows_inside hs.sorted represents v).drained,
        (shows_inside hs.sorted represents w).drained]
      exact inside_narrow narrowed s
    · have descends : Narrows c u v := hu.tail ⟨lower, upper, narrowed⟩
      exact ⟨fun value outcome => descends.insert hs.sorted, fun result => descends.remove hs.sorted⟩
  · intro s hs
    have le := lowerIndex_le_upperIndex hs.sorted inOrder
    exact ⟨le, Nat.add_sub_cancel' le⟩

/-- The upper bound is accepted as an endpoint once more, and no endpoint behind it. -/
theorem window_below_eight_narrows_to_eight :
    let w : Window Nat := ⟨some 2, some 8⟩
    Narrows .natural unbounded w ∧ w.Accepts .natural (some 8) (some 8) ∧
      ¬ w.Accepts .natural (some 9) none := by
  intro w
  have reached : Narrows .natural unbounded w :=
    (Relation.ReflTransGen.single ⟨some 2, none, rfl⟩).tail ⟨none, some 8, rfl⟩
  have narrows := (narrowing_composes (V := Unit) .natural w reached).1
  refine ⟨reached, (narrows _ _).1.mp ⟨⟨some 8, some 8⟩, rfl⟩, fun accepts => ?_⟩
  obtain ⟨v, narrowed⟩ := (narrows _ _).1.mpr accepts
  cases narrowed

end LiveCollections.Window
