import LiveCollections.Proofs.Storage.Lawless
import LiveCollections.Proofs.Storage.Narrowing

/-!
# Changes through a window

A window compares the key with its bounds before anything else is done. A key outside is
refused and nothing has changed; for a key inside the window does what the whole collection
does. That is a change in one place, of an entry that is equivalent to the key, and an
equivalent key is inside the window too. Whatever lies below the window or beyond it is
therefore what it was, and the size of the window follows what is answered.
-/

namespace LiveCollections

variable {K V : Type} {c : Comparator K}

def SortedAnswer.growth : SortedAnswer K V → Int
  | .ok (.inserted (.ok none) _) => 1
  | .ok (.removed (some _)) => -1
  | _ => 0

namespace Storage.Exchanges

variable {s t : SortedStorage K V} {old new : Option (K × V)} {p : K × V → Bool}

theorem refl (s : SortedStorage K V) : s.Exchanges s none none := ⟨s.pairs, [], by simp, by simp⟩

theorem filter_eq (h : s.Exchanges t old new) (gone : ∀ entry ∈ old, p entry = false)
    (come : ∀ entry ∈ new, p entry = false) : t.pairs.filter p = s.pairs.filter p := by
  obtain ⟨front, back, before, after⟩ := h
  have nothing : ∀ entry : Option (K × V), (∀ e ∈ entry, p e = false) →
      entry.toList.filter p = [] := by
    intro entry outside
    exact List.filter_eq_nil_iff.mpr fun e he => by simp [outside e (by simpa using he)]
  rw [before, after, List.filter_append, List.filter_append, List.filter_append,
    List.filter_append, nothing old gone, nothing new come]

theorem length_filter (h : s.Exchanges t old new) (gone : ∀ entry ∈ old, p entry = true)
    (come : ∀ entry ∈ new, p entry = true) :
    (t.pairs.filter p).length + old.toList.length =
      (s.pairs.filter p).length + new.toList.length := by
  obtain ⟨front, back, before, after⟩ := h
  have all : ∀ entry : Option (K × V), (∀ e ∈ entry, p e = true) →
      entry.toList.filter p = entry.toList :=
    fun entry inside => List.filter_eq_self.mpr fun e he => inside e (by simpa using he)
  rw [before, after]
  simp only [List.filter_append, List.length_append, all old gone, all new come]
  omega

end Storage.Exchanges

namespace Window

variable {w : Window K} {s t : SortedStorage K V} {key : K} {value : V}

def below (w : Window K) (c : Comparator K) (s : SortedStorage K V) : List (K × V) :=
  s.pairs.filter fun entry => !w.atOrAboveLower c entry.1

def beyond (w : Window K) (c : Comparator K) (s : SortedStorage K V) : List (K × V) :=
  s.pairs.filter fun entry => !w.belowUpper c entry.1

/-- What becomes of a key that is given to a window, beside what the whole collection does. -/
structure Guards (w : Window K) (c : Comparator K) (s : SortedStorage K V) (key : K)
    (through whole : SortedAnswer K V × SortedStorage K V) : Prop where
  refused : through.1 = .error .outOfRange ↔ ¬ w.within c key = true
  untouched : ¬ w.within c key = true → through.2 = s
  admitted : w.within c key = true → through = whole
  below : w.below c through.2 = w.below c s
  beyond : w.beyond c through.2 = w.beyond c s
  ascending : c.Ascending through.2.keys
  paired : through.2.keys.length = through.2.values.length
  size : (w.size through.2 : Int) = w.size s + through.1.growth

theorem guards_refused (paired : s.Paired) (hs : s.Sorted c) (outside : ¬ w.within c key = true)
    (whole : SortedAnswer K V × SortedStorage K V) :
    w.Guards c s key (.error .outOfRange, s) whole where
  refused := ⟨fun _ => outside, fun _ => rfl⟩
  untouched _ := rfl
  admitted inside := absurd inside outside
  below := rfl
  beyond := rfl
  ascending := hs.ascending
  paired := paired
  size := (Int.add_zero _).symm

variable [Std.TransCmp c.compare]

/-- A change of one entry that is equivalent to a key inside stays inside. -/
theorem guards_admitted (paired : s.Paired) (hs : s.Sorted c) (inside : w.within c key = true)
    (pairedAfter : t.Paired) (ht : t.Sorted c) {old new : Option (K × V)}
    (exchanged : s.Exchanges t old new) (gone : ∀ entry ∈ old, c.compare entry.1 key = .eq)
    (come : ∀ entry ∈ new, c.compare entry.1 key = .eq) {answer : CollectionAnswer K V}
    (growth : SortedAnswer.growth (.ok answer) = new.toList.length - old.toList.length) :
    w.Guards c s key (.ok answer, t) (.ok answer, t) := by
  have within : ∀ {entry : K × V}, c.compare entry.1 key = .eq → w.within c entry.1 = true :=
    fun same => (within_congr w same).trans inside
  have bounds : ∀ {entry : K × V}, c.compare entry.1 key = .eq →
      w.atOrAboveLower c entry.1 = true ∧ w.belowUpper c entry.1 = true := by
    intro entry same
    rw [← Bool.and_eq_true, ← admits, admits_eq_within]
    exact within same
  refine ⟨by simp [inside], fun outside => absurd inside outside, fun _ => rfl, ?_, ?_,
    ht.ascending, pairedAfter, ?_⟩
  · exact exchanged.filter_eq (fun e he => by simp [bounds (gone e he)])
      fun e he => by simp [bounds (come e he)]
  · exact exchanged.filter_eq (fun e he => by simp [bounds (gone e he)])
      fun e he => by simp [bounds (come e he)]
  · have counted : (w.inside c t).length + old.toList.length =
        (w.inside c s).length + new.toList.length :=
      exchanged.length_filter (fun e he => within (gone e he)) fun e he => within (come e he)
    rw [size_eq pairedAfter ht, size_eq paired hs, growth]
    omega

theorem step_insertWithin (hs : s.Sorted c) (w : Window K) (key : K) (value : V) :
    s.step (.insertWithin w key value) =
      if w.within c key then s.step (.whole (.insert key value)) else (.error .outOfRange, s) := by
  simp only [Storage.step, Window.insert, hs.strategy, admits_eq_within]
  by_cases inside : w.within c key = true
  · rw [if_pos inside, if_pos inside]
    rfl
  · rw [if_neg inside, if_neg inside]

theorem step_removeWithin (hs : s.Sorted c) (w : Window K) (key : K) :
    s.step (.removeWithin w key) =
      if w.within c key then s.step (.whole (.remove key)) else (.error .outOfRange, s) := by
  simp only [Storage.step, Window.remove, hs.strategy, admits_eq_within]
  by_cases inside : w.within c key = true
  · rw [if_pos inside, if_pos inside]
    rfl
  · rw [if_neg inside, if_neg inside]

theorem guards_insert (paired : s.Paired) (hs : s.Sorted c) (w : Window K) (key : K) (value : V) :
    w.Guards c s key (s.step (.insertWithin w key value))
      (s.step (.whole (.insert key value))) := by
  by_cases inside : w.within c key = true
  · have sortedAfter := hs.upsert key value
    have pairedAfter := paired.upsert key value
    have upserted := paired.upserted key value
    rw [step_insertWithin hs, if_pos inside]
    simp only [Storage.step, Storage.perform]
    generalize s.upsert key value = outcome at sortedAfter pairedAfter upserted ⊢
    cases upserted with
    | overwritten equal exchanged =>
      rw [hs.strategy] at equal
      exact guards_admitted paired hs inside pairedAfter sortedAfter exchanged
        (by simpa using equal) (by simpa using equal) rfl
    | added exchanged =>
      exact guards_admitted paired hs inside pairedAfter sortedAfter exchanged nofun
        (by simpa using Std.ReflCmp.compare_self) rfl
  · rw [step_insertWithin hs, if_neg inside]
    exact guards_refused paired hs inside _

theorem guards_remove (paired : s.Paired) (hs : s.Sorted c) (w : Window K) (key : K) :
    w.Guards c s key (s.step (.removeWithin w key)) (s.step (.whole (.remove key))) := by
  by_cases inside : w.within c key = true
  · have sortedAfter := hs.removeKey key
    have pairedAfter : (s.removeKey key).2.Paired := paired.perform (.remove key)
    have removed := paired.removed key
    rw [step_removeWithin hs, if_pos inside]
    simp only [Storage.step, Storage.perform]
    generalize s.removeKey key = result at sortedAfter pairedAfter removed ⊢
    cases removed with
    | taken equal exchanged =>
      rw [hs.strategy] at equal
      exact guards_admitted paired hs inside pairedAfter sortedAfter exchanged
        (by simpa using equal) nofun rfl
    | missed => exact guards_admitted paired hs inside paired hs (.refl s) nofun nofun rfl
  · rw [step_removeWithin hs, if_neg inside]
    exact guards_refused paired hs inside _

/-- Whatever was done to a sorted collection, a change through a window stays within its bounds. -/
theorem changes_through_windows_are_confined (c : Comparator K) [Std.TransCmp c.compare]
    (capacity : Nat) (commands : List (SortedCommand K V)) (w : Window K) (key : K) :
    let s := (run Storage.step (.withCapacity capacity ⟨c⟩) commands).2
    (∀ value, w.Guards c s key (s.step (.insertWithin w key value))
      (s.step (.whole (.insert key value)))) ∧
    w.Guards c s key (s.step (.removeWithin w key)) (s.step (.whole (.remove key))) := by
  intro s
  have reached : s.Reached c := ⟨capacity, commands, rfl⟩
  exact ⟨guards_insert reached.paired reached.sorted w key,
    guards_remove reached.paired reached.sorted w key⟩

/-- The number is taken for the one that is stored, and for the bound, which lets it in. -/
theorem twenty_five_is_inside_from_twenty_one :
    let c : Comparator Nat := .byMeasure (· / 10)
    let s : SortedStorage Nat String := (run Storage.step (.withCapacity 0 ⟨c⟩)
      [.whole (.extend [(13, "a"), (28, "b"), (35, "c")])]).2
    let w : Window Nat := ⟨some 21, some 30⟩
    let removed := s.step (.removeWithin w 25)
    w.Guards c s 25 removed (s.step (.whole (.remove 25))) ∧
      removed.2.pairs = [(13, "a"), (35, "c")] ∧ w.size removed.2 = 0 := by
  intro c s w removed
  exact ⟨(changes_through_windows_are_confined c 0 _ w 25).2, by decide +kernel, by decide +kernel⟩

end Window

end LiveCollections
