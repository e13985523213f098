import LiveCollections.Storage.Pairs
import LiveCollections.Window

/-!
# Iterators of a storage that stays as it is

An iterator then has a list of items left. A step yields the first of them and leaves
the others, so that any number of steps yields as many items from the front of the list,
and draining the iterator yields the list.
-/

namespace LiveCollections

variable {σ K V ι α : Type}

def Yields (next : ι → Option α × ι) (left : ι → List α) : Prop :=
  ∀ it, (next it).1 = (left it).head? ∧ left (next it).2 = (left it).tail

theorem Yields.takeItems {next : ι → Option α × ι} {left : ι → List α} (h : Yields next left)
    (count : Nat) (it : ι) :
    (takeItems next count it).1 = (left it).take count ∧
      left (takeItems next count it).2 = (left it).drop count := by
  induction count generalizing it with
  | zero => exact ⟨rfl, rfl⟩
  | succ count ih =>
    obtain ⟨item, others⟩ := h it
    unfold LiveCollections.takeItems
    cases hn : next it with
    | mk yielded after =>
      rw [hn] at item others
      cases hl : left it with
      | nil =>
        rw [hl] at item others
        cases item
        exact ⟨rfl, others⟩
      | cons first rest =>
        rw [hl] at item others
        cases item
        obtain ⟨items, last⟩ := ih after
        rw [others] at items last
        exact ⟨congrArg _ items, last⟩

theorem length_pairs_le_size (s : Storage σ K V) : s.pairs.length ≤ s.size := by
  rw [Storage.pairs, List.length_zip]
  exact Nat.min_le_left _ _

-- ---------------------------------------------------------------------------
-- Cursors
-- ---------------------------------------------------------------------------

namespace Cursor

variable (s : Storage σ K V)

def left (c : Cursor) : List (K × V) := s.pairs.drop c.position

theorem yields : Yields (next s) (left s) := by
  intro c
  unfold next left
  rw [Storage.entryAt?_eq_getElem?, List.head?_drop, List.tail_drop]
  cases hc : s.pairs[c.position]? with
  | some entry => exact ⟨rfl, rfl⟩
  | none =>
    have ended := List.getElem?_eq_none_iff.mp hc
    refine ⟨rfl, ?_⟩
    rw [List.drop_of_length_le ended, List.drop_of_length_le (Nat.le_succ_of_le ended)]

theorem take_eq (count : Nat) (c : Cursor) : (c.take s count).1 = (c.left s).take count :=
  ((yields s).takeItems count c).1

theorem drain_eq (c : Cursor) : (c.drain s).1 = c.left s := by
  rw [drain, take_eq]
  refine List.take_of_length_le ?_
  rw [left, List.length_drop]
  exact Nat.le_succ_of_le (Nat.le_trans (Nat.sub_le _ _) (length_pairs_le_size s))

end Cursor

-- ---------------------------------------------------------------------------
-- Iterators of a window
-- ---------------------------------------------------------------------------

namespace Window.Iterator

variable (s : SortedStorage K V)

def left (it : Iterator K) : List (K × V) :=
  if it.finished then []
  else (s.pairs.drop it.position).takeWhile fun entry =>
    (Window.mk none it.upper).belowUpper s.strategy.comparator entry.1

theorem length_left_le (it : Iterator K) : (it.left s).length ≤ s.size := by
  unfold left
  split
  · exact Nat.zero_le _
  · refine Nat.le_trans (List.takeWhile_sublist _).length_le ?_
    rw [List.length_drop]
    exact Nat.le_trans (Nat.sub_le _ _) (length_pairs_le_size s)

theorem yields : Yields (next s) (left s) := by
  rintro ⟨position, upper, finished⟩
  unfold next
  cases finished with
  | true => exact ⟨rfl, rfl⟩
  | false =>
    rw [Storage.entryAt?_eq_getElem?]
    cases hs : s.pairs[position]? with
    | none =>
      have ended := List.drop_of_length_le (List.getElem?_eq_none_iff.mp hs)
      simp [left, ended]
    | some entry =>
      have front : s.pairs.drop position = entry :: s.pairs.drop (position + 1) := by
        obtain ⟨lt, rfl⟩ := List.getElem?_eq_some_iff.mp hs
        exact List.drop_eq_getElem_cons lt
      cases below : (Window.mk none upper).belowUpper s.strategy.comparator entry.1 with
      | true => simp [left, front, below]
      | false => simp [left, front, below]

theorem take_eq (count : Nat) (it : Iterator K) : (it.take s count).1 = (it.left s).take count :=
  ((yields s).takeItems count it).1

theorem drain_eq (it : Iterator K) : (it.drain s).1 = it.left s := by
  rw [drain, take_eq]
  exact List.take_of_length_le (Nat.le_succ_of_le (it.length_left_le s))

end Window.Iterator

end LiveCollections
