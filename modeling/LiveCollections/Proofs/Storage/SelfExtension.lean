import LiveCollections.Proofs.Storage.Lawless
import LiveCollections.Proofs.Storage.Linear
import LiveCollections.Proofs.Storage.OrderedMap

/-!
# Extending a collection from its own iterator

An iterator reads the entries that an upsert shifts, so that an extension which wrote after
every read would meet its own entries and might never come to an end. The extension asks the
iterator until it has nothing more, and only then writes. It ends because a storage that stays
as it is lets an iterator yield no more than it holds, wherever the iterator stands, and it
writes what the iterator would have yielded from the storage as it was.

Entries that are written back as they are find themselves where they stand.
-/

namespace LiveCollections

variable {σ K V ι α : Type}

-- ---------------------------------------------------------------------------
-- Asking until there is nothing
-- ---------------------------------------------------------------------------

/-- Asked again and again, the iterator yields the items, and then nothing. -/
inductive Drains (next : ι → Option α × ι) : ι → List α → ι → Prop
  | ended {it last : ι} (none : next it = (none, last)) : Drains next it [] last
  | yielded {it rest last : ι} {item : α} {items : List α} (some : next it = (some item, rest))
    (others : Drains next rest items last) : Drains next it (item :: items) last

theorem Yields.drains {next : ι → Option α × ι} {left : ι → List α} (h : Yields next left)
    {count : Nat} {it : ι} (enough : (left it).length < count) :
    Drains next it (left it) (LiveCollections.takeItems next count it).2 := by
  induction count generalizing it with
  | zero => cases enough
  | succ count ih =>
    obtain ⟨item, others⟩ := h it
    unfold LiveCollections.takeItems
    cases hn : next it with
    | mk yielded after =>
      rw [hn] at item others
      cases hl : left it with
      | nil =>
        rw [hl] at item
        cases item
        exact .ended hn
      | cons first rest =>
        rw [hl] at item others enough
        cases item
        have others : left after = rest := others
        have fewer : (left after).length < count := others ▸ Nat.lt_of_succ_lt_succ enough
        have drained := ih fewer
        rw [others] at drained
        exact .yielded hn drained

theorem Cursor.drains (s : Storage σ K V) (it : Cursor) :
    Drains (Cursor.next s) it (it.left s) (it.drain s).2 := by
  refine (Cursor.yields s).drains (Nat.lt_succ_of_le ?_)
  rw [Cursor.left, List.length_drop]
  exact Nat.le_trans (Nat.sub_le _ _) (length_pairs_le_size s)

theorem Window.Iterator.drains (s : SortedStorage K V) (it : Iterator K) :
    Drains (next s) it (it.left s) (it.drain s).2 :=
  (yields s).drains (Nat.lt_succ_of_le (it.length_left_le s))

theorem Cursor.left_subset (s : Storage σ K V) (it : Cursor) : it.left s ⊆ s.pairs :=
  List.drop_subset _ _

theorem Window.Iterator.left_subset (s : SortedStorage K V) (it : Iterator K) :
    it.left s ⊆ s.pairs := by
  unfold left
  split
  · exact List.nil_subset _
  · exact List.Subset.trans (List.takeWhile_sublist _).subset (List.drop_subset _ _)

-- ---------------------------------------------------------------------------
-- Writing entries back
-- ---------------------------------------------------------------------------

namespace Storage

variable [IndexStrategy σ K] {s : Storage σ K V}

def Recognizes (s : Storage σ K V) : Prop :=
  ∀ {i : Nat} {stored : K}, s.keys[i]? = some stored → s.indexOf? stored = some i

omit [IndexStrategy σ K] in
theorem replaceValueAt_self {i : Nat} {value : V} (h : s.valueAt? i = some value) :
    s.replaceValueAt i value = (some value, s) := by
  obtain ⟨lt, same⟩ := List.getElem?_eq_some_iff.mp h
  rw [replaceValueAt, h]
  dsimp only
  rw [← same, List.set_getElem_self]

theorem Recognizes.upsert_self (h : s.Recognizes) (paired : s.Paired) {entry : K × V}
    (he : entry ∈ s.pairs) :
    s.upsert entry.1 entry.2 = { answer := .ok (some entry.2), after := s } := by
  obtain ⟨i, hi⟩ := List.getElem?_of_mem he
  have stored : s.keys[i]? = some entry.1 := by
    rw [paired.keys_eq, List.getElem?_map, hi]
    rfl
  have written := replaceValueAt_self (valueAt?_of_pairs hi)
  simp only [Storage.upsert, h stored, written]

theorem Recognizes.foldl_upsert_self (h : s.Recognizes) (paired : s.Paired)
    {items : List (K × V)} (stored : items ⊆ s.pairs) :
    items.foldl (fun s entry => (s.upsert entry.1 entry.2).after) s = s := by
  induction items with
  | nil => rfl
  | cons item items ih =>
    rw [List.cons_subset] at stored
    rw [List.foldl_cons, h.upsert_self paired stored.1]
    exact ih stored.2

end Storage

theorem LinearScan.Distinct.recognizes [BEq K] [ReflBEq K] {s : Storage LinearScan K V}
    (h : Distinct s) : s.Recognizes := by
  intro i stored hi
  obtain ⟨lt, rfl⟩ := List.getElem?_eq_some_iff.mp hi
  refine List.findIdx?_eq_some_iff_getElem.mpr ⟨lt, ReflBEq.rfl, fun j before => ?_⟩
  rw [Bool.not_eq_true]
  exact List.pairwise_iff_getElem.mp h j i (Nat.lt_trans before lt) lt before

theorem Storage.Sorted.recognizes {c : Comparator K} [Std.TransCmp c.compare]
    {s : SortedStorage K V} (h : s.Sorted c) : s.Recognizes :=
  fun hi => h.indexOf?_stored hi Std.ReflCmp.compare_self

-- ---------------------------------------------------------------------------
-- Extensions
-- ---------------------------------------------------------------------------

/-- All that the iterator yields from the storage as it was is changed and upserted, in order. -/
structure Storage.ExtendsBy [IndexStrategy σ K] (next : Storage σ K V → ι → Option (K × V) × ι)
    (s : Storage σ K V) (it : ι) (items : List (K × V)) (change : K × V → K × V)
    (result : Outcome σ K V Unit × ι) : Prop where
  drained : Drains (next s) it items result.2
  answer : result.1.answer = .ok ()
  events : result.1.events = []
  after : result.1.after =
    (items.map change).foldl (fun s entry => (s.upsert entry.1 entry.2).after) s

variable {change : K × V → K × V}

theorem Storage.ExtendsBy.unchanged [IndexStrategy σ K]
    {next : Storage σ K V → ι → Option (K × V) × ι} {s : Storage σ K V} {it : ι}
    {items : List (K × V)} {result : Outcome σ K V Unit × ι}
    (h : s.ExtendsBy next it items id result) (recognizes : s.Recognizes) (paired : s.Paired)
    (stored : items ⊆ s.pairs) : result.1.after = s := by
  rw [h.after, List.map_id]
  exact recognizes.foldl_upsert_self paired stored

theorem Storage.ExtendsBy.of_drain [IndexStrategy σ K]
    {next : Storage σ K V → ι → Option (K × V) × ι} {s : Storage σ K V} {it : ι}
    {items : List (K × V)} {drained : List (K × V) × ι}
    (drains : Drains (next s) it items drained.2) (all : drained.1 = items)
    (extended : ∀ entries : List (K × V), (s.upsertAll entries).answer = .ok () ∧
      (s.upsertAll entries).events = [] ∧ (s.upsertAll entries).after =
        entries.foldl (fun s entry => (s.upsert entry.1 entry.2).after) s) :
    s.ExtendsBy next it items change (s.upsertAll (drained.1.map change), drained.2) := by
  obtain ⟨answer, events, after⟩ := extended (drained.1.map change)
  exact ⟨drains, answer, events, all ▸ after⟩

theorem LinearScan.extendsBy [BEq K] (s : Storage LinearScan K V) (it : Cursor) :
    s.ExtendsBy Cursor.next it (it.left s) change (s.extendFrom it change) :=
  .of_drain (it.drains s) (it.drain_eq s) (extended s)

theorem Storage.Paired.extendsBy {s : SortedStorage K V} (h : s.Paired) (it : Cursor) :
    s.ExtendsBy Cursor.next it (it.left s) change (s.extendFrom it change) :=
  .of_drain (it.drains s) (it.drain_eq s) h.extended

theorem Storage.Paired.extendsBy_of_window {s : SortedStorage K V} (h : s.Paired)
    (it : Window.Iterator K) :
    s.ExtendsBy Window.Iterator.next it (it.left s) change (s.extendFromWindow it change) :=
  .of_drain (it.drains s) (it.drain_eq s) h.extended

theorem Storage.Reached.kept {c : Comparator K} {s : SortedStorage K V} (h : s.Reached c) :
    s.Kept c := by
  obtain ⟨capacity, commands, rfl⟩ := h
  have start : (Storage.withCapacity capacity ⟨c⟩ : SortedStorage K V).Kept c :=
    ⟨rfl, Storage.paired_withCapacity capacity _⟩
  exact (start.run commands).2

/-- An extension from an iterator of the collection itself reads all there is before it writes.

An iterator of the keys or of the values is one whose items are changed by that part alone. -/
theorem extending_reads_before_it_writes (change : K × V → K × V) :
    (∀ [BEq K] (s : Storage LinearScan K V), LinearScan.Reached s → ∀ it : Cursor,
      s.ExtendsBy Cursor.next it (s.pairs.drop it.position) change (s.extendFrom it change) ∧
      -- with lawful equality, writing back changes nothing
      ∀ [ReflBEq K], (s.extendFrom it id).1.after = s) ∧
    ∀ (c : Comparator K) (s : SortedStorage K V), s.Reached c →
      (∀ it : Cursor,
        s.ExtendsBy Cursor.next it (s.pairs.drop it.position) change (s.extendFrom it change) ∧
        ∀ [Std.TransCmp c.compare], (s.extendFrom it id).1.after = s) ∧
      ∀ it : Window.Iterator K,
        s.ExtendsBy Window.Iterator.next it (it.left s) change (s.extendFromWindow it change) ∧
        ∀ [Std.TransCmp c.compare], (s.extendFromWindow it id).1.after = s := by
  refine ⟨fun s reached it => ⟨?_, ?_⟩, fun c s reached => ⟨fun it => ⟨?_, ?_⟩, fun it => ⟨?_, ?_⟩⟩⟩
  · exact LinearScan.extendsBy s it
  · intro _
    exact (LinearScan.extendsBy s it).unchanged reached.distinct.recognizes reached.paired
      (it.left_subset s)
  · exact reached.kept.paired.extendsBy it
  · intro _
    exact (reached.kept.paired.extendsBy it).unchanged reached.sorted.recognizes
      reached.kept.paired (it.left_subset s)
  · exact reached.kept.paired.extendsBy_of_window it
  · intro _
    exact (reached.kept.paired.extendsBy_of_window it).unchanged reached.sorted.recognizes
      reached.kept.paired (it.left_subset s)

/-- The successors of one, two and three come ahead of the iterator and are not met, and neither
is twenty-five inside the window. -/
theorem successors_are_not_met :
    let change : Nat × String → Nat × String := fun (key, value) => (key + 1, value)
    let s : Storage LinearScan Nat String :=
      (run Storage.perform (.withCapacity 0 ⟨⟩) [.extend [(1, "a"), (2, "b"), (3, "c")]]).2
    let later : Nat × String → Nat × String := fun (key, value) => (key + 5, value)
    let t : SortedStorage Nat String := (run Storage.step (.withCapacity 0 ⟨.natural⟩)
      [.whole (.extend [(10, "a"), (20, "b"), (30, "c"), (40, "d")])]).2
    let it : Window.Iterator Nat := ⟨1, some 40, false⟩
    (LinearScan.Reached s ∧ (s.extendFrom {} id).1.after = s ∧
      (s.extendFrom {} change).1.after.pairs = [(1, "a"), (2, "a"), (3, "b"), (4, "c")]) ∧
    t.Reached .natural ∧ (t.extendFromWindow it id).1.after = t ∧
      t.ExtendsBy Window.Iterator.next it (it.left t) later (t.extendFromWindow it later) ∧
      (t.extendFromWindow it later).1.after.pairs =
        [(10, "a"), (20, "b"), (25, "b"), (30, "c"), (35, "c"), (40, "d")] := by
  intro change s later t it
  have linear : LinearScan.Reached s := ⟨0, _, rfl⟩
  have sorted : t.Reached .natural := ⟨0, _, rfl⟩
  have same := ((extending_reads_before_it_writes change).1 s linear {}).2
  have extended := ((extending_reads_before_it_writes later).2 .natural t sorted).2 it
  exact ⟨⟨linear, same, by decide +kernel⟩, sorted, extended.2, extended.1, by decide +kernel⟩

end LiveCollections
