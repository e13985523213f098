import LiveCollections.Proofs.Storage.Linear
import LiveCollections.Proofs.Storage.Sorted

/-!
# Linear and sorted collections

Two collections that find keys by the same classes answer every call alike, wherever they
keep their entries: both stand for one finite map. A linear collection finds keys by
equality, so that this is what a sorted collection does whose order says the same as
equality. The entries of the one are those of the other, sorted.

A view of a key, and the set of the keys, get, replace and remove as the collection does,
and a set is a collection of `()` values, so that there are no calls of their own for these.
-/

namespace LiveCollections

variable {κ σ τ K V : Type}

inductive CollectionCall (K V : Type)
  | change (command : CollectionCommand K V)
  | get (key : K)
  | contains (key : K)
  | containsValue (value : V)
  | containsEntry (key : K) (value : V)
  | size
  | isEmpty

inductive CallAnswer (K V : Type)
  | changed (answer : CollectionAnswer K V)
  | value (value : Option V)
  | flag (flag : Bool)
  | count (count : Nat)

def Storage.call [IndexStrategy σ K] [BEq V] (s : Storage σ K V) :
    CollectionCall K V → CallAnswer K V × Storage σ K V
  | .change command => (s.perform command).map .changed id
  | .get key => (.value (s.get? key), s)
  | .contains key => (.flag (s.contains key), s)
  | .containsValue value => (.flag (s.containsValue value), s)
  | .containsEntry key value => (.flag (s.containsEntry key value), s)
  | .size => (.count s.size, s)
  | .isEmpty => (.flag s.isEmpty, s)

-- ---------------------------------------------------------------------------
-- Collections of one map
-- ---------------------------------------------------------------------------

variable [DecidableEq κ] {classOf : K → κ}

theorem Lists.perm_of_lists {pairs others : List (K × V)} {m : Reference κ K V}
    (h : Lists classOf pairs m) (h' : Lists classOf others m) : pairs.Perm others := by
  refine (List.perm_ext_iff_of_nodup h.distinct.of_map h'.distinct.of_map).mpr fun pair => ?_
  constructor
  · intro hp
    exact ((h'.lookup _ _).mp (h.lookup_of_mem hp)).1
  · intro hp
    exact ((h.lookup _ _).mp (h'.lookup_of_mem hp)).1

variable [IndexStrategy σ K] [IndexStrategy τ K]

structure Storage.Alike (I : Storage σ K V → Prop) (J : Storage τ K V → Prop) (classOf : K → κ)
    (s : Storage σ K V) (t : Storage τ K V) : Prop where
  left : I s
  right : J t
  oneMap : ∃ m : Reference κ K V, s.Represents classOf m ∧ t.Represents classOf m

theorem Storage.Alike.call [BEq V] {I : Storage σ K V → Prop} {J : Storage τ K V → Prop}
    (f : Faithful classOf I) (g : Faithful classOf J) {s : Storage σ K V} {t : Storage τ K V}
    (h : Alike I J classOf s t) (call : CollectionCall K V) :
    (s.call call).1 = (t.call call).1 ∧ Alike I J classOf (s.call call).2 (t.call call).2 := by
  obtain ⟨m, hs, ht⟩ := h.oneMap
  have found := f.locates h.left
  have found' := g.locates h.right
  cases call with
  | change command =>
    obtain ⟨answer, kept, after⟩ := f.perform h.left hs command
    obtain ⟨answer', kept', after'⟩ := g.perform h.right ht command
    exact ⟨congrArg CallAnswer.changed (answer.trans answer'.symm), kept, kept', _, after, after'⟩
  | get key =>
    refine ⟨congrArg CallAnswer.value ?_, h⟩
    rw [hs.get?_eq found, ht.get?_eq found']
  | contains key =>
    refine ⟨congrArg CallAnswer.flag ?_, h⟩
    rw [hs.contains_eq found, ht.contains_eq found']
  | containsValue value =>
    refine ⟨congrArg CallAnswer.flag ?_, h⟩
    rw [Bool.eq_iff_iff, hs.containsValue_iff, ht.containsValue_iff]
  | containsEntry key value =>
    refine ⟨congrArg CallAnswer.flag ?_, h⟩
    rw [hs.containsEntry_eq found, ht.containsEntry_eq found']
  | size =>
    refine ⟨congrArg CallAnswer.count ?_, h⟩
    rw [hs.size_eq, ht.size_eq]
  | isEmpty =>
    refine ⟨congrArg CallAnswer.flag ?_, h⟩
    have size : s.size = t.size := by rw [hs.size_eq, ht.size_eq]
    rw [Bool.eq_iff_iff, isEmpty, isEmpty, List.isEmpty_iff_length_eq_zero,
      List.isEmpty_iff_length_eq_zero]
    exact Eq.congr_left size

-- ---------------------------------------------------------------------------
-- The sorted entries
-- ---------------------------------------------------------------------------

section Sorting

variable {c : Comparator K} [Std.TransCmp c.compare]

theorem Storage.Sorted.pairs_eq_mergeSort {t : SortedStorage K V} (ht : t.Sorted c)
    {m : Reference c.Class K V} (h : t.Represents c.classOf m) {pairs : List (K × V)}
    (listed : Lists c.classOf pairs m) :
    t.pairs = pairs.mergeSort fun a b => (c.compare a.1 b.1).isLE := by
  have moved := (pairs.mergeSort_perm fun a b => (c.compare a.1 b.1).isLE).symm
  have ordered := ht.ascending.ordered
  rw [h.paired.keys_eq, Comparator.Ordered, List.pairwise_map] at ordered
  have sorted : (pairs.mergeSort fun a b => (c.compare a.1 b.1).isLE).Pairwise
      fun a b => (c.compare a.1 b.1).isLE = true := by
    refine List.pairwise_mergeSort ?_ ?_ pairs
    · exact fun _ _ _ => Std.TransCmp.isLE_trans
    · intro a b
      rw [@Std.OrientedCmp.eq_swap _ c.compare _ b.1 a.1]
      cases c.compare a.1 b.1 <;> rfl
  refine ((h.lists.perm_of_lists listed).trans moved).eq_of_pairwise ?_ ordered sorted
  -- two entries of one class are one entry
  intro a b ha hb below above
  have same := Comparator.classOf_eq_iff.mpr (Std.OrientedCmp.isLE_antisymm below above)
  have found := listed.lookup_of_mem (moved.mem_iff.mpr hb)
  rw [← same, h.lists.lookup_of_mem ha] at found
  exact Option.some.inj found

end Sorting

-- ---------------------------------------------------------------------------
-- The main result
-- ---------------------------------------------------------------------------

/-- Where the order of the keys says the same as equality, the two kinds of collection are one map. -/
theorem linear_and_sorted_answer_alike [BEq K] [BEq V] (c : Comparator K)
    [Std.TransCmp c.compare] [Std.LawfulBEqCmp c.compare] (capacity room : Nat)
    (calls : List (CollectionCall K V)) :
    let linear := run Storage.call (.withCapacity capacity LinearScan.mk) calls
    let sorted := run Storage.call (.withCapacity room (BinarySearch.mk c)) calls
    linear.1 = sorted.1 ∧ linear.2.pairs.Perm sorted.2.pairs ∧ c.Ascending sorted.2.keys ∧
      sorted.2.pairs = linear.2.pairs.mergeSort fun a b => (c.compare a.1 b.1).isLE := by
  intro linear sorted
  have agree : ∀ a b, c.classOf a = c.classOf b ↔ (a == b) = true := fun a b =>
    Comparator.classOf_eq_iff.trans Std.LawfulBEqCmp.compare_eq_iff_beq
  have start : Storage.Alike (fun _ => True) (Storage.Sorted c) c.classOf
      (.withCapacity capacity LinearScan.mk : Storage LinearScan K V)
      (.withCapacity room (BinarySearch.mk c)) :=
    ⟨trivial, Storage.sorted_withCapacity room, ∅, Storage.represents_withCapacity ..,
      Storage.represents_withCapacity ..⟩
  obtain ⟨answers, after⟩ := run_simulates (R := fun _ s t => Storage.Alike _ _ c.classOf s t) start
    (fun _ _ _ call h => h.call (LinearScan.faithful agree) Storage.Sorted.faithful call) calls
  obtain ⟨m, hl, hs⟩ := after.oneMap
  exact ⟨answers, hl.lists.perm_of_lists hs.lists, after.right.ascending,
    after.right.pairs_eq_mergeSort hs hl.lists⟩

/-- A map of numbers and a set of them, in either of the two kinds. -/
theorem numbers_answer_alike :
    let order : Comparator Nat := .natural
    let calls : List (CollectionCall Nat String) :=
      [.change (.extend [(3, "c"), (1, "a"), (3, "d")]), .get 3, .change (.replace 2 "b"),
        .change (.insert 2 "b"), .change (.remove 1), .containsValue "d", .size]
    let elements : List (CollectionCall Nat Unit) :=
      [.change (.insert 2 ()), .change (.insert 1 ()), .change (.insert 2 ()), .contains 1, .size]
    let linear := run Storage.call (.withCapacity 0 LinearScan.mk) calls
    let sorted := run Storage.call (.withCapacity 0 (BinarySearch.mk order)) calls
    linear.1 = sorted.1 ∧ linear.2.pairs = [(3, "d"), (2, "b")] ∧
      sorted.2.pairs = [(2, "b"), (3, "d")] ∧
      (run Storage.call (.withCapacity 0 LinearScan.mk) elements).1 =
        (run Storage.call (.withCapacity 0 (BinarySearch.mk order)) elements).1 := by
  intro order calls elements
  exact ⟨(linear_and_sorted_answer_alike order 0 0 calls).1, by decide +kernel, by decide +kernel,
    (linear_and_sorted_answer_alike order 0 0 elements).1⟩

end LiveCollections
