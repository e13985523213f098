import LiveCollections.Proofs.Storage.Sorted
import LiveCollections.Shelf
import Mathlib.Data.Multiset.ZeroCons

/-!
# Equality of sorted collections

Equality compares the numbers of entries and looks the entries on the left up on the
right, in the way in which the right side finds keys. Nothing is looked up on the left.

If the left order takes two keys for one another whenever the right order does, no two
entries on the left are found at one entry on the right, so that all entries on the right
are met and the answer is the same from the other side. Where each order does so whenever
the other does, equality is therefore symmetric. Where they disagree on two keys it is
not: a collection of the one key and a collection of the other are equal from one side
only.
-/

namespace LiveCollections

-- ---------------------------------------------------------------------------
-- Partners
-- ---------------------------------------------------------------------------

/-- Where no two elements on the left share a partner and there are as many on either side, that
each has a partner pairs them all. -/
theorem rel_of_partners {α β : Type} {P : α → β → Prop} {left : List α} {right : List β}
    (apart : left.Pairwise fun a a' => ∀ b, P a b → ¬ P a' b)
    (size : left.length = right.length) (partners : ∀ a ∈ left, ∃ b ∈ right, P a b) :
    Multiset.Rel P (left : Multiset α) (right : Multiset β) := by
  induction left generalizing right with
  | nil =>
    obtain rfl := List.length_eq_zero_iff.mp size.symm
    exact .zero
  | cons a left ih =>
    obtain ⟨alone, apart⟩ := List.pairwise_cons.mp apart
    obtain ⟨⟨b, hb, matched⟩, partners⟩ := List.forall_mem_cons.mp partners
    obtain ⟨front, back, rfl⟩ := List.append_of_mem hb
    have moved : ((front ++ b :: back : List β) : Multiset β) = b ::ₘ ↑(front ++ back) :=
      Multiset.coe_eq_coe.mpr List.perm_middle
    rw [moved]
    refine .cons matched (ih apart ?_ fun a' ha' => ?_)
    · simp at size ⊢
      omega
    · -- the partner of `a` is no other's
      obtain ⟨b', hb', matched'⟩ := partners a' ha'
      have other : b' ≠ b := by
        rintro rfl
        exact alone a' ha' b' matched matched'
      have rest : b' ∈ front ++ back := by simpa [other] using hb'
      exact ⟨b', rest, matched'⟩

variable {K V : Type} {c d : Comparator K} [Std.TransCmp c.compare] [Std.TransCmp d.compare]

def Covers (d : Comparator K) (P : V → V → Prop) (left right : List (K × V)) : Prop :=
  ∀ e ∈ left, ∃ o ∈ right, d.compare o.1 e.1 = .eq ∧ P o.2 e.2

theorem Covers.symm {P : V → V → Prop} (symmetric : ∀ {v w}, P v w → P w v)
    (finer : ∀ a b, d.compare a b = .eq → c.compare a b = .eq) {left right : List (K × V)}
    (distinct : (left.map fun e => c.classOf e.1).Nodup) (size : left.length = right.length)
    (h : Covers d P left right) : Covers c P right left := by
  -- one on the right would have both its partners in one class
  have apart : left.Pairwise fun e e' => ∀ o : K × V, d.compare o.1 e.1 = .eq ∧ P o.2 e.2 →
      ¬ (d.compare o.1 e'.1 = .eq ∧ P o.2 e'.2) := by
    rw [List.Nodup, List.pairwise_map] at distinct
    refine distinct.imp fun {e e'} different o he he' => different ?_
    have same := Std.TransCmp.eq_trans (Std.OrientedCmp.eq_symm he.1) he'.1
    exact Comparator.classOf_eq_iff.mpr (finer _ _ same)
  have rel := rel_of_partners apart size h
  intro o ho
  obtain ⟨e, he, same, value⟩ :=
    Multiset.exists_mem_of_rel_of_mem (Multiset.rel_flip.mpr rel) (Multiset.mem_coe.mpr ho)
  exact ⟨e, he, Std.OrientedCmp.eq_symm (finer _ _ same), symmetric value⟩

namespace Storage

variable {left right : SortedStorage K V}

omit [Std.TransCmp c.compare] in
theorem sameEntries_iff [BEq V] (h : right.Reached d) :
    left.sameEntries right = true ↔ left.size = right.size ∧
      Covers d (fun v w => (v == w) = true) left.pairs right.pairs := by
  obtain ⟨m, represents⟩ := h.represents
  rw [sameEntries, Bool.and_eq_true, beq_iff_eq, entriesWithin, List.all_eq_true]
  refine and_congr_right fun _ => forall₂_congr fun e _ => ?_
  change right.containsEntry e.1 e.2 = true ↔ _
  rw [containsEntry, Option.any_eq_true]
  simp only [h.sorted.get?_eq_some_iff represents]
  constructor
  · rintro ⟨value, ⟨stored, hs, same⟩, equal⟩
    exact ⟨_, hs, same, equal⟩
  · rintro ⟨⟨stored, value⟩, hs, same, equal⟩
    exact ⟨value, ⟨stored, hs, same⟩, equal⟩

theorem sameElements_iff (h : left.Reached c) (h' : right.Reached d) :
    left.sameElements right = true ↔ left.size = right.size ∧
      Covers d (fun _ _ => True) left.pairs right.pairs := by
  obtain ⟨m, represents⟩ := h'.represents
  rw [sameElements, Bool.and_eq_true, beq_iff_eq, h.paired.keys_eq, List.all_eq_true,
    List.forall_mem_map]
  refine and_congr_right fun _ => forall₂_congr fun e _ => ?_
  rw [h'.sorted.contains_iff represents]
  simp only [and_true]

theorem covers_comm {P : V → V → Prop} (symmetric : ∀ {v w}, P v w → P w v)
    (agree : ∀ a b, c.compare a b = .eq ↔ d.compare a b = .eq) (h : left.Reached c)
    (h' : right.Reached d) :
    left.size = right.size ∧ Covers d P left.pairs right.pairs ↔
      right.size = left.size ∧ Covers c P right.pairs left.pairs := by
  obtain ⟨m, hm⟩ := h.represents
  obtain ⟨n, hn⟩ := h'.represents
  have lengths : left.pairs.length = right.pairs.length ↔ left.size = right.size := by
    rw [hm.paired.length_pairs, hn.paired.length_pairs]
  constructor
  · rintro ⟨size, covers⟩
    exact ⟨size.symm, covers.symm symmetric (fun a b => (agree a b).mpr) hm.lists.distinct
      (lengths.mpr size)⟩
  · rintro ⟨size, covers⟩
    exact ⟨size.symm, covers.symm symmetric (fun a b => (agree a b).mp) hn.lists.distinct
      (lengths.mpr size.symm).symm⟩

theorem sameEntries_comm [BEq V] [PartialEquivBEq V]
    (agree : ∀ a b, c.compare a b = .eq ↔ d.compare a b = .eq) (h : left.Reached c)
    (h' : right.Reached d) : left.sameEntries right = right.sameEntries left := by
  rw [Bool.eq_iff_iff, sameEntries_iff h', sameEntries_iff h]
  exact covers_comm PartialEquivBEq.symm agree h h'

theorem sameElements_comm (agree : ∀ a b, c.compare a b = .eq ↔ d.compare a b = .eq)
    (h : left.Reached c) (h' : right.Reached d) :
    left.sameElements right = right.sameElements left := by
  rw [Bool.eq_iff_iff, sameElements_iff h h', sameElements_iff h' h]
  exact covers_comm id agree h h'

-- ---------------------------------------------------------------------------
-- Collections of one entry
-- ---------------------------------------------------------------------------

def single (c : Comparator K) (key : K) (value : V) : SortedStorage K V :=
  (run Storage.step (.withCapacity 0 ⟨c⟩) [.whole (.insert key value)]).2

omit [Std.TransCmp c.compare] in
theorem reached_single (key : K) (value : V) : (single c key value).Reached c := ⟨0, _, rfl⟩

omit [Std.TransCmp c.compare] in
theorem pairs_single (key : K) (value : V) : (single c key value).pairs = [(key, value)] := by
  have absent : BinarySearch.search ⟨c⟩ [] key = .absent 0 := by
    simp [BinarySearch.search, BinarySearch.halve, BinarySearch.standing]
  simp [single, run, Storage.step, perform, Storage.upsert, indexOf?, insertionIndex,
    IndexStrategy.indexOf, IndexStrategy.insertionIndex, withCapacity, absent, insertAt, pairs,
    growIfFull]

theorem size_single (key : K) (value : V) : (single c key value).size = 1 := by
  rw [← (reached_single key value).paired.length_pairs, pairs_single]
  rfl

theorem sameEntries_single [BEq V] [ReflBEq V] (a b : K) (value : V) :
    (single c a value).sameEntries (single d b value) = true ↔ d.compare b a = .eq := by
  rw [sameEntries_iff (reached_single b value)]
  simp [Covers, pairs_single, size_single]

theorem sameElements_single (a b : K) (value : V) :
    (single c a value).sameElements (single d b value) = true ↔ d.compare b a = .eq := by
  rw [sameElements_iff (reached_single a value) (reached_single b value)]
  simp [Covers, pairs_single, size_single]

end Storage

-- ---------------------------------------------------------------------------
-- Equality from either side
-- ---------------------------------------------------------------------------

namespace Shelf

def Symmetric (c d : Comparator K) (same : Shelf (BinarySearch K) K V → Handle → Handle → Bool) :
    Prop :=
  ∀ (shelf : Shelf (BinarySearch K) K V) (l r : Handle) (left right : SortedStorage K V),
    shelf.read? l = some left → shelf.read? r = some right → left.Reached c → right.Reached d →
      same shelf l r = same shelf r l

/-- One handle is the same as itself, and two are as their storages are. -/
def sameBy (equal : SortedStorage K V → SortedStorage K V → Bool)
    (shelf : Shelf (BinarySearch K) K V) (l r : Handle) : Bool :=
  l == r ||
    match shelf.read? l, shelf.read? r with
    | some left, some right => equal left right
    | _, _ => false

theorem sameMap_eq_sameBy [BEq V] :
    (sameMap : Shelf (BinarySearch K) K V → Handle → Handle → Bool) =
      sameBy Storage.sameEntries := by
  funext shelf l r
  unfold sameMap sameBy
  cases shelf.read? l <;> cases shelf.read? r <;> rfl

theorem sameSet_eq_sameBy :
    (sameSet : Shelf (BinarySearch K) K V → Handle → Handle → Bool) =
      sameBy Storage.sameElements := by
  funext shelf l r
  unfold sameSet sameBy
  cases shelf.read? l <;> cases shelf.read? r <;> rfl

omit [Std.TransCmp c.compare] in
/-- Two orders that disagree on two keys show it on a collection of the one and one of the other. -/
theorem symmetric_sameBy_iff {equal : SortedStorage K V → SortedStorage K V → Bool} (value : V)
    (comm : (∀ a b, c.compare a b = .eq ↔ d.compare a b = .eq) →
      ∀ {left right}, left.Reached c → right.Reached d → equal left right = equal right left)
    (single : ∀ a b, equal (.single c a value) (.single d b value) = true ↔ d.compare b a = .eq)
    (single' : ∀ a b, equal (.single d a value) (.single c b value) = true ↔ c.compare b a = .eq) :
    Symmetric c d (sameBy equal) ↔ ∀ a b, c.compare a b = .eq ↔ d.compare a b = .eq := by
  constructor
  · intro symmetric a b
    have same : equal (.single c a value) (.single d b value) =
        equal (.single d b value) (.single c a value) :=
      symmetric ⟨#[.single c a value, .single d b value]⟩ ⟨0⟩ ⟨1⟩ _ _ rfl rfl
        (Storage.reached_single a value) (Storage.reached_single b value)
    rw [Bool.eq_iff_iff, single, single'] at same
    rw [← same]
    exact ⟨Std.OrientedCmp.eq_symm, Std.OrientedCmp.eq_symm⟩
  · intro agree shelf l r left right hl hr h h'
    simp only [sameBy, hl, hr, comm agree h h', BEq.comm (a := l)]

/-- Equality of sorted maps and of sorted sets is symmetric just where both orders take the same
keys for one another. -/
theorem equality_is_symmetric_iff (c d : Comparator K) [Std.TransCmp c.compare]
    [Std.TransCmp d.compare] [BEq V] [EquivBEq V] [Nonempty V] :
    (Symmetric (V := V) c d sameMap ↔ ∀ a b, c.compare a b = .eq ↔ d.compare a b = .eq) ∧
      (Symmetric (V := Unit) c d sameSet ↔ ∀ a b, c.compare a b = .eq ↔ d.compare a b = .eq) := by
  constructor
  · obtain ⟨value⟩ := ‹Nonempty V›
    rw [sameMap_eq_sameBy]
    exact symmetric_sameBy_iff value (fun agree _ _ h h' => Storage.sameEntries_comm agree h h')
      (fun a b => Storage.sameEntries_single a b value)
      (fun a b => Storage.sameEntries_single a b value)
  · rw [sameSet_eq_sameBy]
    exact symmetric_sameBy_iff () (fun agree _ _ h h' => Storage.sameElements_comm agree h h')
      (fun a b => Storage.sameElements_single a b ())
      (fun a b => Storage.sameElements_single a b ())

/-- An order and its reverse take no two numbers for one another. -/
theorem ascending_and_descending_are_symmetric :
    let up : Comparator Nat := .natural
    Symmetric (V := String) up up.reversed sameMap ∧ Symmetric (V := Unit) up up.reversed sameSet := by
  intro up
  have : Std.TransCmp up.reversed.compare :=
    inferInstanceAs (Std.TransCmp fun a b => up.compare b a)
  have agree : ∀ a b, up.compare a b = .eq ↔ up.reversed.compare a b = .eq :=
    fun _ _ => Std.OrientedCmp.eq_comm
  have ⟨maps, sets⟩ := equality_is_symmetric_iff (V := String) up up.reversed
  exact ⟨maps.mpr agree, sets.mpr agree⟩

/-- A natural order, and one by the last digit, which takes eleven for one. -/
theorem one_is_eleven_from_one_side :
    let left : SortedStorage Nat Unit :=
      (run Storage.step (.withCapacity 0 ⟨.natural⟩) [.whole (.insert 1 ())]).2
    let right : SortedStorage Nat Unit :=
      (run Storage.step (.withCapacity 0 ⟨.byMeasure (· % 10)⟩) [.whole (.insert 11 ())]).2
    let shelf : Shelf (BinarySearch Nat) Nat Unit := ⟨#[left, right]⟩
    shelf.sameSet ⟨0⟩ ⟨1⟩ = true ∧ shelf.sameSet ⟨1⟩ ⟨0⟩ = false := by
  decide +kernel

end Shelf

end LiveCollections
