import LiveCollections.Proofs.Storage.Equality
import LiveCollections.Proofs.Storage.Variants
import Mathlib.Logic.Relation

/-!
# Equality is of contents

Equality counts the entries and looks each entry on the left up on the right; nothing is
looked up on the left. As no two stored keys are taken for one another, no two entries on
the left are found at one on the right, and as many entries as there are on the left use
up the right side. So equal collections match one to one, whatever orders they are stored
in, and equality does not tell one side from the other.

What is in a collection does not depend on the order of two commands to keys that are not
taken for one another. It may show in the order of the entries, but not in equality.
-/

namespace LiveCollections

variable {α γ κ σ A C K V : Type}

-- ---------------------------------------------------------------------------
-- Matching one to one
-- ---------------------------------------------------------------------------

theorem partners_iff_rel {P : α → γ → Prop} {left : List α} {right : List γ}
    (apart : left.Pairwise fun a a' => ∀ b, P a b → ¬ P a' b) :
    (left.length = right.length ∧ ∀ a ∈ left, ∃ b ∈ right, P a b) ↔
      left.length = right.length ∧ Multiset.Rel P (left : Multiset α) (right : Multiset γ) := by
  refine and_congr_right fun size => ⟨rel_of_partners apart size, fun rel a ha => ?_⟩
  simpa using Multiset.exists_mem_of_rel_of_mem rel (Multiset.mem_coe.mpr ha)

-- ---------------------------------------------------------------------------
-- Storages that tell their keys apart
-- ---------------------------------------------------------------------------

namespace Storage

variable [IndexStrategy σ K] {same : K → K → Prop} {s left right : Storage σ K V}

/-- A key is found at a stored one that is taken for it, and no two stored keys are taken for one
another. -/
structure Identifies (same : K → K → Prop) (s : Storage σ K V) : Prop where
  paired : s.Paired
  apart : s.keys.Pairwise fun a b => ¬ same a b
  contains_iff : ∀ key, s.contains key = true ↔ ∃ stored ∈ s.keys, same key stored
  get?_eq_some_iff : ∀ key value,
    s.get? key = some value ↔ ∃ stored, (stored, value) ∈ s.pairs ∧ same key stored

theorem Represents.identifies [DecidableEq κ] {classOf : K → κ} {m : Reference κ K V}
    (agree : ∀ a b, classOf a = classOf b ↔ same a b) (h : s.Represents classOf m)
    (hl : s.Locates classOf) : s.Identifies same := by
  have apart := h.lists.distinct
  rw [List.Nodup, List.pairwise_map] at apart
  refine ⟨h.paired, ?_, fun key => ?_, fun key value => ?_⟩
  · rw [h.paired.keys_eq, List.pairwise_map]
    simpa only [← agree] using apart
  · rw [h.contains_iff hl, h.paired.keys_eq]
    simp [← agree, @eq_comm _ (classOf key)]
  · simp only [h.get?_eq_some_iff hl, ← agree, @eq_comm _ (classOf key)]

namespace Identifies

variable (eqv : Equivalence same)

include eqv

theorem apart_of (h : s.Identifies same) :
    s.keys.Pairwise fun a b => ∀ o, same a o → ¬ same b o :=
  h.apart.imp fun ne _ ha hb => ne (eqv.trans ha (eqv.symm hb))

theorem sameElements_iff (h : left.Identifies same) (h' : right.Identifies same) :
    left.sameElements right = true ↔ left.size = right.size ∧
      Multiset.Rel same (left.keys : Multiset K) (right.keys : Multiset K) := by
  rw [sameElements, Bool.and_eq_true, beq_iff_eq, List.all_eq_true]
  simp only [h'.contains_iff]
  exact partners_iff_rel (h.apart_of eqv)

theorem sameEntries_iff [BEq V] [EquivBEq V] (h : left.Identifies same)
    (h' : right.Identifies same) :
    left.sameEntries right = true ↔ left.size = right.size ∧
      Multiset.Rel (fun e o => same e.1 o.1 ∧ (e.2 == o.2) = true) (left.pairs : Multiset (K × V))
        (right.pairs : Multiset (K × V)) := by
  have apart := h.apart_of eqv
  rw [h.paired.keys_eq, List.pairwise_map] at apart
  have within : left.entriesWithin right = true ↔
      ∀ e ∈ left.pairs, ∃ o ∈ right.pairs, same e.1 o.1 ∧ (e.2 == o.2) = true := by
    rw [entriesWithin, List.all_eq_true]
    refine forall₂_congr fun e _ => ?_
    simp only [containsEntry, Option.any_eq_true, h'.get?_eq_some_iff, Prod.exists]
    constructor
    · rintro ⟨value, ⟨stored, hs, he⟩, equal⟩
      exact ⟨stored, value, hs, he, BEq.symm equal⟩
    · rintro ⟨stored, value, hs, he, equal⟩
      exact ⟨value, ⟨stored, hs, he⟩, BEq.symm equal⟩
  rw [sameEntries, Bool.and_eq_true, beq_iff_eq, within, ← h.paired.length_pairs,
    ← h'.paired.length_pairs]
  exact partners_iff_rel (apart.imp fun ne o ha hb => ne o.1 ha.1 hb.1)

end Identifies

end Storage

-- ---------------------------------------------------------------------------
-- Equality of one kind of storage
-- ---------------------------------------------------------------------------

/-- Equality of storages of one kind, and of handles to them, says that what they contain matches
one to one. -/
structure ContentEquality (kind : Storage σ K V → Prop)
    (equal : Storage σ K V → Storage σ K V → Bool)
    (sameAt : Shelf σ K V → Handle → Handle → Bool) (contents : Storage σ K V → List γ)
    (alike : γ → γ → Prop) : Prop where
  matched : ∀ {left right}, kind left → kind right → (equal left right = true ↔
    left.size = right.size ∧
      Multiset.Rel alike (contents left : Multiset γ) (contents right : Multiset γ))
  refl : ∀ {s}, kind s → equal s s = true
  symm : ∀ {left right}, kind left → kind right → equal left right = equal right left
  trans : ∀ {s t u}, kind s → kind t → kind u → equal s t = true → equal t u = true →
    equal s u = true
  /-- The same handle is not looked into, but reading it would not tell otherwise. -/
  handles : ∀ {shelf l r left right}, shelf.read? l = some left → shelf.read? r = some right →
    kind left → kind right → sameAt shelf l r = equal left right
  copied : ∀ {s}, kind s → equal s s.copy = true ∧ equal s.copy s = true
  /-- The order of what they contain makes no difference. -/
  permuted : ∀ {left right}, kind left → kind right → (contents left).Perm (contents right) →
    equal left right = true

namespace ContentEquality

variable {kind : Storage σ K V → Prop} {equal : Storage σ K V → Storage σ K V → Bool}
  {sameAt : Shelf σ K V → Handle → Handle → Bool} {contents : Storage σ K V → List γ}
  {alike : γ → γ → Prop}

section Matched

variable (eqv : Equivalence alike)
  (matched : ∀ {left right}, kind left → kind right → (equal left right = true ↔
    left.size = right.size ∧
      Multiset.Rel alike (contents left : Multiset γ) (contents right : Multiset γ)))
  (length_contents : ∀ {s}, kind s → (contents s).length = s.size)

include eqv matched

theorem equal_symm {left right : Storage σ K V} (h : kind left) (h' : kind right)
    (same : equal left right = true) : equal right left = true := by
  obtain ⟨size, rel⟩ := (matched h h').mp same
  have back := Multiset.rel_flip.mpr rel
  exact (matched h' h).mpr ⟨size.symm, back.mono fun _ _ _ _ => eqv.symm⟩

theorem equal_trans {s t u : Storage σ K V} (hs : kind s) (ht : kind t) (hu : kind u)
    (first : equal s t = true) (second : equal t u = true) : equal s u = true := by
  have trans : IsTrans γ alike := ⟨fun _ _ _ => eqv.trans⟩
  obtain ⟨size, rel⟩ := (matched hs ht).mp first
  obtain ⟨size', rel'⟩ := (matched ht hu).mp second
  exact (matched hs hu).mpr ⟨size.trans size', rel.trans _ rel'⟩

include length_contents

theorem equal_of_perm {left right : Storage σ K V} (h : kind left) (h' : kind right)
    (perm : (contents left).Perm (contents right)) : equal left right = true := by
  have size : left.size = right.size := by
    rw [← length_contents h, ← length_contents h', perm.length_eq]
  refine (matched h h').mpr ⟨size, ?_⟩
  rw [Multiset.coe_eq_coe.mpr perm]
  exact Multiset.rel_refl_of_refl_on fun x _ => eqv.refl x

theorem of_matched
    (sameAt_eq : ∀ {shelf l r left right}, shelf.read? l = some left → shelf.read? r = some right →
      sameAt shelf l r = (l == r || equal left right))
    (kind_copy : ∀ {s}, kind s → kind s.copy) (contents_copy : ∀ s, contents s.copy = contents s) :
    ContentEquality kind equal sameAt contents alike := by
  have permuted : ∀ {left right}, kind left → kind right →
      (contents left).Perm (contents right) → equal left right = true :=
    equal_of_perm eqv matched length_contents
  refine ⟨matched, fun h => permuted h h (.refl _), fun h h' => ?_, equal_trans eqv matched, ?_,
    fun {s} h => ?_, permuted⟩
  · rw [Bool.eq_iff_iff]
    exact ⟨equal_symm eqv matched h h', equal_symm eqv matched h' h⟩
  · intro shelf l r left right hl hr h h'
    rw [sameAt_eq hl hr]
    by_cases same : l = r
    · subst same
      obtain rfl : left = right := Option.some.inj (hl.symm.trans hr)
      simp [permuted h h (.refl _)]
    · simp [same]
  · have perm : (contents s).Perm (contents s.copy) := .of_eq (contents_copy s).symm
    exact ⟨permuted h (kind_copy h) perm, permuted (kind_copy h) h perm.symm⟩

end Matched

end ContentEquality

structure ComparesContents [IndexStrategy σ K] [BEq V] (same : K → K → Prop)
    (kind : Storage σ K V → Prop) : Prop where
  maps : ContentEquality kind Storage.sameEntries Shelf.sameMap Storage.pairs
    fun e o => same e.1 o.1 ∧ (e.2 == o.2) = true
  sets : ContentEquality kind Storage.sameElements Shelf.sameSet Storage.keys same

namespace ComparesContents

variable [IndexStrategy σ K] [BEq V] {same : K → K → Prop} {kind : Storage σ K V → Prop}

theorem of_identifies [EquivBEq V] (eqv : Equivalence same)
    (identifies : ∀ {s}, kind s → s.Identifies same) (kind_copy : ∀ {s}, kind s → kind s.copy) :
    ComparesContents same kind where
  maps := by
    have eqv' : Equivalence fun e o : K × V => same e.1 o.1 ∧ (e.2 == o.2) = true :=
      ⟨fun e => ⟨eqv.refl _, BEq.rfl⟩, fun h => ⟨eqv.symm h.1, BEq.symm h.2⟩,
        fun h h' => ⟨eqv.trans h.1 h'.1, BEq.trans h.2 h'.2⟩⟩
    refine .of_matched eqv' (fun h h' => (identifies h).sameEntries_iff eqv (identifies h'))
      (fun h => (identifies h).paired.length_pairs) (fun hl hr => ?_) kind_copy fun _ => rfl
    simp [Shelf.sameMap, hl, hr]
  sets := by
    refine .of_matched eqv (fun h h' => (identifies h).sameElements_iff eqv (identifies h'))
      (fun _ => rfl) (fun hl hr => ?_) kind_copy fun _ => rfl
    simp [Shelf.sameSet, hl, hr]

theorem of_represents [DecidableEq κ] {classOf : K → κ} {left right : Storage σ K V}
    {m : Reference κ K V} (h : ComparesContents same kind) (hl : kind left) (hr : kind right)
    (represents : left.Represents classOf m) (represents' : right.Represents classOf m) :
    left.sameEntries right = true ∧ left.sameElements right = true := by
  have entries := represents.lists.perm_of_lists represents'.lists
  have keys : left.keys.Perm right.keys := by
    rw [represents.paired.keys_eq, represents'.paired.keys_eq]
    exact entries.map _
  exact ⟨h.maps.permuted hl hr entries, h.sets.permuted hl hr keys⟩

end ComparesContents

-- ---------------------------------------------------------------------------
-- Linear and sorted collections
-- ---------------------------------------------------------------------------

theorem LinearScan.Reached.identifies [BEq K] [EquivBEq K] {s : Storage LinearScan K V}
    (h : Reached s) : s.Identifies fun a b => (a == b) = true := by
  have agree : ∀ a b : K, classOf a = classOf b ↔ (a == b) = true := fun _ _ => classOf_eq_iff
  obtain ⟨capacity, commands, rfl⟩ := h
  exact (LinearScan.run agree capacity commands).2.identifies agree (locates agree _)

theorem LinearScan.Reached.copy [BEq K] {s : Storage LinearScan K V} (h : Reached s) :
    Reached s.copy := by
  obtain ⟨capacity, commands, rfl⟩ := h
  exact ⟨capacity, commands ++ [.copy], by simp [run_concat, Storage.perform]⟩

/-- A sorted collection of any order that takes the same keys for one another. -/
def Storage.ReachedLike (c : Comparator K) (s : SortedStorage K V) : Prop :=
  ∃ d : Comparator K, Std.TransCmp d.compare ∧ (∀ a b, d.compare a b = .eq ↔ c.compare a b = .eq) ∧
    s.Reached d

theorem Storage.ReachedLike.of_run (c : Comparator K) [Std.TransCmp c.compare] (capacity : Nat)
    (commands : List (SortedCommand K V)) :
    ReachedLike c (LiveCollections.run step (.withCapacity capacity ⟨c⟩) commands).2 :=
  ⟨c, inferInstance, fun _ _ => Iff.rfl, capacity, commands, rfl⟩

theorem Storage.ReachedLike.identifies {c : Comparator K} {s : SortedStorage K V}
    (h : s.ReachedLike c) : s.Identifies fun a b => c.compare a b = .eq := by
  obtain ⟨d, lawful, agree, reached⟩ := h
  obtain ⟨m, represents⟩ := reached.represents
  exact represents.identifies (fun a b => Comparator.classOf_eq_iff.trans (agree a b))
    reached.sorted.locates

theorem Storage.ReachedLike.copy {c : Comparator K} {s : SortedStorage K V}
    (h : s.ReachedLike c) : s.copy.ReachedLike c := by
  obtain ⟨d, lawful, agree, capacity, commands, rfl⟩ := h
  refine ⟨d, lawful, agree, capacity, commands ++ [.whole .copy], ?_⟩
  simp [run_concat, Storage.step, Storage.perform]

-- ---------------------------------------------------------------------------
-- Commands in another order
-- ---------------------------------------------------------------------------

def CollectionCommand.key? : CollectionCommand K V → Option K
  | .insert key _ | .remove key | .replace key _ => some key
  | .extend _ | .clear | .copy => none

def SortedCommand.key? : SortedCommand K V → Option K
  | .whole command => command.key?
  | .insertWithin _ key _ | .removeWithin _ key => some key

/-- Two commands, one after the other, to keys that are not taken for one another change places. -/
inductive Swap (key? : C → Option K) (same : K → K → Prop) : List C → List C → Prop
  | swap {a b : C} {j k : K} (ha : key? a = some j) (hb : key? b = some k) (apart : ¬ same j k)
    (before after : List C) : Swap key? same (before ++ a :: b :: after) (before ++ b :: a :: after)

def Reordered (key? : C → Option K) (same : K → K → Prop) : List C → List C → Prop :=
  Relation.EqvGen (Swap key? same)

namespace Reference

variable [DecidableEq κ] {classOf : K → κ}

def EditsAt (x : κ) (f : Reference κ K V → Reference κ K V) : Prop :=
  ∃ edit : Option (K × V) → Option (K × V),
    ∀ m y, (f m).lookup y = if y = x then edit (m.lookup y) else m.lookup y

theorem EditsAt.comm {x y : κ} (ne : x ≠ y) {f g : Reference κ K V → Reference κ K V}
    (hf : EditsAt x f) (hg : EditsAt y g) (m : Reference κ K V) : f (g m) = g (f m) := by
  obtain ⟨edit, hf⟩ := hf
  obtain ⟨edit', hg⟩ := hg
  refine Finmap.ext_lookup fun z => ?_
  simp only [hf, hg]
  by_cases hx : z = x
  · simp [hx, ne]
  · simp [hx]

theorem EditsAt.refl (x : κ) : EditsAt x fun m : Reference κ K V => m :=
  ⟨fun entry => entry, fun m y => by simp⟩

theorem editsAt_upsert (key : K) (value : V) :
    EditsAt (classOf key) fun m : Reference κ K V => (m.upsert classOf key value).2 := by
  refine ⟨fun entry => some ((entry.map Prod.fst).getD key, value), fun m y => ?_⟩
  by_cases hy : y = classOf key
  · subst hy
    cases hm : m.lookup (classOf key) <;> simp [upsert, hm]
  · cases hm : m.lookup (classOf key) <;> simp [upsert, hm, hy, Finmap.lookup_insert_of_ne]

theorem editsAt_removeKey (key : K) :
    EditsAt (classOf key) fun m : Reference κ K V => (m.removeKey classOf key).2 := by
  refine ⟨fun _ => none, fun m y => ?_⟩
  by_cases hy : y = classOf key
  · subst hy
    simp [removeKey]
  · simp [removeKey, hy, Finmap.lookup_erase_ne]

theorem editsAt_replaceValue (key : K) (value : V) :
    EditsAt (classOf key) fun m : Reference κ K V => (m.replaceValue classOf key value).2 := by
  refine ⟨Option.map fun entry => (entry.1, value), fun m y => ?_⟩
  by_cases hy : y = classOf key
  · subst hy
    cases hm : m.lookup (classOf key) <;> simp [replaceValue, hm]
  · cases hm : m.lookup (classOf key) <;>
      simp [replaceValue, hm, hy, Finmap.lookup_insert_of_ne]

theorem editsAt_perform {command : CollectionCommand K V} {key : K}
    (hk : command.key? = some key) :
    EditsAt (classOf key) fun m : Reference κ K V => (m.perform classOf command).2 := by
  cases command with
  | insert other value =>
    cases hk
    exact editsAt_upsert key value
  | remove other =>
    cases hk
    exact editsAt_removeKey key
  | replace other value =>
    cases hk
    exact editsAt_replaceValue key value
  | extend | clear | copy => cases hk

theorem editsAt_step {c : Comparator K} [Std.TransCmp c.compare] {command : SortedCommand K V}
    {key : K} (hk : command.key? = some key) :
    EditsAt (c.classOf key) fun m : Reference c.Class K V => (m.step c command).2 := by
  cases command with
  | whole command => exact editsAt_perform hk
  | insertWithin w other value =>
    cases hk
    by_cases inside : w.within c key = true
    · simp only [step, if_pos inside]
      exact editsAt_upsert key value
    · simp only [step, if_neg inside]
      exact .refl _
  | removeWithin w other =>
    cases hk
    by_cases inside : w.within c key = true
    · simp only [step, if_pos inside]
      exact editsAt_removeKey key
    · simp only [step, if_neg inside]
      exact .refl _

theorem run_reordered {step : Reference κ K V → C → A × Reference κ K V} {key? : C → Option K}
    {same : K → K → Prop} (agree : ∀ a b, classOf a = classOf b ↔ same a b)
    (edits : ∀ {c key}, key? c = some key → EditsAt (classOf key) fun m => (step m c).2)
    {commands others : List C} (h : Reordered key? same commands others) (m : Reference κ K V) :
    (run step m commands).2 = (run step m others).2 := by
  induction h with
  | rel commands others swapped =>
    obtain ⟨ha, hb, apart, before, after⟩ := swapped
    have comm := EditsAt.comm (fun e => apart ((agree _ _).mp e)) (edits ha) (edits hb)
      (run step m before).2
    simp only [run_append, run_cons, comm]
  | refl commands => rfl
  | symm _ _ _ ih => exact ih.symm
  | trans _ _ _ _ _ ih ih' => exact ih.trans ih'

end Reference

-- ---------------------------------------------------------------------------
-- The main result
-- ---------------------------------------------------------------------------

/-- Equality says that the contents match one to one. It is an equivalence, and blind to the
order in which commands to different keys came. -/
theorem equality_is_of_contents [BEq V] [EquivBEq V] :
    -- linear collections, by equality of keys
    (∀ [BEq K] [EquivBEq K],
      let same : K → K → Prop := fun a b => (a == b) = true
      ComparesContents same (LinearScan.Reached : Storage LinearScan K V → Prop) ∧
      -- however the commands to different keys are mixed
      ∀ capacity room (commands others : List (CollectionCommand K V)),
        Reordered CollectionCommand.key? same commands others →
          let left := (run Storage.perform (.withCapacity capacity LinearScan.mk) commands).2
          let right := (run Storage.perform (.withCapacity room LinearScan.mk) others).2
          left.sameEntries right = true ∧ left.sameElements right = true) ∧
    -- sorted collections, of all orders that take the same keys for one another
    ∀ (c : Comparator K) [Std.TransCmp c.compare],
      let same : K → K → Prop := fun a b => c.compare a b = .eq
      ComparesContents same (Storage.ReachedLike c : SortedStorage K V → Prop) ∧
      ∀ capacity room (commands others : List (SortedCommand K V)),
        Reordered SortedCommand.key? same commands others →
          let left := (run Storage.step (.withCapacity capacity (BinarySearch.mk c)) commands).2
          let right := (run Storage.step (.withCapacity room (BinarySearch.mk c)) others).2
          left.sameEntries right = true ∧ left.sameElements right = true := by
  constructor
  · intro _ _ same
    have eqv : Equivalence same := ⟨fun _ => BEq.rfl, BEq.symm, BEq.trans⟩
    have compares : ComparesContents same (LinearScan.Reached : Storage LinearScan K V → Prop) :=
      .of_identifies eqv (fun h => h.identifies) fun h => h.copy
    refine ⟨compares, fun capacity room commands others reordered => ?_⟩
    have agree : ∀ a b : K, LinearScan.classOf a = LinearScan.classOf b ↔ same a b := fun _ _ =>
      LinearScan.classOf_eq_iff
    obtain ⟨-, represents⟩ := LinearScan.run (V := V) agree capacity commands
    obtain ⟨-, represents'⟩ := LinearScan.run (V := V) agree room others
    rw [← Reference.run_reordered agree Reference.editsAt_perform reordered] at represents'
    exact compares.of_represents ⟨_, _, rfl⟩ ⟨_, _, rfl⟩ represents represents'
  · intro c _ same
    have eqv : Equivalence same :=
      ⟨fun _ => Std.ReflCmp.compare_self, Std.OrientedCmp.eq_symm, Std.TransCmp.eq_trans⟩
    have compares : ComparesContents same (Storage.ReachedLike c : SortedStorage K V → Prop) :=
      .of_identifies eqv (fun h => h.identifies) fun h => h.copy
    refine ⟨compares, fun capacity room commands others reordered => ?_⟩
    have agree : ∀ a b : K, c.classOf a = c.classOf b ↔ same a b := fun _ _ =>
      Comparator.classOf_eq_iff
    obtain ⟨-, -, represents⟩ := Storage.Sorted.run c capacity commands
    obtain ⟨-, -, represents'⟩ := Storage.Sorted.run c room others
    rw [← Reference.run_reordered agree Reference.editsAt_step reordered] at represents'
    exact compares.of_represents (Storage.ReachedLike.of_run c capacity commands)
      (Storage.ReachedLike.of_run c room others) represents represents'

/-- Numbers in ascending and in descending order, inserted in two orders. -/
theorem ascending_and_descending_numbers_are_equal :
    let up : Comparator Nat := .natural
    let left : SortedStorage Nat String :=
      (run Storage.step (.withCapacity 0 ⟨up⟩)
        [.whole (.insert 1 "a"), .whole (.insert 2 "b"), .whole (.remove 7)]).2
    let right : SortedStorage Nat String :=
      (run Storage.step (.withCapacity 4 ⟨up.reversed⟩)
        [.whole (.insert 2 "b"), .whole (.insert 1 "a")]).2
    left.ReachedLike up ∧ right.ReachedLike up ∧
      left.pairs = [(1, "a"), (2, "b")] ∧ right.pairs = [(2, "b"), (1, "a")] ∧
      left.sameEntries right = true ∧ right.sameEntries left = true := by
  intro up left right
  have lawful : Std.TransCmp up.reversed.compare :=
    inferInstanceAs (Std.TransCmp fun a b => up.compare b a)
  have hl : left.ReachedLike up := .of_run up 0 _
  have hr : right.ReachedLike up :=
    ⟨up.reversed, lawful, fun _ _ => Std.OrientedCmp.eq_comm, 4, _, rfl⟩
  have maps := ((equality_is_of_contents (K := Nat) (V := String)).2 up).1.maps
  have entries : left.pairs.Perm right.pairs := by decide +kernel
  exact ⟨hl, hr, by decide +kernel, by decide +kernel, maps.permuted hl hr entries,
    maps.permuted hr hl entries.symm⟩

end LiveCollections
