import LiveCollections.Proofs.Multimap.Attachment
import LiveCollections.Proofs.Multimap.Reading

/-!
# Equality and hashes of multimaps

Equality and the content hash read a multimap through its snapshot, which names each
key with a value once. Two snapshots are the same just when they hold the same pairs, and
then they have the same hash: sums do not show the order of what they add up, neither that
of the keys nor that of the values of a key. Nothing is asked of the hash of an element but
that it is a function of the element.
-/

namespace LiveCollections

theorem Hash.total_perm {hashes others : List UInt64} (h : hashes.Perm others) :
    total hashes = total others := by
  unfold total
  exact h.foldr_eq 0

namespace Multimap

open Store (groupHash)

variable {K V : Type}

-- ---------------------------------------------------------------------------
-- Snapshots with the same pairs
-- ---------------------------------------------------------------------------

namespace Snapshot

variable [DecidableEq K] {s t : Snapshot K V}

theorem contents_of_mem (h : s.WellFormed) {key : K} {values : ValueSet V}
    (hg : (key, values) ∈ s.groups) : s.contents key = values := by
  have found := (Store.lookup_eq_some_iff_mem h.distinct).mpr hg
  rw [contents, found]
  rfl

theorem mem_keys (h : s.WellFormed) {key : K} :
    key ∈ s.groups.map Prod.fst ↔ ∃ value, value ∈ s.contents key := by
  constructor
  · intro hk
    obtain ⟨⟨_, values⟩, hg, rfl⟩ := List.mem_map.mp hk
    obtain ⟨value, hv⟩ := ValueSet.isEmpty_eq_false_iff.mp (h.nonempty _ hg)
    rw [contents_of_mem h hg]
    exact ⟨value, hv⟩
  · rintro ⟨value, hv⟩
    obtain ⟨values, hg, -⟩ := mem_groupPairs.mp ((mem_contents h).mp hv)
    exact List.mem_map.mpr ⟨_, hg, rfl⟩

theorem perm_keys (h : s.WellFormed) (h' : t.WellFormed)
    (same : ∀ key value, value ∈ s.contents key ↔ value ∈ t.contents key) :
    (s.groups.map Prod.fst).Perm (t.groups.map Prod.fst) := by
  refine (List.perm_ext_iff_of_nodup h.distinct h'.distinct).mpr fun key => ?_
  rw [mem_keys h, mem_keys h']
  exact exists_congr (same key)

variable [DecidableEq V]

theorem lookup_same_iff {key : K} {values : ValueSet V}
    (present : ∃ value, value ∈ values) :
    (t.groups.lookup key).any values.same = true ↔
      ∀ value, value ∈ values ↔ value ∈ t.contents key := by
  unfold contents
  cases hl : t.groups.lookup key with
  | some others => exact ValueSet.same_eq_true_iff
  | none =>
    refine ⟨nofun, fun same => ?_⟩
    obtain ⟨value, hv⟩ := present
    exact absurd ((same value).mp hv) ValueSet.not_mem_empty

/-- A snapshot with as many keys as another, all of them with the same values there, has the pairs
of the other. -/
theorem same_eq_true_iff (h : s.WellFormed) (h' : t.WellFormed) :
    s.same t = true ↔ ∀ key value, value ∈ s.contents key ↔ value ∈ t.contents key := by
  have groups : (s.groups.all fun group => (t.groups.lookup group.1).any group.2.same) = true ↔
      ∀ key ∈ s.groups.map Prod.fst, ∀ value, value ∈ s.contents key ↔ value ∈ t.contents key := by
    rw [List.all_eq_true, List.forall_mem_map]
    refine forall₂_congr fun group hg => ?_
    rw [lookup_same_iff (ValueSet.isEmpty_eq_false_iff.mp (h.nonempty _ hg)),
      contents_of_mem h hg]
  rw [same, Bool.and_eq_true, beq_iff_eq, groups]
  constructor
  · rintro ⟨count, agree⟩ key value
    -- the keys of `s` are keys of `t`, and there are as many of them
    have inside : s.groups.map Prod.fst ⊆ t.groups.map Prod.fst := by
      intro other ho
      obtain ⟨v, hv⟩ := (mem_keys h).mp ho
      exact (mem_keys h').mpr ⟨v, (agree other ho v).mp hv⟩
    have all := (List.subperm_of_subset h.distinct inside).perm_of_length_le
      (by simpa [keyCount] using Nat.le_of_eq count.symm)
    by_cases hk : key ∈ s.groups.map Prod.fst
    · exact agree key hk value
    · have absent : key ∉ t.groups.map Prod.fst := fun ht => hk (all.mem_iff.mpr ht)
      rw [mem_keys h, not_exists] at hk
      rw [mem_keys h', not_exists] at absent
      exact iff_of_false (hk value) (absent value)
  · intro agree
    have keys := (perm_keys h h' agree).length_eq
    rw [List.length_map, List.length_map] at keys
    exact ⟨keys, fun key _ => agree key⟩

end Snapshot

-- ---------------------------------------------------------------------------
-- Hashes
-- ---------------------------------------------------------------------------

/-- `t` lists the slots of a table and the values of each set in orders of its own, and may have
other slots without values. -/
structure Store.Reordered (s : Store K V) (m : TableId) (t : Store K V) (n : TableId) : Prop where
  slots : ((s.table m).slots.filter fun slot => !(s.values slot.2).isEmpty).Perm
    ((t.table n).slots.filter fun slot => !(t.values slot.2).isEmpty)
  elements : ∀ id, (s.values id).elements.Perm (t.values id).elements

variable [Hash.Hashed K] [Hash.Hashed V]

theorem groupHash_congr (key : K) {values others : ValueSet V}
    (h : values.elements.Perm others.elements) :
    groupHash (key, values) = groupHash (key, others) := by
  unfold groupHash
  rw [Hash.total_perm (h.map Hash.ofElement)]

def Snapshot.hash (s : Snapshot K V) : UInt64 := Hash.total (s.groups.map groupHash)

theorem Store.contentHash_eq_hash (s : Store K V) (m : TableId) :
    s.contentHash m = (s.snapshot m).hash := rfl

theorem Snapshot.hash_eq_total [DecidableEq K] {s : Snapshot K V} (h : s.WellFormed) :
    s.hash = Hash.total ((s.groups.map Prod.fst).map fun key => groupHash (key, s.contents key)) := by
  unfold hash
  rw [List.map_map]
  refine congrArg Hash.total (List.map_congr_left fun group hg => ?_)
  rw [Function.comp, contents_of_mem h hg]

theorem Snapshot.hash_congr [DecidableEq K] [DecidableEq V] {s t : Snapshot K V}
    (h : s.WellFormed) (h' : t.WellFormed)
    (same : ∀ key value, value ∈ s.contents key ↔ value ∈ t.contents key) : s.hash = t.hash := by
  have keys := perm_keys h h' same
  have groups : ∀ key, groupHash (key, s.contents key) = groupHash (key, t.contents key) :=
    fun key => groupHash_congr key (ValueSet.perm_of_mem_iff (same key))
  rw [hash_eq_total h, hash_eq_total h', funext groups]
  exact Hash.total_perm (keys.map _)

-- ---------------------------------------------------------------------------
-- Multimaps
-- ---------------------------------------------------------------------------

namespace Store

variable [DecidableEq K]

omit [Hash.Hashed K] [Hash.Hashed V] in
theorem mem_contents_snapshot {s : Store K V} (h : s.WellFormed) (m : TableId) (key : K)
    (value : V) : value ∈ (s.snapshot m).contents key ↔ (key, value) ∈ s.pairs m := by
  rw [Snapshot.mem_contents (wellFormed_snapshot h m), mem_pairs_snapshot h, mem_pairs h]

variable [DecidableEq V]

omit [Hash.Hashed K] [Hash.Hashed V] in
theorem sameContents_eq_true_iff {s : Store K V} (h : s.WellFormed) (m n : TableId) :
    s.sameContents m n = true ↔ ∀ pair, pair ∈ s.pairs m ↔ pair ∈ s.pairs n := by
  rw [sameContents, Bool.or_eq_true, beq_iff_eq,
    Snapshot.same_eq_true_iff (wellFormed_snapshot h m) (wellFormed_snapshot h n)]
  simp only [mem_contents_snapshot h, Prod.forall]
  constructor
  · rintro (rfl | same)
    · exact fun _ _ => Iff.rfl
    · exact same
  · exact .inr

theorem contentHash_congr {s t : Store K V} (h : s.WellFormed) (h' : t.WellFormed) {m n : TableId}
    (same : ∀ pair, pair ∈ s.pairs m ↔ pair ∈ t.pairs n) : s.contentHash m = t.contentHash n := by
  rw [contentHash_eq_hash, contentHash_eq_hash]
  refine Snapshot.hash_congr (wellFormed_snapshot h m) (wellFormed_snapshot h' n) fun key value => ?_
  rw [mem_contents_snapshot h, mem_contents_snapshot h']
  exact same (key, value)

end Store

open Session (after)

end Multimap

end LiveCollections
