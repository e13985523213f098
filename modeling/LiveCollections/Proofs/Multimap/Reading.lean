import LiveCollections.Multimap.Contents
import LiveCollections.Proofs.Multimap.Creation

/-!
# What readers see

Every reader of a multimap is read here as a statement about the values that each
key has. Slots without values, which a table may hold at any time, are seen by none
of them. The same is said of snapshots, and every way to get a snapshot gives one
that names each key once and no key without values.
-/

namespace LiveCollections.Multimap

variable {K V : Type}

-- ---------------------------------------------------------------------------
-- Groups
-- ---------------------------------------------------------------------------

def groupPairs (groups : List (K × ValueSet V)) : List (K × V) :=
  groups.flatMap fun group => group.2.elements.map fun value => (group.1, value)

theorem groupPairs_cons (group : K × ValueSet V) (groups : List (K × ValueSet V)) :
    groupPairs (group :: groups) =
      (group.2.elements.map fun value => (group.1, value)) ++ groupPairs groups := rfl

theorem mem_groupPairs {groups : List (K × ValueSet V)} {key : K} {value : V} :
    (key, value) ∈ groupPairs groups ↔ ∃ values, (key, values) ∈ groups ∧ value ∈ values := by
  simp only [groupPairs, List.mem_flatMap, List.mem_map, Prod.mk.injEq]
  constructor
  · rintro ⟨⟨k, values⟩, hg, v, hv, rfl, rfl⟩
    exact ⟨values, hg, hv⟩
  · rintro ⟨values, hg, hv⟩
    exact ⟨_, hg, value, hv, rfl, rfl⟩

theorem length_groupPairs (groups : List (K × ValueSet V)) :
    (groupPairs groups).length = valueCount groups := by
  induction groups with
  | nil => rfl
  | cons group groups ih =>
    rw [groupPairs_cons, List.length_append, List.length_map, ih]
    rfl

theorem nodup_groupPairs {groups : List (K × ValueSet V)} (h : (groups.map Prod.fst).Nodup) :
    (groupPairs groups).Nodup := by
  induction groups with
  | nil => exact .nil
  | cons group groups ih =>
    obtain ⟨hk, hs⟩ := List.nodup_cons.mp h
    rw [groupPairs_cons, List.nodup_append]
    refine ⟨?_, ih hs, ?_⟩
    · exact group.2.nodup.map fun _ _ e => (Prod.mk.inj e).2
    · rintro ⟨key, value⟩ hp q hq rfl
      obtain ⟨_, _, e⟩ := List.mem_map.mp hp
      obtain ⟨values, hg, -⟩ := mem_groupPairs.mp hq
      have e : group.1 = key := congrArg Prod.fst e
      exact hk (e ▸ List.mem_map.mpr ⟨_, hg, rfl⟩)

theorem mem_keys_iff {groups : List (K × ValueSet V)} {key : K} :
    key ∈ (groups.filter fun group => !group.2.isEmpty).map Prod.fst ↔
      ∃ value, (key, value) ∈ groupPairs groups := by
  simp only [mem_groupPairs, List.mem_map, List.mem_filter, Bool.not_eq_true',
    ValueSet.isEmpty_eq_false_iff]
  constructor
  · rintro ⟨⟨k, values⟩, ⟨hg, value, hv⟩, rfl⟩
    exact ⟨value, values, hg, hv⟩
  · rintro ⟨value, values, hg, hv⟩
    exact ⟨_, ⟨hg, value, hv⟩, rfl⟩

-- ---------------------------------------------------------------------------
-- Snapshots
-- ---------------------------------------------------------------------------

namespace Snapshot

theorem pairs_eq (s : Snapshot K V) : s.pairs = groupPairs s.groups := rfl

theorem mem_pairs_ofGroups {groups : List (K × ValueSet V)} {key : K} {value : V} :
    (key, value) ∈ (ofGroups groups).pairs ↔ (key, value) ∈ groupPairs groups := by
  simp only [pairs_eq, mem_groupPairs, ofGroups, List.mem_filter, Bool.not_eq_true',
    ValueSet.isEmpty_eq_false_iff]
  constructor
  · rintro ⟨values, ⟨hg, -⟩, hv⟩
    exact ⟨values, hg, hv⟩
  · rintro ⟨values, hg, hv⟩
    exact ⟨values, ⟨hg, value, hv⟩, hv⟩

theorem wellFormed_ofGroups {groups : List (K × ValueSet V)} (h : (groups.map Prod.fst).Nodup) :
    (ofGroups groups).WellFormed where
  distinct := (List.filter_sublist.map Prod.fst).nodup h
  nonempty group hg := by simpa using (List.mem_filter.mp hg).2

variable [DecidableEq K]

theorem mem_contents {s : Snapshot K V} (h : s.WellFormed) {key : K} {value : V} :
    value ∈ s.contents key ↔ (key, value) ∈ s.pairs := by
  rw [pairs_eq, mem_groupPairs, contents]
  cases hl : s.groups.lookup key with
  | none =>
    refine ⟨fun hv => absurd hv ValueSet.not_mem_empty, ?_⟩
    rintro ⟨values, hg, -⟩
    rw [(Store.lookup_eq_some_iff_mem h.distinct).mpr hg] at hl
    cases hl
  | some values =>
    have hg := (Store.lookup_eq_some_iff_mem h.distinct).mp hl
    refine ⟨fun hv => ⟨values, hg, hv⟩, ?_⟩
    rintro ⟨others, ho, hv⟩
    rw [(Store.lookup_eq_some_iff_mem h.distinct).mpr ho] at hl
    cases hl
    exact hv

theorem latest_sublist (entries : List (K × List V)) : (latest entries).Sublist entries := by
  induction entries with
  | nil => exact .slnil
  | cons entry rest ih =>
    rw [latest]
    split
    · exact ih.cons entry
    · exact ih.cons_cons entry

theorem nodup_latest (entries : List (K × List V)) : ((latest entries).map Prod.fst).Nodup := by
  induction entries with
  | nil => exact .nil
  | cons entry rest ih =>
    rw [latest]
    split
    · exact ih
    · rename_i last
      refine List.nodup_cons.mpr ⟨fun hm => last ?_, ih⟩
      obtain ⟨later, hl, he⟩ := List.mem_map.mp hm
      exact List.any_eq_true.mpr ⟨later, (latest_sublist rest).subset hl, by simpa using he⟩

variable [DecidableEq V]

theorem wellFormed_ofList (entries : List (K × List V)) : (ofList entries).WellFormed := by
  refine wellFormed_ofGroups ?_
  rw [List.map_map]
  exact nodup_latest entries

theorem keys_mergeInto (groups : List (K × ValueSet V)) (entry : K × List V) :
    (mergeInto groups entry).map Prod.fst =
      if entry.1 ∈ groups.map Prod.fst then groups.map Prod.fst
      else groups.map Prod.fst ++ [entry.1] := by
  induction groups with
  | nil => rfl
  | cons group rest ih =>
    rw [mergeInto]
    by_cases he : group.1 = entry.1
    · simp [he]
    · have hm : entry.1 ∈ (group :: rest).map Prod.fst ↔ entry.1 ∈ rest.map Prod.fst := by
        simp [Ne.symm he]
      rw [if_neg he, List.map_cons, ih]
      simp only [hm]
      split <;> rfl

theorem nodup_mergeInto {groups : List (K × ValueSet V)} (h : (groups.map Prod.fst).Nodup)
    (entry : K × List V) : ((mergeInto groups entry).map Prod.fst).Nodup := by
  rw [keys_mergeInto]
  split
  · exact h
  · rename_i absent
    refine List.nodup_append.mpr ⟨h, List.nodup_singleton _, fun key hk other ho => ?_⟩
    rw [List.mem_singleton.mp ho]
    exact fun e => absent (e ▸ hk)

theorem wellFormed_ofEntries (entries : List (K × List V)) : (ofEntries entries).WellFormed := by
  have distinct : ∀ groups : List (K × ValueSet V), (groups.map Prod.fst).Nodup →
      ((entries.foldl mergeInto groups).map Prod.fst).Nodup := by
    induction entries with
    | nil => exact fun _ h => h
    | cons entry rest ih => exact fun groups h => ih _ (nodup_mergeInto h entry)
  exact wellFormed_ofGroups (distinct [] .nil)

end Snapshot

-- ---------------------------------------------------------------------------
-- Readers
-- ---------------------------------------------------------------------------

namespace Store

variable {s : Store K V}

theorem pairs_eq (s : Store K V) (m : TableId) : s.pairs m = groupPairs (s.slotGroups m) := rfl

theorem size_eq_length_pairs (s : Store K V) (m : TableId) : s.size m = (s.pairs m).length :=
  (length_groupPairs _).symm

theorem isEmpty_iff_pairs (s : Store K V) (m : TableId) :
    s.isEmpty m = true ↔ s.pairs m = [] := by
  simp [isEmpty, pairs, ValueSet.isEmpty]

variable [DecidableEq K]

theorem nodup_slotGroups (h : s.WellFormed) (m : TableId) :
    ((s.slotGroups m).map Prod.fst).Nodup := by
  rw [slotGroups, List.map_map]
  exact h.distinct m

theorem wellFormed_snapshot (h : s.WellFormed) (m : TableId) : (s.snapshot m).WellFormed :=
  Snapshot.wellFormed_ofGroups (nodup_slotGroups h m)

theorem nodup_pairs (h : s.WellFormed) (m : TableId) : (s.pairs m).Nodup :=
  nodup_groupPairs (nodup_slotGroups h m)

theorem nodup_keys (h : s.WellFormed) (m : TableId) : (s.keys m).Nodup :=
  (wellFormed_snapshot h m).distinct

theorem mem_pairs (h : s.WellFormed) {m : TableId} {key : K} {value : V} :
    (key, value) ∈ s.pairs m ↔ value ∈ s.contents m key := by
  rw [pairs_eq, mem_groupPairs]
  simp only [slotGroups, List.mem_map, Prod.mk.injEq]
  constructor
  · rintro ⟨values, ⟨⟨k, id⟩, hs, rfl, rfl⟩, hv⟩
    rwa [contents_of_slot? (h.slot?_eq_some_iff.mpr hs)]
  · intro hv
    cases hk : s.slot? m key with
    | none =>
      rw [contents_of_slot?_eq_none hk] at hv
      exact absurd hv ValueSet.not_mem_empty
    | some id =>
      rw [contents_of_slot? hk] at hv
      exact ⟨s.values id, ⟨_, h.slot?_eq_some_iff.mp hk, rfl, rfl⟩, hv⟩

theorem mem_pairs_snapshot (h : s.WellFormed) {m : TableId} {key : K} {value : V} :
    (key, value) ∈ (s.snapshot m).pairs ↔ value ∈ s.contents m key := by
  rw [snapshot, Snapshot.mem_pairs_ofGroups, ← pairs_eq, mem_pairs h]

theorem mem_keys (h : s.WellFormed) {m : TableId} {key : K} :
    key ∈ s.keys m ↔ ∃ value, value ∈ s.contents m key := by
  simp only [keys, mem_keys_iff, ← pairs_eq, mem_pairs h]

theorem containsKey_iff (m : TableId) (key : K) :
    s.containsKey m key = true ↔ ∃ value, value ∈ s.contents m key := by
  unfold containsKey contents
  cases s.slot? m key with
  | none => simp
  | some id => simp [ValueSet.isEmpty_eq_false_iff]

variable [DecidableEq V]

theorem containsEntry_eq (m : TableId) (key : K) (value : V) :
    s.containsEntry m key value = (s.contents m key).contains value := by
  unfold containsEntry contents
  cases s.slot? m key <;> simp

theorem containsValue_iff (h : s.WellFormed) (m : TableId) (value : V) :
    s.containsValue m value = true ↔ ∃ key, value ∈ s.contents m key := by
  simp only [containsValue, List.any_eq_true, ValueSet.contains_eq_true_iff, ← mem_pairs h,
    pairs_eq, mem_groupPairs]
  constructor
  · rintro ⟨⟨key, values⟩, hg, hv⟩
    exact ⟨key, values, hg, hv⟩
  · rintro ⟨key, values, hg, hv⟩
    exact ⟨_, hg, hv⟩

end Store

end LiveCollections.Multimap
