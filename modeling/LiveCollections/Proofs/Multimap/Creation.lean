import LiveCollections.Multimap.Snapshot
import LiveCollections.Proofs.Multimap.Changes

/-!
# Making a multimap

A new table is empty, collected from pairs, or restored from a snapshot. The sets
of a restored table are all fresh, so that no view there is so far holds one of
them, and nothing else in the store changes.
-/

namespace LiveCollections.Multimap

variable {K V : Type}

/-- Every key once, and none without values. -/
structure Snapshot.WellFormed (s : Snapshot K V) : Prop where
  distinct : (s.groups.map Prod.fst).Nodup
  nonempty : ∀ group ∈ s.groups, group.2.isEmpty = false

def Snapshot.contents [DecidableEq K] (s : Snapshot K V) (key : K) : ValueSet V :=
  (s.groups.lookup key).getD .empty

namespace Store

def freshSlots (base : Nat) (groups : List (K × ValueSet V)) : List (K × SetId) :=
  groups.mapIdx fun i group => (group.1, ⟨base + i⟩)

theorem freshSlots_cons (base : Nat) (group : K × ValueSet V) (groups : List (K × ValueSet V)) :
    freshSlots base (group :: groups) = (group.1, ⟨base⟩) :: freshSlots (base + 1) groups := by
  simp [freshSlots, List.mapIdx_cons, Nat.add_comm, Nat.add_left_comm]

theorem newSets_eq (s : Store K V) (groups : List (K × ValueSet V)) :
    s.newSets groups = (freshSlots s.sets.size groups,
      { s with sets := s.sets ++ (groups.map Prod.snd).toArray }) := by
  induction groups generalizing s with
  | nil => simp [newSets, freshSlots]
  | cons group groups ih =>
    have step : s.newSets (group :: groups) =
        ((group.1, ⟨s.sets.size⟩) :: ((s.newSet group.2).2.newSets groups).1,
          ((s.newSet group.2).2.newSets groups).2) := rfl
    rw [step, ih, freshSlots_cons]
    simp [newSet]

theorem keys_freshSlots (base : Nat) (groups : List (K × ValueSet V)) :
    (freshSlots base groups).map Prod.fst = groups.map Prod.fst := by
  induction groups generalizing base with
  | nil => rfl
  | cons group groups ih => simp [freshSlots_cons, ih]

theorem restore_eq (s : Store K V) (snapshot : Snapshot K V) :
    s.restore snapshot = (⟨s.tables.size⟩,
      { s with sets := s.sets ++ (snapshot.groups.map Prod.snd).toArray,
               tables := s.tables.push { slots := freshSlots s.sets.size snapshot.groups } }) := by
  rw [restore, newSets_eq]
  rfl

section

variable (s : Store K V) (snapshot : Snapshot K V)

theorem size_sets_restore :
    (s.restore snapshot).2.sets.size = s.sets.size + snapshot.groups.length := by
  simp [restore_eq]

theorem values_restore_of_lt {id : SetId} (h : id.index < s.sets.size) :
    (s.restore snapshot).2.values id = s.values id := by
  simp [restore_eq, Store.values, Array.getElem?_append, h]

theorem values_restore_fresh {i : Nat} {key : K} {values : ValueSet V}
    (h : snapshot.groups[i]? = some (key, values)) :
    (s.restore snapshot).2.values ⟨s.sets.size + i⟩ = values := by
  have hi : ¬ s.sets.size + i < s.sets.size := Nat.not_lt_of_le (Nat.le_add_right ..)
  simp [restore_eq, Store.values, Array.getElem?_append, h, hi]

variable {snapshot} in
theorem nonempty_restore (hs : snapshot.WellFormed) :
    ∀ slot ∈ freshSlots s.sets.size snapshot.groups,
      ((s.restore snapshot).2.values slot.2).isEmpty = false := by
  intro slot hslot
  obtain ⟨i, hi, rfl⟩ := List.mem_mapIdx.mp hslot
  rw [values_restore_fresh s snapshot (List.getElem?_eq_getElem hi)]
  exact hs.nonempty _ (List.getElem_mem hi)

theorem table_restore (n : TableId) :
    (s.restore snapshot).2.table n = if n = ⟨s.tables.size⟩ then
      { slots := freshSlots s.sets.size snapshot.groups } else s.table n := by
  by_cases hn : n = ⟨s.tables.size⟩
  · subst hn
    simp [restore_eq, Store.table]
  · have hi : n.index ≠ s.tables.size := fun e => hn (congrArg TableId.mk e)
    simp [restore_eq, Store.table, Array.getElem?_push, hi, hn]

theorem slot?_restore [DecidableEq K] (n : TableId) (key : K) :
    (s.restore snapshot).2.slot? n key = if n = ⟨s.tables.size⟩ then
      (freshSlots s.sets.size snapshot.groups).lookup key else s.slot? n key := by
  rw [slot?, table_restore]
  split <;> rfl

end

section

variable [DecidableEq K] {s : Store K V}

theorem lookup_freshSlots_eq_some {base : Nat} {groups : List (K × ValueSet V)} {key : K}
    {id : SetId} (h : (freshSlots base groups).lookup key = some id) :
    ∃ i values, id = ⟨base + i⟩ ∧ groups[i]? = some (key, values) ∧
      groups.lookup key = some values := by
  induction groups generalizing base with
  | nil => simp [freshSlots] at h
  | cons group groups ih =>
    rw [freshSlots_cons, List.lookup_cons] at h
    by_cases he : key = group.1
    · subst he
      simp only [beq_self_eq_true, Option.some.injEq] at h
      exact ⟨0, group.2, h.symm, rfl, List.lookup_cons_self⟩
    · rw [beq_false_of_ne he] at h
      obtain ⟨i, values, rfl, hi, hl⟩ := ih h
      refine ⟨i + 1, values, congrArg SetId.mk (by omega), hi, ?_⟩
      rwa [List.lookup_cons, beq_false_of_ne he]

theorem lookup_freshSlots_eq_none {base : Nat} {groups : List (K × ValueSet V)} {key : K}
    (h : (freshSlots base groups).lookup key = none) : groups.lookup key = none := by
  induction groups generalizing base with
  | nil => rfl
  | cons group groups ih =>
    rw [freshSlots_cons, List.lookup_cons] at h
    rw [List.lookup_cons]
    split at h
    · cases h
    · exact ih h

theorem wellFormed_restore (h : s.WellFormed) {snapshot : Snapshot K V}
    (hs : snapshot.WellFormed) : (s.restore snapshot).2.WellFormed := by
  refine ⟨fun n => ?_, ?_, fun id hid => ?_, ?_⟩
  · rw [table_restore]
    split
    · exact (keys_freshSlots ..).symm ▸ hs.distinct
    · exact h.distinct n
  · intro n key id hk
    rw [size_sets_restore]
    rw [slot?_restore] at hk
    split at hk
    · obtain ⟨i, values, rfl, hi, -⟩ := lookup_freshSlots_eq_some hk
      exact Nat.add_lt_add_left (List.getElem?_eq_some_iff.mp hi).1 _
    · exact Nat.lt_add_right _ (h.allocated hk)
  · have hid : id ∈ s.held := by rwa [restore_eq] at hid
    rw [size_sets_restore]
    exact Nat.lt_add_right _ (h.heldAllocated id hid)
  · intro n₁ k₁ n₂ k₂ id h₁ h₂
    rw [slot?_restore] at h₁ h₂
    split at h₁ <;> split at h₂
    · rename_i e₁ e₂
      obtain ⟨i, values, rfl, hi, -⟩ := lookup_freshSlots_eq_some h₁
      obtain ⟨j, others, he, hj, -⟩ := lookup_freshSlots_eq_some h₂
      have same : i = j := by simpa using he
      subst same
      rw [hi] at hj
      cases hj
      exact ⟨e₂.trans e₁.symm, rfl⟩
    · obtain ⟨i, values, rfl, -, -⟩ := lookup_freshSlots_eq_some h₁
      exact absurd h₂ (h.slot?_ne_of_size_le (Nat.le_add_right ..) n₂ k₂)
    · obtain ⟨i, values, rfl, -, -⟩ := lookup_freshSlots_eq_some h₂
      exact absurd h₁ (h.slot?_ne_of_size_le (Nat.le_add_right ..) n₁ k₁)
    · exact h.apart h₁ h₂

theorem contents_restore (h : s.WellFormed) (snapshot : Snapshot K V) (n : TableId) (key : K) :
    (s.restore snapshot).2.contents n key =
      if n = ⟨s.tables.size⟩ then snapshot.contents key else s.contents n key := by
  rw [contents, slot?_restore]
  by_cases hn : n = ⟨s.tables.size⟩
  · rw [if_pos hn, if_pos hn, Snapshot.contents]
    cases hk : (freshSlots s.sets.size snapshot.groups).lookup key with
    | none =>
      rw [lookup_freshSlots_eq_none hk]
      rfl
    | some id =>
      obtain ⟨i, values, rfl, hi, hl⟩ := lookup_freshSlots_eq_some hk
      rw [hl]
      exact values_restore_fresh s snapshot hi
  · rw [if_neg hn, if_neg hn]
    cases hk : s.slot? n key with
    | none => exact (contents_of_slot?_eq_none hk).symm
    | some id =>
      rw [contents_of_slot? hk]
      exact values_restore_of_lt s snapshot (h.allocated hk)

theorem restore_effect (h : s.WellFormed) {snapshot : Snapshot K V} (hs : snapshot.WellFormed) :
    (s.restore snapshot).1 = ⟨s.tables.size⟩ ∧
      Effect s (s.restore snapshot).2 1
        (fun n key values => if n = ⟨s.tables.size⟩ then snapshot.contents key else values)
        never := by
  have absent : ∀ key, s.slot? ⟨s.tables.size⟩ key = none := slot?_of_size_le (Nat.le_refl _)
  refine ⟨by rw [restore_eq], wellFormed_restore h hs, ⟨?_, fun {n key id} hk => ?_⟩,
    by rw [restore_eq], by simp [restore_eq], ?_, ?_, ?_, contents_restore h snapshot⟩
  · rw [size_sets_restore]
    exact Nat.le_add_right ..
  · rw [slot?_restore] at hk
    split at hk
    · obtain ⟨i, values, rfl, -, -⟩ := lookup_freshSlots_eq_some hk
      exact .inr (Nat.le_add_right ..)
    · exact .inl hk
  · intro id hid n key
    rw [slot?_restore]
    split
    · rename_i e
      subst e
      rw [absent]
      constructor
      · intro hk
        obtain ⟨i, values, rfl, -, -⟩ := lookup_freshSlots_eq_some hk
        exact absurd (h.heldAllocated _ hid) (Nat.not_lt_of_le (Nat.le_add_right ..))
      · rintro ⟨hk, -⟩
        cases hk
    · simp [never]
  · intro id hid n key hk
    have hn : n ≠ ⟨s.tables.size⟩ := by
      rintro rfl
      rw [absent] at hk
      cases hk
    rw [if_neg hn]
    exact values_restore_of_lt s snapshot (h.heldAllocated id hid)
  · intro id hid _
    exact values_restore_of_lt s snapshot (h.heldAllocated id hid)

theorem create_effect (h : s.WellFormed) :
    s.create.1 = ⟨s.tables.size⟩ ∧ Effect s s.create.2 1 .unchanged never := by
  have empty : s.restore ⟨[]⟩ = s.create := by
    rw [restore_eq]
    simp [create, newTable, freshSlots]
  obtain ⟨answer, effect⟩ := restore_effect h (⟨.nil, by simp⟩ : Snapshot.WellFormed ⟨[]⟩)
  rw [empty] at answer effect
  refine ⟨answer, effect.congr fun n key => ?_⟩
  split
  · rename_i e
    subst e
    exact (contents_of_slot?_eq_none (slot?_of_size_le (Nat.le_refl _) key)).symm
  · rfl

theorem createFrom_effect [DecidableEq V] (h : s.WellFormed)
    (pairs : List (K × V)) :
    (s.createFrom pairs).1 = ⟨s.tables.size⟩ ∧
      Effect s (s.createFrom pairs).2 1
        (fun n key values => if n = ⟨s.tables.size⟩ then
          values.insertAll ((pairs.filter (·.1 = key)).map Prod.snd) else values) never := by
  obtain ⟨answer, created⟩ := create_effect h
  have hm : s.create.1.index < s.create.2.tables.size := by
    rw [answer, created.tables]
    exact Nat.lt_succ_self _
  have effect := created.then (putEach_effect created.wellFormed hm pairs)
  rw [answer] at effect
  exact ⟨answer, effect⟩

end

end Store

end LiveCollections.Multimap
