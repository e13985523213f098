import LiveCollections.Multimap.View

/-!
# Well-formed stores

A store is well formed when no table lists a key twice, every slot and every view
names a set that exists, and no set stands in two slots. The last of these is what
makes a set the set of one key of one table, so that writing through a view of it
can be writing under that key and under no other.

`slot?` and `values` are read off each primitive here, and nothing below unfolds a
primitive again.
-/

namespace LiveCollections.Multimap.Store

variable {K V α : Type}

-- ---------------------------------------------------------------------------
-- What a primitive leaves alone
-- ---------------------------------------------------------------------------

section Frames

variable (s : Store K V)

@[simp] theorem values_report (event : Event) (id : SetId) :
    (s.report event).values id = s.values id := rfl

@[simp] theorem table_report (event : Event) (m : TableId) :
    (s.report event).table m = s.table m := rfl

@[simp] theorem values_setTable (m : TableId) (table : Table K) (id : SetId) :
    (s.setTable m table).values id = s.values id := rfl

@[simp] theorem table_setValues (id : SetId) (values : ValueSet V) (m : TableId) :
    (s.setValues id values).table m = s.table m := rfl

@[simp] theorem values_acquire (id other : SetId) : (s.acquire id).values other = s.values other :=
  rfl

@[simp] theorem values_release (id other : SetId) : (s.release id).values other = s.values other :=
  rfl

@[simp] theorem size_tables_setTable (m : TableId) (table : Table K) :
    (s.setTable m table).tables.size = s.tables.size := Array.size_setIfInBounds

@[simp] theorem size_sets_setValues (id : SetId) (values : ValueSet V) :
    (s.setValues id values).sets.size = s.sets.size := Array.size_setIfInBounds

theorem values_newSet (values : ValueSet V) (id : SetId) :
    (s.newSet values).2.values id = if id.index = s.sets.size then values else s.values id := by
  by_cases h : id.index = s.sets.size
  · simp [newSet, Store.values, h]
  · rw [if_neg h]
    simp [newSet, Store.values, Array.getElem?_push, h]

@[simp] theorem values_newSet_empty (id : SetId) :
    (s.newSet .empty).2.values id = s.values id := by
  rw [values_newSet]
  split
  · rename_i h
    simp [Store.values, h]
  · rfl

end Frames

theorem table_of_size_le {s : Store K V} {m : TableId} (h : s.tables.size ≤ m.index) :
    s.table m = {} := by
  simp [table, h]

theorem table_setTable (s : Store K V) (m : TableId) (table : Table K) (n : TableId) :
    (s.setTable m table).table n =
      if n = m ∧ m.index < s.tables.size then table else s.table n := by
  by_cases hn : n = m
  · subst hn
    by_cases hm : n.index < s.tables.size
    · rw [if_pos ⟨rfl, hm⟩, table_setTable_self s hm]
    · have hs := Nat.le_of_not_lt hm
      rw [if_neg fun e => hm e.2, table_of_size_le hs, table_of_size_le (by simpa using hs)]
  · rw [if_neg fun e => hn e.1, table_setTable_ne s hn]

theorem slots_setTable_sublist (s : Store K V) {m : TableId} {table : Table K}
    (h : table.slots.Sublist (s.table m).slots) (n : TableId) :
    ((s.setTable m table).table n).slots.Sublist (s.table n).slots := by
  rw [table_setTable]
  split
  · rename_i e
    exact e.1 ▸ h
  · exact .refl _

-- ---------------------------------------------------------------------------
-- Tidying
-- ---------------------------------------------------------------------------

/-- `t` is `s` without some of its unused slots. -/
structure Tidied (s t : Store K V) : Prop where
  sets : t.sets = s.sets
  held : t.held = s.held
  tables : t.tables.size = s.tables.size
  fewer : ∀ m, (t.table m).slots.Sublist (s.table m).slots
  unused : ∀ m, ∀ slot ∈ (s.table m).slots, slot ∈ (t.table m).slots ∨ s.isUnused slot.2 = true

namespace Tidied

theorem refl (s : Store K V) : Tidied s s :=
  ⟨rfl, rfl, rfl, fun _ => .refl _, fun _ _ h => .inl h⟩

theorem values {s t : Store K V} (h : Tidied s t) (id : SetId) : t.values id = s.values id := by
  rw [Store.values, h.sets, ← Store.values]

theorem report {s t : Store K V} (h : Tidied s t) (event : Event) : Tidied s (t.report event) :=
  ⟨h.sets, h.held, h.tables, h.fewer, h.unused⟩

theorem threshold {s t : Store K V} (h : Tidied s t) (m : TableId) (n : Nat) :
    Tidied s (t.setTable m { t.table m with sweepAt := n }) := by
  have same : ∀ k, ((t.setTable m { t.table m with sweepAt := n }).table k).slots =
      (t.table k).slots := by
    intro k
    rw [table_setTable]
    split
    · rename_i e
      rw [e.1]
    · rfl
  refine ⟨h.sets, h.held, by simpa using h.tables, fun k => ?_, fun k => ?_⟩
  · rw [same]
    exact h.fewer k
  · rw [same]
    exact h.unused k

theorem filter (s : Store K V) (m : TableId) (keep : K × SetId → Bool)
    (h : ∀ slot ∈ (s.table m).slots, keep slot = true ∨ s.isUnused slot.2 = true) :
    Tidied s (s.setTable m { s.table m with slots := (s.table m).slots.filter keep }) := by
  refine ⟨rfl, rfl, size_tables_setTable .., slots_setTable_sublist s List.filter_sublist, ?_⟩
  intro k slot hs
  rw [table_setTable]
  split
  · rename_i e
    rw [e.1] at hs
    exact (h slot hs).imp_left fun hp => List.mem_filter.mpr ⟨hs, hp⟩
  · exact .inl hs

end Tidied

theorem tidied_sweep (s : Store K V) (m : TableId) : Tidied s (s.sweep m) := by
  refine Tidied.filter s m _ fun slot _ => ?_
  cases s.isUnused slot.2 <;> simp

theorem tidied_sweepIfFull (s : Store K V) (m : TableId) : Tidied s (s.sweepIfFull m) := by
  rw [sweepIfFull]
  dsimp only
  split
  · exact ((tidied_sweep s m).threshold m _).report _
  · exact Tidied.refl s

variable [DecidableEq K]

@[simp] theorem slot?_report (s : Store K V) (event : Event) (m : TableId) (key : K) :
    (s.report event).slot? m key = s.slot? m key := rfl

@[simp] theorem slot?_setValues (s : Store K V) (id : SetId) (values : ValueSet V) (m : TableId)
    (key : K) : (s.setValues id values).slot? m key = s.slot? m key := rfl

theorem slot?_setTable_self (s : Store K V) {m : TableId} (h : m.index < s.tables.size)
    (table : Table K) (key : K) : (s.setTable m table).slot? m key = table.slots.lookup key := by
  rw [slot?, table_setTable_self s h]

theorem slot?_setTable_ne (s : Store K V) {m n : TableId} (h : n ≠ m) (table : Table K) (key : K) :
    (s.setTable m table).slot? n key = s.slot? n key := by
  rw [slot?, table_setTable_ne s h, ← slot?]

theorem slot?_of_size_le {s : Store K V} {m : TableId} (h : s.tables.size ≤ m.index) (key : K) :
    s.slot? m key = none := by
  simp [slot?, table_of_size_le h]

theorem index_lt_of_slot? {s : Store K V} {m : TableId} {key : K} {id : SetId}
    (h : s.slot? m key = some id) : m.index < s.tables.size := by
  refine Nat.lt_of_not_le fun hm => ?_
  rw [slot?_of_size_le hm] at h
  cases h

theorem slot?_dropSlot (s : Store K V) (m : TableId) (key : K) (n : TableId) (other : K) :
    (s.dropSlot m key).slot? n other =
      if n = m ∧ other = key then none else s.slot? n other := by
  by_cases hn : n = m
  · subst hn
    by_cases hm : n.index < s.tables.size
    · rw [dropSlot, slot?_setTable_self s hm, slot?]
      induction (s.table n).slots with
      | nil => simp
      | cons slot slots ih => grind
    · have hs : s.tables.size ≤ n.index := Nat.le_of_not_lt hm
      simp [slot?_of_size_le hs, slot?_of_size_le (s := s.dropSlot n key) (by simpa [dropSlot])]
  · rw [dropSlot, slot?_setTable_ne s hn, if_neg fun h => hn h.1]

-- ---------------------------------------------------------------------------
-- The invariant
-- ---------------------------------------------------------------------------

structure WellFormed (s : Store K V) : Prop where
  distinct : ∀ m, ((s.table m).slots.map Prod.fst).Nodup
  allocated : ∀ {m key id}, s.slot? m key = some id → id.index < s.sets.size
  heldAllocated : ∀ id ∈ s.held, id.index < s.sets.size
  /-- A set stands in one slot of one table. -/
  apart : ∀ {m key n other id}, s.slot? m key = some id → s.slot? n other = some id →
    n = m ∧ other = key

def contents (s : Store K V) (m : TableId) (key : K) : ValueSet V :=
  match s.slot? m key with
  | some id => s.values id
  | none => .empty

theorem contents_of_slot? {s : Store K V} {m : TableId} {key : K} {id : SetId}
    (h : s.slot? m key = some id) : s.contents m key = s.values id := by
  simp [contents, h]

theorem contents_of_slot?_eq_none {s : Store K V} {m : TableId} {key : K}
    (h : s.slot? m key = none) : s.contents m key = .empty := by
  simp [contents, h]

theorem lookup_eq_some_iff_mem {entries : List (K × α)} (h : (entries.map Prod.fst).Nodup)
    {key : K} {a : α} : entries.lookup key = some a ↔ (key, a) ∈ entries := by
  induction entries with
  | nil => simp
  | cons entry entries ih =>
    obtain ⟨k, b⟩ := entry
    obtain ⟨hk, hs⟩ := List.nodup_cons.mp h
    by_cases he : key = k
    · subst he
      have hn : (key, a) ∉ entries := fun hm => hk (List.mem_map.mpr ⟨_, hm, rfl⟩)
      simp [hn, eq_comm]
    · rw [List.lookup_cons, beq_false_of_ne he]
      simp [he, ih hs]

theorem WellFormed.slot?_eq_some_iff {s : Store K V} (h : s.WellFormed) {m : TableId} {key : K}
    {id : SetId} : s.slot? m key = some id ↔ (key, id) ∈ (s.table m).slots :=
  lookup_eq_some_iff_mem (h.distinct m)

theorem wellFormed_empty : ({} : Store K V).WellFormed where
  distinct m := by simp [table]
  allocated h := by simp [slot?, table] at h
  heldAllocated := by simp
  apart h := by simp [slot?, table] at h

theorem WellFormed.slot?_ne_of_size_le {s : Store K V} (h : s.WellFormed) {id : SetId}
    (hi : s.sets.size ≤ id.index) (m : TableId) (key : K) : s.slot? m key ≠ some id :=
  fun hs => Nat.not_lt_of_le hi (h.allocated hs)

-- ---------------------------------------------------------------------------
-- Tidying a well-formed store
-- ---------------------------------------------------------------------------

namespace Tidied

theorem slot?_of_slot? {s t : Store K V} (h : Tidied s t) (hs : s.WellFormed) {m : TableId}
    {key : K} {id : SetId} (ht : t.slot? m key = some id) : s.slot? m key = some id := by
  have distinct : ((t.table m).slots.map Prod.fst).Nodup :=
    ((h.fewer m).map Prod.fst).nodup (hs.distinct m)
  exact hs.slot?_eq_some_iff.mpr
    ((h.fewer m).subset ((lookup_eq_some_iff_mem distinct).mp ht))

theorem wellFormed {s t : Store K V} (h : Tidied s t) (hs : s.WellFormed) : t.WellFormed where
  distinct m := ((h.fewer m).map Prod.fst).nodup (hs.distinct m)
  allocated ht := by
    rw [h.sets]
    exact hs.allocated (h.slot?_of_slot? hs ht)
  heldAllocated := by
    rw [h.sets, h.held]
    exact hs.heldAllocated
  apart ht hu := hs.apart (h.slot?_of_slot? hs ht) (h.slot?_of_slot? hs hu)

theorem slot?_or {s t : Store K V} (h : Tidied s t) (hs : s.WellFormed) {m : TableId} {key : K}
    {id : SetId} (hk : s.slot? m key = some id) :
    t.slot? m key = some id ∨ t.slot? m key = none ∧ s.isUnused id = true := by
  rcases h.unused m _ (hs.slot?_eq_some_iff.mp hk) with kept | gone
  · exact .inl ((h.wellFormed hs).slot?_eq_some_iff.mpr kept)
  · cases ht : t.slot? m key with
    | none => exact .inr ⟨rfl, gone⟩
    | some other =>
      have he := h.slot?_of_slot? hs ht
      rw [hk] at he
      exact .inl he.symm

end Tidied

theorem tidied_prune {s : Store K V} (h : s.WellFormed) (m : TableId) (key : K) :
    Tidied s (s.prune m key) := by
  unfold prune
  split
  · rename_i id hs
    split
    · rename_i unused
      refine Tidied.filter s m _ fun slot hm => ?_
      by_cases hk : slot.1 = key
      · have he : s.slot? m slot.1 = some slot.2 := h.slot?_eq_some_iff.mpr hm
        rw [hk, hs] at he
        exact .inr (Option.some.inj he ▸ unused)
      · exact .inl (by simpa using hk)
    · exact Tidied.refl s
  · exact Tidied.refl s

end LiveCollections.Multimap.Store
