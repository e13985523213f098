import LiveCollections.Proofs.Multimap.ValueSet
import LiveCollections.Proofs.Multimap.WellFormed

/-!
# The effect of an operation

Everything that a view or a reader can notice about an operation: what becomes of
the values of each key, and which keys lose the set that stands for them. A view
that holds a set sees the edit of the key it is attached to, stays attached unless
that key loses its set, and sees nothing of the edits of other keys.

Sweeps, prunes and the creation of a slot edit nothing and discard nothing, so an
operation has the effect of the part that changes values, however much of the
table is rearranged around it.
-/

namespace LiveCollections.Multimap

variable {K V α : Type} [DecidableEq K]

abbrev Edit (K V : Type) := TableId → K → ValueSet V → ValueSet V

namespace Edit

def unchanged : Edit K V := fun _ _ values => values

def under (m : TableId) (key : K) (f : ValueSet V → ValueSet V) : Edit K V :=
  fun n other values => if n = m ∧ other = key then f values else values

end Edit

namespace Store

/-- No set of `s` is lost, and a slot that `s` does not have is given a set that `s` does not have. -/
structure Later (s t : Store K V) : Prop where
  sets : s.sets.size ≤ t.sets.size
  slots : ∀ {n key id}, t.slot? n key = some id → s.slot? n key = some id ∨ s.sets.size ≤ id.index

namespace Later

theorem refl (s : Store K V) : Later s s := ⟨Nat.le_refl _, .inl⟩

theorem trans {s t u : Store K V} (h : Later s t) (h' : Later t u) : Later s u where
  sets := Nat.le_trans h.sets h'.sets
  slots hu := by
    rcases h'.slots hu with ht | fresh
    · exact h.slots ht
    · exact .inr (Nat.le_trans h.sets fresh)

theorem slot?_ne {s t : Store K V} (h : Later s t) {id : SetId} (hi : id.index < s.sets.size)
    (hs : ∀ n key, s.slot? n key ≠ some id) (n : TableId) (key : K) : t.slot? n key ≠ some id := by
  intro ht
  rcases h.slots ht with old | fresh
  · exact hs n key old
  · exact Nat.not_lt_of_le fresh hi

end Later

/-- `t` has `created` more tables than `s`; a table that is new edits the values that an absent
table has, none. -/
structure Effect (s t : Store K V) (created : Nat) (edit : Edit K V)
    (discards : TableId → K → Prop) : Prop where
  wellFormed : t.WellFormed
  later : Later s t
  held : t.held = s.held
  tables : t.tables.size = s.tables.size + created
  slots : ∀ id ∈ s.held, ∀ n key,
    t.slot? n key = some id ↔ s.slot? n key = some id ∧ ¬ discards n key
  attached : ∀ id ∈ s.held, ∀ n key, s.slot? n key = some id →
    t.values id = edit n key (s.values id)
  detached : ∀ id ∈ s.held, (∀ n key, s.slot? n key ≠ some id) → t.values id = s.values id
  contents : ∀ n key, t.contents n key = edit n key (s.contents n key)

def never : TableId → K → Prop := fun _ _ => False

abbrev Edits (s t : Store K V) (edit : Edit K V) : Prop := Effect s t 0 edit never

theorem Effect.slot?_eq {s t : Store K V} {created : Nat} {edit : Edit K V}
    (h : Effect s t created edit never) {id : SetId} (hid : id ∈ s.held) (n : TableId) (key : K) :
    t.slot? n key = some id ↔ s.slot? n key = some id := by
  simp [h.slots id hid, never]

theorem Effect.then {s t u : Store K V} {created later : Nat} {first second : Edit K V}
    {discards : TableId → K → Prop} (h : Effect s t created first never)
    (h' : Effect t u later second discards) :
    Effect s u (created + later) (fun n key values => second n key (first n key values))
      discards where
  wellFormed := h'.wellFormed
  later := h.later.trans h'.later
  held := h'.held.trans h.held
  tables := by rw [h'.tables, h.tables, Nat.add_assoc]
  slots id hid n key := by
    rw [h'.slots id (h.held ▸ hid), h.slot?_eq hid]
  attached id hid n key hs := by
    rw [h'.attached id (h.held ▸ hid) n key ((h.slot?_eq hid n key).mpr hs),
      h.attached id hid n key hs]
  detached id hid hs := by
    have ht : ∀ n key, t.slot? n key ≠ some id := fun n key hn => hs n key ((h.slot?_eq hid n key).mp hn)
    rw [h'.detached id (h.held ▸ hid) ht, h.detached id hid hs]
  contents n key := by rw [h'.contents, h.contents]

theorem Effect.congr {s t : Store K V} {created : Nat} {edit other : Edit K V}
    {discards : TableId → K → Prop} (h : Effect s t created edit discards)
    (he : ∀ n key, edit n key (s.contents n key) = other n key (s.contents n key)) :
    Effect s t created other discards where
  wellFormed := h.wellFormed
  later := h.later
  held := h.held
  tables := h.tables
  slots := h.slots
  attached id hid n key hs := by
    rw [h.attached id hid n key hs, ← contents_of_slot? hs, he]
  detached := h.detached
  contents n key := by rw [h.contents, he]

theorem Effect.discarding {s t : Store K V} {created : Nat} {edit : Edit K V}
    {discards others : TableId → K → Prop} (h : Effect s t created edit discards)
    (hd : ∀ n key, discards n key ↔ others n key) : Effect s t created edit others where
  wellFormed := h.wellFormed
  later := h.later
  held := h.held
  tables := h.tables
  slots id hid n key := by rw [h.slots id hid, hd]
  attached := h.attached
  detached := h.detached
  contents := h.contents

-- ---------------------------------------------------------------------------
-- Maintenance
-- ---------------------------------------------------------------------------

theorem Edits.refl {s : Store K V} (h : s.WellFormed) : Edits s s .unchanged where
  wellFormed := h
  later := .refl s
  held := rfl
  tables := rfl
  slots _ _ _ _ := by simp [never]
  attached _ _ _ _ _ := rfl
  detached _ _ _ := rfl
  contents _ _ := rfl

/-- A reader takes an unused slot for no slot, and a view that holds a set keeps it in use. -/
theorem Tidied.edits {s t : Store K V} (h : Tidied s t) (hs : s.WellFormed) :
    Edits s t .unchanged where
  wellFormed := h.wellFormed hs
  later := ⟨Nat.le_of_eq (congrArg Array.size h.sets.symm), fun ht => .inl (h.slot?_of_slot? hs ht)⟩
  held := h.held
  tables := h.tables
  slots id hid n key := by
    refine ⟨fun ht => ⟨h.slot?_of_slot? hs ht, not_false⟩, fun hk => ?_⟩
    rcases h.slot?_or hs hk.1 with kept | ⟨-, unused⟩
    · exact kept
    · rw [isUnused_of_mem_held hid] at unused
      cases unused
  attached id _ _ _ _ := h.values id
  detached id _ _ := h.values id
  contents n key := by
    cases hk : s.slot? n key with
    | none =>
      have ht : t.slot? n key = none := by
        cases ht : t.slot? n key with
        | none => rfl
        | some id =>
          rw [h.slot?_of_slot? hs ht] at hk
          cases hk
      rw [contents_of_slot?_eq_none ht, contents_of_slot?_eq_none hk]
      rfl
    | some id =>
      rcases h.slot?_or hs hk with kept | ⟨gone, unused⟩
      · rw [contents_of_slot? kept, contents_of_slot? hk, h.values]
        rfl
      · have he : s.values id = .empty :=
          ValueSet.isEmpty_iff.mp (Bool.and_eq_true_iff.mp unused).1
        rw [contents_of_slot?_eq_none gone, contents_of_slot? hk, he]
        rfl

theorem edits_sweep {s : Store K V} (h : s.WellFormed) (m : TableId) :
    Edits s (s.sweep m) .unchanged := (tidied_sweep s m).edits h

theorem edits_prune {s : Store K V} (h : s.WellFormed) (m : TableId) (key : K) :
    Edits s (s.prune m key) .unchanged := (tidied_prune h m key).edits h

theorem Effect.report {s t : Store K V} {created : Nat} {edit : Edit K V}
    {discards : TableId → K → Prop} (h : Effect s t created edit discards) (event : Event) :
    Effect s (t.report event) created edit discards where
  wellFormed := ⟨h.wellFormed.distinct, h.wellFormed.allocated, h.wellFormed.heldAllocated,
    h.wellFormed.apart⟩
  later := ⟨h.later.sets, h.later.slots⟩
  held := h.held
  tables := h.tables
  slots := h.slots
  attached := h.attached
  detached := h.detached
  contents := h.contents

-- ---------------------------------------------------------------------------
-- Writing to the sets of slots
-- ---------------------------------------------------------------------------

theorem effect_of_slots {s t : Store K V} (h : s.WellFormed) {edit : Edit K V}
    {discards : TableId → K → Prop} (sets : t.sets.size = s.sets.size) (held : t.held = s.held)
    (tables : t.tables.size = s.tables.size)
    (fewer : ∀ n, (t.table n).slots.Sublist (s.table n).slots)
    (slots : ∀ n key id, t.slot? n key = some id ↔ s.slot? n key = some id ∧ ¬ discards n key)
    (written : ∀ n key id, s.slot? n key = some id → t.values id = edit n key (s.values id))
    (others : ∀ id, (∀ n key, s.slot? n key ≠ some id) → t.values id = s.values id)
    (emptied : ∀ n key values, discards n key → edit n key values = .empty)
    (absent : ∀ n key, s.slot? n key = none → edit n key .empty = .empty) :
    Effect s t 0 edit discards where
  wellFormed := {
    distinct := fun n => ((fewer n).map Prod.fst).nodup (h.distinct n)
    allocated := fun hs => sets ▸ h.allocated ((slots _ _ _).mp hs).1
    heldAllocated := fun id hid => sets ▸ h.heldAllocated id (held ▸ hid)
    apart := fun hs ht => h.apart ((slots _ _ _).mp hs).1 ((slots _ _ _).mp ht).1 }
  later := ⟨Nat.le_of_eq sets.symm, fun hs => .inl ((slots _ _ _).mp hs).1⟩
  held := held
  tables := tables
  slots id _ n key := slots n key id
  attached id _ n key hs := written n key id hs
  detached id _ hs := others id hs
  contents n key := by
    cases ht : t.slot? n key with
    | some id =>
      obtain ⟨hs, -⟩ := (slots n key id).mp ht
      rw [contents_of_slot? ht, contents_of_slot? hs]
      exact written n key id hs
    | none =>
      rw [contents_of_slot?_eq_none ht]
      cases hs : s.slot? n key with
      | none => rw [contents_of_slot?_eq_none hs, absent n key hs]
      | some id =>
        refine (emptied n key _ (Classical.byContradiction fun hd => ?_)).symm
        rw [(slots n key id).mpr ⟨hs, hd⟩] at ht
        cases ht

/-- Writing to the set of one slot edits one key, because no other slot has the set. -/
theorem effect_of_slot {s t : Store K V} (h : s.WellFormed) {m : TableId} {key : K} {id : SetId}
    (hk : s.slot? m key = some id) {f : ValueSet V → ValueSet V} {discards : TableId → K → Prop}
    (sets : t.sets.size = s.sets.size) (held : t.held = s.held)
    (tables : t.tables.size = s.tables.size)
    (fewer : ∀ n, (t.table n).slots.Sublist (s.table n).slots)
    (slots : ∀ n k i, t.slot? n k = some i ↔ s.slot? n k = some i ∧ ¬ discards n k)
    (same : t.values id = f (s.values id)) (others : ∀ i, i ≠ id → t.values i = s.values i)
    (emptied : ∀ n k values, discards n k → Edit.under m key f n k values = .empty) :
    Effect s t 0 (.under m key f) discards := by
  refine effect_of_slots h sets held tables fewer slots (fun n k i hi => ?_) (fun i hi => ?_)
    emptied fun n k hi => ?_
  · by_cases he : i = id
    · subst he
      rw [same, Edit.under, if_pos (h.apart hk hi)]
    · rw [others i he, Edit.under, if_neg]
      rintro ⟨rfl, rfl⟩
      rw [hk] at hi
      exact he (Option.some.inj hi).symm
  · exact others i fun e => hi m key (e ▸ hk)
  · rw [Edit.under, if_neg]
    rintro ⟨rfl, rfl⟩
    rw [hk] at hi
    cases hi

-- ---------------------------------------------------------------------------
-- Creating a slot
-- ---------------------------------------------------------------------------

def addSlot (s : Store K V) (m : TableId) (key : K) : SetId × Store K V :=
  let (id, s) := s.newSet .empty
  let table := s.table m
  (id, s.setTable m { table with slots := (key, id) :: table.slots })

theorem slot?_addSlot (s : Store K V) {m : TableId} (hm : m.index < s.tables.size) (key : K)
    (n : TableId) (other : K) :
    (s.addSlot m key).2.slot? n other =
      if n = m ∧ other = key then some ⟨s.sets.size⟩ else s.slot? n other := by
  by_cases hn : n = m
  · subst hn
    have hk : (s.addSlot n key).2.slot? n other = ((key, ⟨s.sets.size⟩) ::
        (s.table n).slots).lookup other := by
      exact slot?_setTable_self (s.newSet .empty).2 hm _ other
    rw [hk, List.lookup_cons]
    by_cases ho : other = key
    · simp [ho]
    · rw [beq_false_of_ne ho]
      simp [ho, slot?]
  · have hk : (s.addSlot m key).2.slot? n other = s.slot? n other :=
      slot?_setTable_ne (s.newSet .empty).2 hn _ other
    rw [hk, if_neg fun h => hn h.1]

theorem distinct_addSlot {s : Store K V} (h : s.WellFormed) {m : TableId} {key : K}
    (hk : s.slot? m key = none) (n : TableId) :
    (((s.addSlot m key).2.table n).slots.map Prod.fst).Nodup := by
  have table : (s.addSlot m key).2.table n = _ := table_setTable (s.newSet .empty).2 m _ n
  rw [table]
  split
  · refine List.nodup_cons.mpr ⟨fun hm => ?_, h.distinct m⟩
    obtain ⟨⟨_, id⟩, hin, rfl⟩ := List.mem_map.mp hm
    rw [h.slot?_eq_some_iff.mpr hin] at hk
    cases hk
  · exact h.distinct n

theorem wellFormed_addSlot {s : Store K V} (h : s.WellFormed) {m : TableId}
    (hm : m.index < s.tables.size) {key : K} (hk : s.slot? m key = none) :
    (s.addSlot m key).2.WellFormed := by
  have size : (s.addSlot m key).2.sets.size = s.sets.size + 1 := Array.size_push _
  have fresh : ∀ n other, s.slot? n other ≠ some ⟨s.sets.size⟩ := fun n other =>
    h.slot?_ne_of_size_le (Nat.le_refl s.sets.size) n other
  refine ⟨distinct_addSlot h hk, ?_, fun id hid => ?_, ?_⟩
  · intro n other id hs
    rw [slot?_addSlot s hm] at hs
    rw [size]
    split at hs
    · cases hs
      exact Nat.lt_succ_self _
    · exact Nat.lt_succ_of_lt (h.allocated hs)
  · rw [size]
    exact Nat.lt_succ_of_lt (h.heldAllocated id hid)
  · intro n₁ k₁ n₂ k₂ id h₁ h₂
    rw [slot?_addSlot s hm] at h₁ h₂
    split at h₁ <;> split at h₂
    · rename_i e₁ e₂
      exact ⟨e₂.1.trans e₁.1.symm, e₂.2.trans e₁.2.symm⟩
    · cases h₁
      exact absurd h₂ (fresh n₂ k₂)
    · cases h₂
      exact absurd h₁ (fresh n₁ k₁)
    · exact h.apart h₁ h₂

theorem edits_addSlot {s : Store K V} (h : s.WellFormed) {m : TableId}
    (hm : m.index < s.tables.size) {key : K} (hk : s.slot? m key = none) :
    Edits s (s.addSlot m key).2 .unchanged where
  wellFormed := wellFormed_addSlot h hm hk
  later := by
    refine ⟨Nat.le_of_lt (Nat.lt_of_lt_of_eq (Nat.lt_succ_self _) (Array.size_push _).symm), ?_⟩
    intro n other id hs
    rw [slot?_addSlot s hm] at hs
    split at hs
    · cases hs
      exact .inr (Nat.le_refl _)
    · exact .inl hs
  held := rfl
  tables := size_tables_setTable ..
  slots id hid n other := by
    rw [slot?_addSlot s hm]
    have fresh : (⟨s.sets.size⟩ : SetId) ≠ id := by
      rintro rfl
      exact Nat.lt_irrefl _ (h.heldAllocated _ hid)
    split
    · rename_i e
      obtain ⟨rfl, rfl⟩ := e
      simp [hk, fresh]
    · simp [never]
  attached id _ _ _ _ := values_newSet_empty s id
  detached id _ _ := values_newSet_empty s id
  contents n other := by
    have hv : ∀ id, (s.addSlot m key).2.values id = s.values id := values_newSet_empty s
    rw [contents, slot?_addSlot s hm]
    split
    · rename_i id hs
      split at hs
      · rename_i e
        obtain ⟨rfl, rfl⟩ := e
        cases hs
        rw [hv, contents_of_slot?_eq_none hk]
        simp [Store.values, Edit.unchanged]
      · rw [hv, contents_of_slot? hs]
        rfl
    · rename_i hs
      split at hs
      · cases hs
      · rw [contents_of_slot?_eq_none hs]
        rfl

theorem edits_slotFor {s : Store K V} (h : s.WellFormed) {m : TableId}
    (hm : m.index < s.tables.size) (key : K) :
    Edits s (s.slotFor m key).2 .unchanged ∧
      (s.slotFor m key).2.slot? m key = some (s.slotFor m key).1 := by
  unfold slotFor
  split
  · rename_i id hk
    exact ⟨Edits.refl h, hk⟩
  · rename_i hk
    have tidy := tidied_sweepIfFull s m
    have swept := tidy.edits h
    have hm' : m.index < (s.sweepIfFull m).tables.size := by rwa [tidy.tables]
    have absent : (s.sweepIfFull m).slot? m key = none := by
      cases ht : (s.sweepIfFull m).slot? m key with
      | none => rfl
      | some id =>
        rw [tidy.slot?_of_slot? h ht] at hk
        cases hk
    refine ⟨swept.then ((edits_addSlot swept.wellFormed hm' absent).report _), ?_⟩
    have created := slot?_addSlot (s.sweepIfFull m) hm' key m key
    rw [if_pos ⟨rfl, rfl⟩] at created
    exact created

end Store

end LiveCollections.Multimap
