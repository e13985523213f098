import LiveCollections.Proofs.Multimap.Effect

/-!
# What each change answers and does

One statement for each operation that changes a multimap: its answer, read off the
values that the key had, and its effect. Only `removeAll` and `clear` discard.
-/

namespace LiveCollections.Multimap.Store

variable {K V α : Type} [DecidableEq K] {s : Store K V}

theorem wellFormed_setValues (h : s.WellFormed) (id : SetId) (values : ValueSet V) :
    (s.setValues id values).WellFormed where
  distinct := h.distinct
  allocated hs := by
    rw [size_sets_setValues]
    exact h.allocated hs
  heldAllocated := by
    rw [size_sets_setValues]
    exact h.heldAllocated
  apart := h.apart

theorem contents_setValues_ne {id : SetId} {m : TableId} {key : K} (h : s.slot? m key ≠ some id)
    (values : ValueSet V) : (s.setValues id values).contents m key = s.contents m key := by
  have hs : (s.setValues id values).slot? m key = s.slot? m key := rfl
  cases hk : s.slot? m key with
  | none => rw [contents_of_slot?_eq_none (hs.trans hk), contents_of_slot?_eq_none hk]
  | some other =>
    have hi : other ≠ id := fun e => h (e ▸ hk)
    rw [contents_of_slot? (hs.trans hk), contents_of_slot? hk, values_setValues_ne s hi]

theorem contents_setValues_of_detached {id : SetId} (h : ∀ m key, s.slot? m key ≠ some id)
    (values : ValueSet V) (m : TableId) (key : K) :
    (s.setValues id values).contents m key = s.contents m key :=
  contents_setValues_ne (h m key) values

theorem edits_change (h : s.WellFormed) {m : TableId} {key : K} {id : SetId}
    (hk : s.slot? m key = some id) (f : ValueSet V → α × ValueSet V) :
    Edits s (s.change id f).2 (.under m key fun values => (f values).2) := by
  refine effect_of_slot h hk (size_sets_setValues ..) rfl rfl (fun _ => .refl _) (fun n k i => ?_)
    (values_setValues_self s (h.allocated hk) _) (fun i hi => values_setValues_ne s hi _) nofun
  simp [change, never]

theorem updatePresent?_eq_none_iff {m : TableId} {key : K} {f : ValueSet V → α × ValueSet V} :
    s.updatePresent? m key f = none ↔ s.slot? m key = none := Option.map_eq_none_iff

theorem updatePresent?_effect (h : s.WellFormed) {m : TableId} {key : K}
    {f : ValueSet V → α × ValueSet V} {r : α × Store K V} (hr : s.updatePresent? m key f = some r) :
    r.1 = (f (s.contents m key)).1 ∧ Edits s r.2 (.under m key fun values => (f values).2) := by
  obtain ⟨id, hk, rfl⟩ := Option.map_eq_some_iff.mp hr
  rw [contents_of_slot? hk]
  exact ⟨rfl, edits_change h hk f⟩

/-- The creating section answers and does the same whether or not the key has a set by then. -/
theorem updateCreating_effect (h : s.WellFormed) {m : TableId} (hm : m.index < s.tables.size)
    (key : K) (f : ValueSet V → α × ValueSet V) :
    (s.updateCreating m key f).1 = (f (s.contents m key)).1 ∧
      Edits s (s.updateCreating m key f).2 (.under m key fun values => (f values).2) := by
  obtain ⟨found, hk⟩ := edits_slotFor h hm key
  have hc : (s.slotFor m key).2.values (s.slotFor m key).1 = s.contents m key := by
    rw [← contents_of_slot? hk, found.contents]
    rfl
  exact ⟨congrArg (fun values => (f values).1) hc, found.then (edits_change found.wellFormed hk f)⟩

theorem update_effect (h : s.WellFormed) {m : TableId} (hm : m.index < s.tables.size)
    (key : K) (f : ValueSet V → α × ValueSet V) :
    (s.update m key f).1 = (f (s.contents m key)).1 ∧
      Edits s (s.update m key f).2 (.under m key fun values => (f values).2) := by
  unfold update
  cases hr : s.updatePresent? m key f with
  | none => exact updateCreating_effect h hm key f
  | some r => exact updatePresent?_effect h hr

theorem edits_absent (h : s.WellFormed) {m : TableId} {key : K} (hk : s.slot? m key = none)
    {f : ValueSet V → ValueSet V} (hf : f .empty = .empty) : Edits s s (.under m key f) := by
  refine (Edits.refl h).congr fun n k => ?_
  rw [Edit.under]
  split
  · rename_i e
    rw [e.1, e.2, contents_of_slot?_eq_none hk, hf]
    rfl
  · rfl

variable [DecidableEq V]

theorem put_effect (h : s.WellFormed) {m : TableId} (hm : m.index < s.tables.size) (key : K)
    (value : V) :
    (s.put m key value).1 = !(s.contents m key).contains value ∧
      Edits s (s.put m key value).2 (.under m key (·.insert value)) :=
  update_effect h hm key (insertion value)

theorem putAll_effect (h : s.WellFormed) {m : TableId} (hm : m.index < s.tables.size) (key : K)
    (values : List V) :
    (s.putAll m key values).1 = values.any (fun value => !(s.contents m key).contains value) ∧
      Edits s (s.putAll m key values).2 (.under m key (·.insertAll values)) := by
  unfold putAll
  cases values with
  | nil =>
    refine ⟨rfl, (Edits.refl h).congr fun n k => ?_⟩
    unfold Edit.under
    split <;> rfl
  | cons value values => exact update_effect h hm key (insertions (value :: values))

theorem replaceValues_effect (h : s.WellFormed) {m : TableId} (hm : m.index < s.tables.size)
    (key : K) (values : List V) :
    (s.replaceValues m key values).1 = s.contents m key ∧
      Edits s (s.replaceValues m key values).2 (.under m key fun _ => .ofList values) :=
  update_effect h hm key fun current => (current, .ofList values)

theorem replaceValue_effect (h : s.WellFormed) (m : TableId) (key : K) (old new : V) :
    (s.replaceValue m key old new).1 = (s.contents m key).contains old ∧
      Edits s (s.replaceValue m key old new).2
        (.under m key fun values => (exchange old new values).2) := by
  have answer : ∀ values : ValueSet V, (exchange old new values).1 = values.contains old := by
    intro values
    unfold exchange
    split
    · rename_i present
      exact present.symm
    · rename_i absent
      exact (Bool.eq_false_iff.mpr absent).symm
  unfold replaceValue
  cases hr : s.updatePresent? m key (exchange old new) with
  | none =>
    have hk := updatePresent?_eq_none_iff.mp hr
    rw [contents_of_slot?_eq_none hk]
    exact ⟨by simp, edits_absent h hk (by simp [exchange])⟩
  | some r =>
    rw [← answer]
    exact updatePresent?_effect h hr

/-- The section of a removal that takes the value out. -/
def strike (s : Store K V) (m : TableId) (key : K) (value : V) : Bool × Store K V :=
  (s.updatePresent? m key (removal value)).getD (false, s)

/-- The rest of a removal is a prune, if the key is left without values. -/
theorem remove_eq_strike (s : Store K V) (m : TableId) (key : K) (value : V) :
    s.remove m key value =
      let (removed, t) := s.strike m key value
      (removed, if removed && (t.contents m key).isEmpty then t.prune m key else t) := by
  unfold remove strike updatePresent?
  cases h : s.slot? m key with
  | none => rfl
  | some id =>
    have kept : (s.change id (removal value)).2.contents m key =
        (s.change id (removal value)).2.values id := contents_of_slot? h
    simp only [Option.map_some, Option.getD_some, kept]
    split <;> rfl

theorem strike_effect (h : s.WellFormed) (m : TableId) (key : K) (value : V) :
    (s.strike m key value).1 = (s.contents m key).contains value ∧
      Edits s (s.strike m key value).2 (.under m key (·.erase value)) := by
  unfold strike
  cases hr : s.updatePresent? m key (removal value) with
  | none =>
    have hk := updatePresent?_eq_none_iff.mp hr
    rw [contents_of_slot?_eq_none hk]
    exact ⟨(ValueSet.contains_empty value).symm, edits_absent h hk (ValueSet.erase_empty value)⟩
  | some r => exact updatePresent?_effect h hr

theorem remove_effect (h : s.WellFormed) (m : TableId) (key : K) (value : V) :
    (s.remove m key value).1 = (s.contents m key).contains value ∧
      Edits s (s.remove m key value).2 (.under m key (·.erase value)) := by
  obtain ⟨answer, struck⟩ := strike_effect h m key value
  rw [remove_eq_strike]
  dsimp only
  split
  · exact ⟨answer, struck.then (edits_prune struck.wellFormed m key)⟩
  · exact ⟨answer, struck⟩

theorem putEach_effect (h : s.WellFormed) {m : TableId} (hm : m.index < s.tables.size)
    (pairs : List (K × V)) :
    Edits s (s.putEach m pairs).2 fun n key values =>
      if n = m then values.insertAll ((pairs.filter (·.1 = key)).map Prod.snd) else values := by
  induction pairs generalizing s with
  | nil =>
    refine (Edits.refl h).congr fun n key => ?_
    split <;> rfl
  | cons pair pairs ih =>
    obtain ⟨key, value⟩ := pair
    have first := (put_effect h hm key value).2
    have rest := ih first.wellFormed (first.tables ▸ hm)
    refine (first.then rest).congr fun n k => ?_
    unfold Edit.under
    by_cases hn : n = m
    · by_cases hk : key = k
      · simp [hn, hk, ValueSet.insertAll]
      · simp [hn, hk, Ne.symm hk]
    · simp [hn]

-- ---------------------------------------------------------------------------
-- Discarding
-- ---------------------------------------------------------------------------

omit [DecidableEq V] in
theorem removeAll_effect (h : s.WellFormed) (m : TableId) (key : K) :
    (s.removeAll m key).1 = s.contents m key ∧
      Effect s (s.removeAll m key).2 0 (.under m key fun _ => .empty)
        (fun n other => n = m ∧ other = key) := by
  unfold removeAll
  cases hk : s.slot? m key with
  | none =>
    have same := edits_absent h hk (f := fun _ => .empty) rfl
    refine ⟨(contents_of_slot?_eq_none hk).symm, { same with slots := fun id _ n other => ?_ }⟩
    refine ⟨fun hs => ⟨hs, ?_⟩, fun hs => hs.1⟩
    rintro ⟨rfl, rfl⟩
    rw [hk] at hs
    cases hs
  | some id =>
    refine ⟨(contents_of_slot? hk).symm, Effect.report ?_ _⟩
    refine effect_of_slot h hk (size_sets_setValues ..) rfl (size_tables_setTable ..)
      (slots_setTable_sublist s List.filter_sublist) (fun n k i => ?_)
      (values_setValues_self _ (h.allocated hk) _) (fun i hi => values_setValues_ne _ hi _)
      fun n k values hd => if_pos hd
    rw [slot?_setValues, slot?_dropSlot]
    split <;> simp_all

def emptyAll (s : Store K V) (slots : List (K × SetId)) : Store K V :=
  slots.foldl (fun s slot => s.setValues slot.2 .empty) s

omit [DecidableEq K] [DecidableEq V] in
theorem emptyAll_frame (slots : List (K × SetId)) :
    (s.emptyAll slots).held = s.held ∧ (s.emptyAll slots).tables = s.tables ∧
      (s.emptyAll slots).sets.size = s.sets.size := by
  induction slots generalizing s with
  | nil => exact ⟨rfl, rfl, rfl⟩
  | cons slot slots ih =>
    obtain ⟨held, tables, size⟩ := ih (s := s.setValues slot.2 .empty)
    exact ⟨held, tables, size.trans (size_sets_setValues ..)⟩

omit [DecidableEq K] [DecidableEq V] in
theorem values_setValues_empty (s : Store K V) (id other : SetId) :
    (s.setValues id .empty).values other = if other = id then .empty else s.values other := by
  by_cases he : other = id
  · subst he
    by_cases hi : other.index < s.sets.size
    · rw [if_pos rfl, values_setValues_self s hi]
    · simp [setValues, Store.values, hi]
  · rw [if_neg he, values_setValues_ne s he]

omit [DecidableEq K] [DecidableEq V] in
theorem values_emptyAll (slots : List (K × SetId)) (id : SetId) :
    (s.emptyAll slots).values id =
      if id ∈ slots.map Prod.snd then .empty else s.values id := by
  induction slots generalizing s with
  | nil => rfl
  | cons slot slots ih =>
    have step : s.emptyAll (slot :: slots) = (s.setValues slot.2 .empty).emptyAll slots := rfl
    rw [step, ih, values_setValues_empty, List.map_cons]
    grind

omit [DecidableEq V] in
theorem slot?_clear (m n : TableId) (key : K) :
    (s.clear m).slot? n key = if n = m then none else s.slot? n key := by
  obtain ⟨-, tables, -⟩ := emptyAll_frame (s := s) (s.table m).slots
  have same : (s.emptyAll (s.table m).slots).slot? n key = s.slot? n key := by
    rw [slot?, Store.table, tables]
    rfl
  have table : (s.clear m).table n = _ := table_setTable (s.emptyAll (s.table m).slots) m _ n
  rw [slot?, table]
  by_cases hn : n = m
  · subst hn
    rw [if_pos rfl]
    split
    · rfl
    · rename_i hm
      have hle : s.tables.size ≤ n.index := by simpa [tables] using hm
      exact same.trans (slot?_of_size_le hle key)
  · rw [if_neg fun e => hn e.1, if_neg hn]
    exact same

omit [DecidableEq V] in
theorem clear_effect (h : s.WellFormed) (m : TableId) :
    Effect s (s.clear m) 0 (fun n _ values => if n = m then .empty else values)
      (fun n _ => n = m) := by
  obtain ⟨held, tables, sets⟩ := emptyAll_frame (s := s) (s.table m).slots
  have values : ∀ i, (s.clear m).values i =
      if i ∈ (s.table m).slots.map Prod.snd then .empty else s.values i :=
    values_emptyAll (s.table m).slots
  have listed : ∀ i, i ∈ (s.table m).slots.map Prod.snd ↔ ∃ key, s.slot? m key = some i := by
    intro i
    simp [h.slot?_eq_some_iff]
  have kept : ∀ n, (s.emptyAll (s.table m).slots).table n = s.table n := fun n => by
    rw [Store.table, tables, ← Store.table]
  refine effect_of_slots h sets held ((size_tables_setTable ..).trans (congrArg Array.size tables))
    (fun n => ?_) (fun n key i => ?_) (fun n key i hi => ?_) (fun i hi => ?_)
    (fun n _ values hn => if_pos hn) fun n _ _ => ite_self _
  · rw [← kept n]
    exact slots_setTable_sublist _ (List.nil_sublist _) n
  · rw [slot?_clear]
    split <;> simp_all
  · rw [values]
    refine if_congr ((listed i).trans ⟨?_, ?_⟩) rfl rfl
    · rintro ⟨other, ho⟩
      exact (h.apart ho hi).1
    · rintro rfl
      exact ⟨key, hi⟩
  · rw [values, if_neg]
    rw [listed]
    rintro ⟨key, hk⟩
    exact hi m key hk

end LiveCollections.Multimap.Store
