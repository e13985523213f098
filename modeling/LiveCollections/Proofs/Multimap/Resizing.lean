import LiveCollections.Proofs.Multimap.Creation

/-!
# How tables grow and shrink

The number of slots of a table and its sweep threshold move in three ways only. Slots may
go, which leaves the threshold alone. A slot may be created below the threshold. At the
threshold the unused slots are swept before a slot is created, and the next threshold is
twice what the sweep has left, sixteen at least. A course is any number of such turns,
with what they report.

Every operation on a multimap takes its table through a course and leaves all other tables
alone. What is said of courses further on is said of operations without looking at one of
them again.
-/

namespace LiveCollections

/-- Whether slots are created or swept; slots also go where no event says so. -/
def Event.resizes : Event → Bool
  | .valueSetCreated | .unusedSwept .. => true
  | .valueSetDetached _ | .multimapCleared _ | .contractViolated _ => false

namespace Multimap

variable {K V α : Type}

-- ---------------------------------------------------------------------------
-- Turns and courses
-- ---------------------------------------------------------------------------

/-- What happens to a table at once, where no more than `used` of its slots are in use. -/
inductive Turn (used : Nat) : Table K → List Event → Table K → Prop
  | dropped {t u : Table K} {events : List Event} (fewer : u.slots.length ≤ t.slots.length)
    (threshold : u.sweepAt = t.sweepAt) (quiet : ∀ event ∈ events, event.resizes = false) :
    Turn used t events u
  | created {t u : Table K} (room : t.slots.length < t.sweepAt)
    (more : u.slots.length = t.slots.length + 1) (threshold : u.sweepAt = t.sweepAt) :
    Turn used t [.valueSetCreated] u
  | swept {t u : Table K} (full : t.sweepAt ≤ t.slots.length)
    (fewer : u.slots.length ≤ t.slots.length) (inUse : u.slots.length ≤ used)
    (threshold : u.sweepAt = max (2 * u.slots.length) sweepFloor) :
    Turn used t [.unusedSwept t.slots.length (t.slots.length - u.slots.length)] u

inductive Course (used : Nat) : Table K → List Event → Table K → Prop
  | done (t : Table K) : Course used t [] t
  | step {t u last : Table K} {events more : List Event} (turn : Turn used t events u)
    (rest : Course used u more last) : Course used t (events ++ more) last

section Courses

variable {used more : Nat} {t u last : Table K} {events later : List Event}

theorem Turn.course (h : Turn used t events u) : Course used t events u := by
  simpa using Course.step h (.done u)

theorem Turn.mono (h : Turn used t events u) (le : used ≤ more) : Turn more t events u := by
  cases h with
  | dropped fewer threshold quiet => exact .dropped fewer threshold quiet
  | created room more threshold => exact .created room more threshold
  | swept full fewer inUse threshold => exact .swept full fewer (Nat.le_trans inUse le) threshold

namespace Course

theorem mono (h : Course used t events u) (le : used ≤ more) : Course more t events u := by
  induction h with
  | done t => exact .done t
  | step turn _ ih => exact .step (turn.mono le) ih

theorem trans (h : Course used t events u) (h' : Course used u later last) :
    Course used t (events ++ later) last := by
  induction h with
  | done t => exact h'
  | step turn _ ih =>
    rw [List.append_assoc]
    exact .step turn (ih h')

end Course

end Courses

namespace Store

def usedSlots (s : Store K V) (m : TableId) : List (K × SetId) :=
  (s.table m).slots.filter fun slot => !s.isUnused slot.2

structure Resizes (used : Nat) (m : TableId) (s t : Store K V) : Prop where
  log : s.log <+: t.log
  course : Course used (s.table m) (t.log.drop s.log.length) (t.table m)
  others : ∀ n, n ≠ m → t.table n = s.table n

namespace Resizes

variable {used more : Nat} {m : TableId} {s t u : Store K V} {events : List Event}

theorem of_log (log : t.log = s.log ++ events) (course : Course used (s.table m) events (t.table m))
    (others : ∀ n, n ≠ m → t.table n = s.table n) : Resizes used m s t :=
  ⟨⟨events, log.symm⟩, by simpa [log] using course, others⟩

theorem of_tables (log : t.log = s.log) (same : ∀ n, t.table n = s.table n) :
    Resizes used m s t := by
  have nothing : t.log = s.log ++ [] := by simp [log]
  refine of_log nothing ?_ fun n _ => same n
  rw [same]
  exact .done _

theorem refl (used : Nat) (m : TableId) (s : Store K V) : Resizes used m s s :=
  of_tables rfl fun _ => rfl

theorem mono (h : Resizes used m s t) (le : used ≤ more) : Resizes more m s t :=
  ⟨h.log, h.course.mono le, h.others⟩

theorem trans (h : Resizes used m s t) (h' : Resizes used m t u) : Resizes used m s u := by
  obtain ⟨⟨events, log⟩, course, others⟩ := h
  obtain ⟨⟨later, log'⟩, course', others'⟩ := h'
  have first : Course used (s.table m) events (t.table m) := by simpa [← log] using course
  have second : Course used (t.table m) later (u.table m) := by simpa [← log'] using course'
  exact of_log (by simp [← log', ← log]) (first.trans second)
    fun n hn => (others' n hn).trans (others n hn)

theorem report {event : Event} (quiet : event.resizes = false) :
    Resizes used m s (s.report event) :=
  of_log rfl (Turn.course (.dropped (Nat.le_refl _) rfl (by simpa using quiet))) fun _ _ => rfl

theorem dropping {slots : List (K × SetId)} (fewer : slots.length ≤ (s.table m).slots.length) :
    Resizes used m s (s.setTable m { s.table m with slots }) := by
  have nothing : (s.setTable m { s.table m with slots }).log = s.log ++ [] := by simp [setTable]
  refine of_log nothing (Turn.course (.dropped ?_ ?_ (by simp))) fun n hn => table_setTable_ne s hn _
  · rw [table_setTable]
    split
    · exact fewer
    · exact Nat.le_refl _
  · rw [table_setTable]
    split <;> rfl

end Resizes

-- ---------------------------------------------------------------------------
-- Creating a slot
-- ---------------------------------------------------------------------------

section Creating

variable {s : Store K V} {m : TableId}

@[simp] theorem log_report (s : Store K V) (event : Event) :
    (s.report event).log = s.log ++ [event] := rfl

@[simp] theorem log_setTable (s : Store K V) (m : TableId) (table : Table K) :
    (s.setTable m table).log = s.log := rfl

theorem sweepIfFull_of_room (room : (s.table m).slots.length < (s.table m).sweepAt) :
    s.sweepIfFull m = s := by
  simp [sweepIfFull, Nat.not_le.mpr room]

theorem table_sweepIfFull_ne (s : Store K V) {n : TableId} (hn : n ≠ m) :
    (s.sweepIfFull m).table n = s.table n := by
  simp only [sweepIfFull]
  split
  · simp [sweep, table_setTable, hn]
  · rfl

section Full

variable (hm : m.index < s.tables.size) (full : (s.table m).sweepAt ≤ (s.table m).slots.length)

include hm full

theorem table_sweepIfFull : (s.sweepIfFull m).table m =
    { slots := s.usedSlots m, sweepAt := max (2 * (s.usedSlots m).length) sweepFloor } := by
  simp [sweepIfFull, full, sweep, table_setTable, hm, usedSlots]

theorem log_sweepIfFull : (s.sweepIfFull m).log = s.log ++ [.unusedSwept (s.table m).slots.length
    ((s.table m).slots.length - (s.usedSlots m).length)] := by
  simp [sweepIfFull, full, sweep, table_setTable, hm, usedSlots]

end Full

/-- A sweep always makes room, since twice what it leaves is more, or sixteen are. -/
theorem resizes_sweepIfFull (hm : m.index < s.tables.size) :
    Resizes (s.usedSlots m).length m s (s.sweepIfFull m) ∧
      ((s.sweepIfFull m).table m).slots.length < ((s.sweepIfFull m).table m).sweepAt := by
  by_cases full : (s.table m).sweepAt ≤ (s.table m).slots.length
  · have table := table_sweepIfFull hm full
    have fewer : (s.usedSlots m).length ≤ (s.table m).slots.length := List.length_filter_le ..
    have swept : Turn (s.usedSlots m).length (s.table m) _ ((s.sweepIfFull m).table m) :=
      .swept full (by simpa [table] using fewer) (by simp [table]) (by simp [table])
    refine ⟨.of_log ?_ swept.course fun n hn => table_sweepIfFull_ne s hn, ?_⟩
    · rw [log_sweepIfFull hm full, table]
    · simp only [table, sweepFloor]
      omega
  · have room := Nat.lt_of_not_le full
    rw [sweepIfFull_of_room room]
    exact ⟨.refl _ m s, room⟩

theorem resizes_addSlot {used : Nat} (hm : m.index < s.tables.size) (key : K)
    (room : (s.table m).slots.length < (s.table m).sweepAt) :
    Resizes used m s ((s.addSlot m key).2.report .valueSetCreated) := by
  have table : ((s.addSlot m key).2.report .valueSetCreated).table m =
      { s.table m with slots := (key, ⟨s.sets.size⟩) :: (s.table m).slots } :=
    table_setTable_self (s.newSet .empty).2 hm _
  refine .of_log rfl (Turn.course (.created room ?_ ?_)) fun n hn => ?_
  · rw [table]
    rfl
  · rw [table]
  · exact table_setTable_ne (s.newSet .empty).2 hn _

theorem resizes_slotFor [DecidableEq K] (hm : m.index < s.tables.size) (key : K) :
    Resizes (s.usedSlots m).length m s (s.slotFor m key).2 := by
  unfold slotFor
  cases s.slot? m key with
  | some id => exact .refl _ m s
  | none =>
    obtain ⟨swept, room⟩ := resizes_sweepIfFull hm
    have hm' : m.index < (s.sweepIfFull m).tables.size := by
      rwa [(tidied_sweepIfFull s m).tables]
    exact swept.trans (resizes_addSlot hm' key room)

end Creating

-- ---------------------------------------------------------------------------
-- Slots in use
-- ---------------------------------------------------------------------------

section InUse

variable {s t : Store K V} {m : TableId}

theorem isUnused_eq_false_iff {id : SetId} :
    s.isUnused id = false ↔ (∃ value, value ∈ s.values id) ∨ id ∈ s.held := by
  rw [← ValueSet.isEmpty_eq_false_iff]
  cases h : (s.values id).isEmpty <;> simp [isUnused, h]

variable [DecidableEq K]

theorem mem_keys_usedSlots (h : s.WellFormed) {key : K} :
    key ∈ (s.usedSlots m).map Prod.fst ↔ ∃ id, s.slot? m key = some id ∧ s.isUnused id = false := by
  simp [usedSlots, h.slot?_eq_some_iff]

theorem length_usedSlots_le (h : s.WellFormed) {edit : Edit K V} (e : Edits s t edit)
    (grows : ∀ key values, (∃ value, value ∈ values) → ∃ value, value ∈ edit m key values) :
    (s.usedSlots m).length ≤ (t.usedSlots m).length := by
  have distinct : ((s.usedSlots m).map Prod.fst).Nodup :=
    (List.filter_sublist.map Prod.fst).nodup (h.distinct m)
  have kept : (s.usedSlots m).map Prod.fst ⊆ (t.usedSlots m).map Prod.fst := by
    intro key hk
    obtain ⟨id, hs, used⟩ := (mem_keys_usedSlots h).mp hk
    rw [mem_keys_usedSlots e.wellFormed]
    rcases isUnused_eq_false_iff.mp used with present | held
    · obtain ⟨value, hv⟩ := grows key _ present
      rw [← contents_of_slot? hs, ← e.contents] at hv
      cases ht : t.slot? m key with
      | none =>
        rw [contents_of_slot?_eq_none ht] at hv
        exact absurd hv ValueSet.not_mem_empty
      | some other =>
        rw [contents_of_slot? ht] at hv
        exact ⟨other, rfl, isUnused_of_mem_values hv⟩
    · exact ⟨id, (e.slot?_eq held m key).mpr hs, isUnused_of_mem_held (e.held ▸ held)⟩
  simpa using (List.subperm_of_subset distinct kept).length_le

end InUse

-- ---------------------------------------------------------------------------
-- Operations
-- ---------------------------------------------------------------------------

section Operations

variable {s : Store K V} {m : TableId} {used : Nat}

theorem resizes_change (s : Store K V) (id : SetId) (f : ValueSet V → α × ValueSet V) :
    Resizes used m s (s.change id f).2 := .of_tables rfl fun _ => rfl

theorem log_emptyAll (s : Store K V) (slots : List (K × SetId)) :
    (s.emptyAll slots).log = s.log := by
  induction slots generalizing s with
  | nil => rfl
  | cons slot slots ih => exact ih (s.setValues slot.2 .empty)

theorem resizes_clear (s : Store K V) (m : TableId) : Resizes used m s (s.clear m) := by
  obtain ⟨-, tables, -⟩ := emptyAll_frame (s := s) (s.table m).slots
  have same : ∀ n, (s.emptyAll (s.table m).slots).table n = s.table n := fun n => by
    rw [Store.table, tables, ← Store.table]
  have cleared : s.clear m = ((s.emptyAll (s.table m).slots).setTable m
      { (s.emptyAll (s.table m).slots).table m with slots := [] }).report
        (.multimapCleared (s.table m).slots.length) := by
    rw [same]
    rfl
  have emptied : Resizes used m s (s.emptyAll (s.table m).slots) := .of_tables (log_emptyAll s _) same
  rw [cleared]
  exact (emptied.trans (.dropping (Nat.zero_le _))).trans (.report rfl)

variable [DecidableEq K]

theorem resizes_updatePresent? (s : Store K V) (m : TableId) (key : K)
    (f : ValueSet V → α × ValueSet V) (otherwise : α) :
    Resizes used m s ((s.updatePresent? m key f).getD (otherwise, s)).2 := by
  unfold updatePresent?
  cases s.slot? m key with
  | none => exact .refl _ m s
  | some id => exact resizes_change s id f

theorem resizes_update (hm : m.index < s.tables.size) (key : K)
    (f : ValueSet V → α × ValueSet V) :
    Resizes (s.usedSlots m).length m s (s.update m key f).2 := by
  unfold update updatePresent?
  cases s.slot? m key with
  | some id => exact resizes_change s id f
  | none => exact (resizes_slotFor hm key).trans (resizes_change _ _ f)

theorem resizes_dropSlot (s : Store K V) (m : TableId) (key : K) :
    Resizes used m s (s.dropSlot m key) := .dropping (List.length_filter_le ..)

theorem resizes_prune (s : Store K V) (m : TableId) (key : K) :
    Resizes used m s (s.prune m key) := by
  unfold prune
  split
  · split
    · exact resizes_dropSlot s m key
    · exact .refl _ m s
  · exact .refl _ m s

theorem resizes_removeAll (s : Store K V) (m : TableId) (key : K) :
    Resizes used m s (s.removeAll m key).2 := by
  unfold removeAll
  cases s.slot? m key with
  | none => exact .refl _ m s
  | some id =>
    have emptied : Resizes used m (s.dropSlot m key) ((s.dropSlot m key).setValues id .empty) :=
      .of_tables rfl fun _ => rfl
    exact ((resizes_dropSlot s m key).trans emptied).trans (.report rfl)

variable [DecidableEq V]

theorem resizes_remove (s : Store K V) (m : TableId) (key : K) (value : V) :
    Resizes used m s (s.remove m key value).2 := by
  have struck : Resizes used m s (s.strike m key value).2 :=
    resizes_updatePresent? s m key (removal value) false
  rw [remove_eq_strike]
  dsimp only
  split
  · exact struck.trans (resizes_prune _ m key)
  · exact struck

theorem resizes_putAll (hm : m.index < s.tables.size) (key : K) (values : List V) :
    Resizes (s.usedSlots m).length m s (s.putAll m key values).2 := by
  unfold putAll
  split
  · exact .refl _ m s
  · exact resizes_update hm key _

/-- No put takes a slot out of use, so that no sweep on the way leaves more than are in use at the
end. -/
theorem resizes_putEach (h : s.WellFormed) (hm : m.index < s.tables.size) (pairs : List (K × V)) :
    Resizes ((s.putEach m pairs).2.usedSlots m).length m s (s.putEach m pairs).2 := by
  induction pairs generalizing s with
  | nil => exact .refl _ m s
  | cons pair pairs ih =>
    obtain ⟨key, value⟩ := pair
    have first := (put_effect h hm key value).2
    have hm' : m.index < (s.put m key value).2.tables.size := first.tables ▸ hm
    have whole := putEach_effect h hm ((key, value) :: pairs)
    have le : (s.usedSlots m).length ≤ ((s.putEach m ((key, value) :: pairs)).2.usedSlots m).length := by
      refine length_usedSlots_le h whole fun k values present => ?_
      obtain ⟨v, hv⟩ := present
      exact ⟨v, by simp [ValueSet.mem_insertAll, hv]⟩
    exact ((resizes_update hm key _).mono le).trans (ih first.wellFormed hm')

omit [DecidableEq K] [DecidableEq V] in
theorem resizes_create (s : Store K V) (m : TableId) : Resizes used m s s.create.2 := by
  refine .of_tables rfl fun n => ?_
  unfold create newTable table
  rw [Array.getElem?_push]
  split
  · rename_i new
    simp [new]
  · rfl

theorem resizes_createFrom (h : s.WellFormed) (pairs : List (K × V)) :
    Resizes ((s.createFrom pairs).2.usedSlots ⟨s.tables.size⟩).length ⟨s.tables.size⟩ s
      (s.createFrom pairs).2 := by
  obtain ⟨answer, created⟩ := create_effect h
  have hm : s.create.1.index < s.create.2.tables.size := by
    rw [answer, created.tables]
    exact Nat.lt_succ_self _
  have put := resizes_putEach created.wellFormed hm pairs
  rw [answer] at put
  exact (resizes_create s _).trans put

end Operations

end Store

end Multimap

end LiveCollections
