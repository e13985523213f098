import LiveCollections.Proofs.Run
import LiveCollections.Proofs.Storage.Operations

/-!
# Edits

An operation asks the strategy before it changes anything, if it asks at all, and then makes
one edit at one position. The strategy may name a position that is not there: then nothing is
edited, whether the operation faults or has nothing to answer.

Keys and values are arrays of their own, edited one after the other. An array that is edited
past its end faults, and what was done to the other array before stays done. While there are
as many values as keys only the first of the two edits can fault, so that no operation leaves
a key without a value.
-/

namespace LiveCollections

variable {σ K V : Type}

/-- What is done to a storage once the position is known. -/
inductive Edit (K V : Type)
  | nothing
  | insert (index : Nat) (key : K) (value : V)
  | overwrite (index : Nat) (value : V)
  | remove (index : Nat)
  | removeAll
  /-- Gives back the room that is not needed. -/
  | trim

namespace Edit

def Fits (size : Nat) : Edit K V → Prop
  | insert index _ _ => index ≤ size
  | overwrite index _ | remove index => index < size
  | nothing | removeAll | trim => True

instance (size : Nat) : (edit : Edit K V) → Decidable (edit.Fits size)
  | insert index _ _ => inferInstanceAs (Decidable (index ≤ size))
  | overwrite index _ | remove index => inferInstanceAs (Decidable (index < size))
  | nothing | removeAll | trim => inferInstanceAs (Decidable True)

def within (size : Nat) (edit : Edit K V) : Edit K V := if edit.Fits size then edit else nothing

def apply (entries : List (K × V)) : Edit K V → List (K × V)
  | nothing | trim => entries
  | insert index key value => entries.insertIdx index (key, value)
  | overwrite index value => entries.modify index fun entry => (entry.1, value)
  | remove index => entries.eraseIdx index
  | removeAll => []

/-- The value that loses its place. Only an insertion can fault. -/
def answer (entries : List (K × V)) : Edit K V → Except Fault (Option V)
  | insert index _ _ =>
    if index ≤ entries.length then .ok none else .error (.indexPastEnd index entries.length)
  | overwrite index _ | remove index => .ok (entries[index]?.map Prod.snd)
  | nothing | removeAll | trim => .ok none

variable {edit : Edit K V} {size : Nat} {entries : List (K × V)}

theorem fits_within (edit : Edit K V) (size : Nat) : (edit.within size).Fits size := by
  unfold within
  split
  · assumption
  · trivial

theorem apply_within : (edit.within entries.length).apply entries = edit.apply entries := by
  unfold within
  split
  · rfl
  · rename_i outside
    cases edit with
    | insert index _ _ => exact (List.insertIdx_of_length_lt (Nat.lt_of_not_le outside)).symm
    | overwrite index _ => exact (List.modify_eq_self (Nat.le_of_not_lt outside)).symm
    | remove index => exact (List.eraseIdx_of_length_le (Nat.le_of_not_lt outside)).symm
    | nothing | removeAll | trim => exact absurd trivial outside

theorem within_of_answer_eq_error {fault : Fault} (h : edit.answer entries = .error fault) :
    edit.within entries.length = nothing := by
  cases edit with
  | insert index key value =>
    refine if_neg fun (inside : index ≤ entries.length) => ?_
    rw [answer, if_pos inside] at h
    cases h
  | nothing | overwrite _ _ | remove _ | removeAll | trim => cases h

end Edit

-- ---------------------------------------------------------------------------
-- Operations are edits
-- ---------------------------------------------------------------------------

def StorageCommand.edit [IndexStrategy σ K] (s : Storage σ K V) : StorageCommand K V → Edit K V
  | .insertAt index key value => .insert index key value
  | .removeAt index => .remove index
  | .replaceValueAt index value => .overwrite index value
  | .upsert key value =>
    match s.indexOf? key, s.insertionIndex key with
    | some index, _ => .overwrite index value
    | none, .ok index => .insert index key value
    | none, .error (.contractViolation index) => .overwrite index value
    | none, .error _ => .nothing
  | .removeKey key => (s.indexOf? key).elim .nothing .remove
  | .clear => .removeAll
  | .shrinkToFit | .copy => .trim

def StorageAnswer.taken : StorageAnswer K V → Except Fault (Option V)
  | inserted answer => answer.map fun _ => none
  | removed entry => .ok (entry.map Prod.snd)
  | replaced previous => .ok previous
  | upserted answer _ => answer
  | done => .ok none

namespace Storage

def edited (s : Storage σ K V) : Edit K V → Except Fault (Option V) × Storage σ K V
  | .nothing => (.ok none, s)
  | .insert index key value =>
    let outcome := s.insertAt index key value
    (outcome.answer.map fun _ => none, outcome.after)
  | .overwrite index value => (s.replaceValueAt index value).map .ok id
  | .remove index => (s.removeAt index).map (fun entry => .ok (entry.map Prod.snd)) id
  | .removeAll => (.ok none, s.clear)
  | .trim => (.ok none, s.shrinkToFit)

theorem edited_edit [IndexStrategy σ K] (s : Storage σ K V) (c : StorageCommand K V) :
    s.edited (c.edit s) = ((s.operate c).1.taken, (s.operate c).2) := by
  cases c with
  | upsert key value =>
    simp only [operate, StorageCommand.edit, StorageAnswer.taken, Storage.upsert]
    cases s.indexOf? key with
    | some index => rfl
    | none =>
      cases s.insertionIndex key with
      | ok index => rfl
      | error error => cases error <;> rfl
  | removeKey key =>
    simp only [operate, StorageCommand.edit, Storage.removeKey]
    cases s.indexOf? key <;> rfl
  | insertAt _ _ _ | removeAt _ | replaceValueAt _ _ | clear | shrinkToFit | copy => rfl

variable {s : Storage σ K V}

theorem replaceValueAt_answer_eq (h : s.Paired) (index : Nat) (value : V) :
    (s.replaceValueAt index value).1 = s.pairs[index]?.map Prod.snd := by
  rw [← List.getElem?_map, ← h.values_eq]
  unfold replaceValueAt valueAt?
  cases s.values[index]? <;> rfl

theorem Paired.edited (h : s.Paired) (edit : Edit K V) :
    (s.edited edit).2.Paired ∧ (s.edited edit).1 = edit.answer s.pairs ∧
      (s.edited edit).2.pairs = edit.apply s.pairs := by
  cases edit with
  | nothing | trim => exact ⟨h, rfl, rfl⟩
  | removeAll => exact ⟨paired_clear s, rfl, rfl⟩
  | overwrite index value =>
    exact ⟨h.replaceValueAt index value, congrArg _ (replaceValueAt_answer_eq h index value),
      pairs_replaceValueAt s index value⟩
  | remove index =>
    refine ⟨h.removeAt index, ?_, pairs_removeAt s index⟩
    exact congrArg (fun entry => Except.ok (Option.map Prod.snd entry)) (s.removeAt_answer_eq index)
  | insert index key value =>
    refine ⟨h.insertAt index key value, ?_, ?_⟩
    · simp only [Storage.edited, Edit.answer, h.length_pairs, Storage.insertAt]
      split <;> rfl
    · rcases Nat.lt_or_ge s.size index with outside | inside
      · have past : s.pairs.length < index := by rwa [h.length_pairs]
        exact (pairs_insertAt_of_size_lt outside key value).trans
          (List.insertIdx_of_length_lt past).symm
      · exact pairs_insertAt h inside key value

/-- Where the position is not there, an insertion faults and has made room in vain, and any other
edit answers that there is no value. -/
theorem edited_of_within_eq_nothing {edit : Edit K V} (paired : s.Paired)
    (h : edit.within s.size = .nothing) :
    s.edited edit = (.ok none, s) ∨
      ∃ index, s.size < index ∧
        s.edited edit = (.error (.indexPastEnd index s.size), s.growIfFull) := by
  unfold Edit.within at h
  split at h
  · subst h
    exact .inl rfl
  · rename_i outside
    cases edit with
    | insert index key value =>
      have outside : ¬ index ≤ s.size := outside
      refine .inr ⟨index, Nat.lt_of_not_le outside, ?_⟩
      simp only [edited, insertAt, if_neg outside, Except.map]
    | overwrite index value =>
      have past : s.values.length ≤ index := paired ▸ Nat.le_of_not_lt outside
      have absent : s.valueAt? index = none := List.getElem?_eq_none past
      refine .inl ?_
      simp only [edited, replaceValueAt, absent, Prod.map, id]
    | remove index =>
      have absent : s.entryAt? index = none := by
        simp only [entryAt?, keyAt?, List.getElem?_eq_none (Nat.le_of_not_lt outside)]
      refine .inl ?_
      simp only [edited, removeAt, absent, Prod.map, id, Option.map]
    | nothing | removeAll | trim => exact absurd trivial outside

end Storage

-- ---------------------------------------------------------------------------
-- One array after the other
-- ---------------------------------------------------------------------------

section Arrays

inductive ArrayEdit (K V : Type)
  | grow
  | insertKey (index : Nat) (key : K)
  | insertValue (index : Nat) (value : V)
  | removeKey (index : Nat)
  | removeValue (index : Nat)
  | setValue (index : Nat) (value : V)
  | clearKeys
  | clearValues
  | trim

variable {α : Type}

def insertInto (array : List α) (index : Nat) (a : α) : Except Fault (List α) :=
  if index ≤ array.length then .ok (array.insertIdx index a)
  else .error (.indexPastEnd index array.length)

def removeFrom (array : List α) (index : Nat) : Except Fault (List α) :=
  if index < array.length then .ok (array.eraseIdx index)
  else .error (.indexPastEnd index array.length)

def Storage.touch (s : Storage σ K V) : ArrayEdit K V → Except Fault (Storage σ K V)
  | .grow => .ok s.growIfFull
  | .insertKey index key => (insertInto s.keys index key).map fun keys => { s with keys }
  | .insertValue index value =>
    (insertInto s.values index value).map fun values => { s with values }
  | .removeKey index => (removeFrom s.keys index).map fun keys => { s with keys }
  | .removeValue index => (removeFrom s.values index).map fun values => { s with values }
  | .setValue index value => .ok { s with values := s.values.set index value }
  | .clearKeys => .ok { s with keys := [] }
  | .clearValues => .ok { s with values := [] }
  | .trim => .ok s.shrinkToFit

/-- Edits arrays one after the other, up to the first fault. -/
def Storage.touchAll (s : Storage σ K V) : List (ArrayEdit K V) → Except Fault Unit × Storage σ K V
  | [] => (.ok (), s)
  | touch :: rest =>
    match s.touch touch with
    | .ok t => t.touchAll rest
    | .error fault => (.error fault, s)

/-- The position of a removal is compared with the number of keys alone, that of a value to
overwrite with the number of values. -/
def Edit.touches (s : Storage σ K V) : Edit K V → List (ArrayEdit K V)
  | nothing => []
  | insert index key value => [.grow, .insertKey index key, .insertValue index value]
  | overwrite index value => if index < s.values.length then [.setValue index value] else []
  | remove index => if index < s.keys.length then [.removeKey index, .removeValue index] else []
  | removeAll => [.clearKeys, .clearValues]
  | trim => [.trim]

namespace Storage

variable {s : Storage σ K V}

/-- Whether both arrays take an entry is seen at the first of them. -/
theorem touchAll_insert (lengths : s.keys.length = s.values.length) (index : Nat) (key : K)
    (value : V) : s.touchAll [.grow, .insertKey index key, .insertValue index value] =
      ((s.insertAt index key value).answer, (s.insertAt index key value).after) := by
  rcases Nat.lt_or_ge s.keys.length index with outside | inside
  · have past : ¬ index ≤ s.keys.length := Nat.not_le_of_lt outside
    have faulted : s.insertAt index key value =
        { answer := .error (.indexPastEnd index s.keys.length), after := s.growIfFull } :=
      if_neg past
    simp only [touchAll, touch, insertInto, keys_growIfFull, if_neg past, Except.map, faulted]
  · have fits : index ≤ s.values.length := lengths ▸ inside
    have fits' : index ≤ s.size := inside
    simp only [touchAll, touch, insertInto, keys_growIfFull, values_growIfFull, if_pos inside,
      if_pos fits, Except.map, insertAt, if_pos fits']

theorem touchAll_remove (lengths : s.keys.length = s.values.length) (index : Nat) :
    s.touchAll (if index < s.keys.length then [.removeKey index, .removeValue index] else []) =
      (.ok (), (s.removeAt index).2) := by
  split
  · rename_i inside
    have fits : index < s.values.length := lengths ▸ inside
    have entry : s.entryAt? index = some (s.keys[index], s.values[index]) := by
      simp only [entryAt?, keyAt?, valueAt?, List.getElem?_eq_getElem inside,
        List.getElem?_eq_getElem fits]
    simp only [touchAll, touch, removeFrom, if_pos inside, if_pos fits, Except.map, removeAt, entry]
  · rename_i outside
    have entry : s.entryAt? index = none := by
      simp only [entryAt?, keyAt?, List.getElem?_eq_none (Nat.le_of_not_lt outside)]
    simp only [touchAll, removeAt, entry]

theorem touchAll_overwrite (s : Storage σ K V) (index : Nat) (value : V) :
    s.touchAll (if index < s.values.length then [.setValue index value] else []) =
      (.ok (), (s.replaceValueAt index value).2) := by
  split
  · rename_i inside
    simp only [touchAll, touch, replaceValueAt, valueAt?, List.getElem?_eq_getElem inside]
  · rename_i outside
    simp only [touchAll, replaceValueAt, valueAt?, List.getElem?_eq_none (Nat.le_of_not_lt outside)]

theorem Paired.touchAll_touches (h : s.Paired) (edit : Edit K V) :
    s.touchAll (edit.touches s) = ((s.edited edit).1.map fun _ => (), (s.edited edit).2) := by
  cases edit with
  | nothing | removeAll | trim => rfl
  | insert index key value =>
    refine (touchAll_insert h index key value).trans ?_
    simp only [Storage.edited]
    cases (s.insertAt index key value).answer <;> rfl
  | overwrite index value => exact touchAll_overwrite s index value
  | remove index => exact touchAll_remove h index

end Storage

variable [IndexStrategy σ K]

def Storage.operateApart (s : Storage σ K V) (c : StorageCommand K V) :
    Except Fault Unit × Storage σ K V :=
  s.touchAll ((c.edit s).touches s)

namespace Storage

variable {s : Storage σ K V}

theorem Paired.operate (h : s.Paired) (c : StorageCommand K V) : (s.operate c).2.Paired := by
  have after := (h.edited (c.edit s)).1
  rwa [edited_edit] at after

theorem Paired.operateApart (h : s.Paired) (c : StorageCommand K V) :
    s.operateApart c = ((s.operate c).1.taken.map fun _ => (), (s.operate c).2) := by
  rw [Storage.operateApart, h.touchAll_touches, edited_edit]

theorem Paired.run (h : s.Paired) (commands : List (StorageCommand K V)) :
    run Storage.operateApart s commands =
        ((run Storage.operate s commands).1.map fun answer => answer.taken.map fun _ => (),
          (run Storage.operate s commands).2) ∧
      (run Storage.operate s commands).2.Paired := by
  induction commands generalizing s with
  | nil => exact ⟨rfl, h⟩
  | cons c cs ih =>
    obtain ⟨same, paired⟩ := ih (h.operate c)
    rw [run_cons, run_cons, h.operateApart c, same]
    exact ⟨rfl, paired⟩

end Storage

end Arrays

-- ---------------------------------------------------------------------------
-- The main result
-- ---------------------------------------------------------------------------

/-- Under any strategy keys and values stay paired, and an operation is one edit that fits. -/
theorem operations_are_single_edits [IndexStrategy σ K] (strategy : σ) (capacity : Nat)
    (commands : List (StorageCommand K V)) :
    let start : Storage σ K V := .withCapacity capacity strategy
    let s := (run Storage.operate start commands).2
    -- the arrays are edited one after the other, with the same faults and the same outcome
    run Storage.operateApart start commands =
      ((run Storage.operate start commands).1.map fun answer => answer.taken.map fun _ => (), s) ∧
    s.keys.length = s.values.length ∧
    ∀ c : StorageCommand K V,
      let edit := (c.edit s).within s.size
      edit.Fits s.size ∧ (s.operate c).2.pairs = edit.apply s.pairs ∧
      (s.operate c).1.taken = (c.edit s).answer s.pairs ∧
      -- what edits nothing has no value to answer, or faults and has made room in vain
      (∀ fault, (s.operate c).1.taken = .error fault → edit = .nothing) ∧
      (edit = .nothing →
        (s.operate c).1.taken = .ok none ∧ (s.operate c).2 = s ∨
        ∃ index, s.size < index ∧ (s.operate c).1.taken = .error (.indexPastEnd index s.size) ∧
          (s.operate c).2 = s.growIfFull) := by
  intro start s
  have paired : start.Paired := Storage.paired_withCapacity capacity strategy
  obtain ⟨apart, paired⟩ := paired.run commands
  change s.Paired at paired
  refine ⟨apart, paired, fun c => ?_⟩
  have operation := s.edited_edit c
  obtain ⟨-, answer, pairs⟩ := paired.edited (c.edit s)
  rw [operation] at answer pairs
  refine ⟨Edit.fits_within _ _, ?_, answer, fun fault faulted => ?_, fun nothing => ?_⟩
  · rw [← paired.length_pairs, Edit.apply_within]
    exact pairs
  · rw [← paired.length_pairs]
    exact Edit.within_of_answer_eq_error (answer.symm.trans faulted)
  · have outcome := Storage.edited_of_within_eq_nothing paired nothing
    rw [operation] at outcome
    simpa only [Prod.mk.injEq] using outcome

end LiveCollections
