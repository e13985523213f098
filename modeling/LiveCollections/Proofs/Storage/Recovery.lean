import LiveCollections.Proofs.Storage.Edits
import LiveCollections.Proofs.Storage.Sorted

/-!
# Recovery from an overlooked key

A strategy that places keys as binary search does may still overlook a key when it is asked
where the key is. An upsert of an overlooked key is refused a place, and the refusal names the
position of the key: it is the same search of the same keys that would have found it. Taking
that position makes the same edit as finding the key, so that all an overlooked key costs is an
event. This needs no order of the keys, and no law of the comparator.

A removal has nothing to fall back on, and leaves an overlooked key where it is.
-/

namespace LiveCollections

variable {σ τ K V : Type} {c : Comparator K}

/-- Places keys as binary search does, and finds a key where the search does or overlooks it. -/
structure Overlooking [IndexStrategy σ K] (c : Comparator K) (strategy : σ) : Prop where
  places : ∀ (keys : List K) key, IndexStrategy.insertionIndex strategy keys key =
    IndexStrategy.insertionIndex (BinarySearch.mk c) keys key
  finds : ∀ (keys : List K) key, IndexStrategy.indexOf strategy keys key = none ∨
    IndexStrategy.indexOf strategy keys key = IndexStrategy.indexOf (BinarySearch.mk c) keys key

theorem overlooking_binarySearch (c : Comparator K) : Overlooking c (BinarySearch.mk c) where
  places _ _ := rfl
  finds _ _ := .inr rfl

structure ForgetfulSearch (K : Type) where
  comparator : Comparator K
  overlooks : List K → K → Bool

instance : IndexStrategy (ForgetfulSearch K) K where
  indexOf s keys key :=
    if s.overlooks keys key then none
    else IndexStrategy.indexOf (BinarySearch.mk s.comparator) keys key
  insertionIndex s := IndexStrategy.insertionIndex (BinarySearch.mk s.comparator)

theorem ForgetfulSearch.overlooking (s : ForgetfulSearch K) : Overlooking s.comparator s where
  places _ _ := rfl
  finds keys key := by
    rcases Bool.eq_false_or_eq_true (s.overlooks keys key) with forgets | knows
    · exact .inl (if_pos forgets)
    · exact .inr (if_neg (Bool.not_eq_true _ ▸ knows))

-- ---------------------------------------------------------------------------
-- The same entries under another strategy
-- ---------------------------------------------------------------------------

namespace Storage

def withStrategy (s : Storage σ K V) (strategy : τ) : Storage τ K V :=
  { keys := s.keys, values := s.values, capacity := s.capacity, strategy }

theorem insertAt_withStrategy (s : Storage σ K V) (strategy : τ) (index : Nat) (key : K)
    (value : V) :
    ((s.withStrategy strategy).insertAt index key value).answer =
        (s.insertAt index key value).answer ∧
      ((s.withStrategy strategy).insertAt index key value).after =
        (s.insertAt index key value).after.withStrategy strategy := by
  have grown : (s.withStrategy strategy).growIfFull = s.growIfFull.withStrategy strategy := by
    unfold growIfFull
    rw [apply_ite (withStrategy · strategy)]
    rfl
  unfold insertAt
  rw [grown]
  change (ite (index ≤ s.size) _ _ : Outcome τ K V Unit).answer = _ ∧
    (ite (index ≤ s.size) _ _ : Outcome τ K V Unit).after = _
  split <;> exact ⟨rfl, rfl⟩

theorem edited_withStrategy (s : Storage σ K V) (strategy : τ) (edit : Edit K V) :
    (s.withStrategy strategy).edited edit =
      ((s.edited edit).1, (s.edited edit).2.withStrategy strategy) := by
  cases edit with
  | nothing | removeAll | trim => rfl
  | insert index key value =>
    obtain ⟨answer, after⟩ := s.insertAt_withStrategy strategy index key value
    simp only [edited, answer, after]
  | overwrite index value =>
    simp only [edited, replaceValueAt, valueAt?, withStrategy]
    cases s.values[index]? <;> rfl
  | remove index =>
    simp only [edited, removeAt, entryAt?, keyAt?, valueAt?, withStrategy]
    cases s.keys[index]? <;> cases s.values[index]? <;> rfl

theorem strategy_edited (s : Storage σ K V) (edit : Edit K V) :
    (s.edited edit).2.strategy = s.strategy := by
  cases edit with
  | insert index key value => exact s.strategy_insertAt index key value
  | overwrite index value => exact s.strategy_replaceValueAt index value
  | remove index => exact s.strategy_removeAt index
  | nothing | removeAll | trim => rfl

end Storage

-- ---------------------------------------------------------------------------
-- One operation
-- ---------------------------------------------------------------------------

/-- Only a removal by key depends on a lookup alone. -/
def StorageCommand.removesByKey : StorageCommand K V → Bool
  | .removeKey _ => true
  | _ => false

/-- What an upsert reports: the position of a key that the lookup misses and the search finds. -/
def Storage.overlooked [IndexStrategy σ K] (s : Storage σ K V) (c : Comparator K) (key : K) :
    List Event :=
  match s.indexOf? key, BinarySearch.search ⟨c⟩ s.keys key with
  | none, .found index => [.contractViolated (.contractViolation index)]
  | _, _ => []

theorem Storage.events_recover [IndexStrategy σ K] (s : Storage σ K V) (error : CollectionError)
    (value : V) : (s.recover error value).events = [.contractViolated error] := by
  unfold recover
  split <;> rfl

theorem Storage.events_insertAt (s : Storage σ K V) (index : Nat) (key : K) (value : V) :
    (s.insertAt index key value).events = [] := by
  unfold insertAt
  split <;> rfl

theorem Storage.overlooked_withStrategy (s : Storage σ K V) (c : Comparator K) (key : K) :
    (s.withStrategy (BinarySearch.mk c)).overlooked c key = [] := by
  have lookup := (s.withStrategy (BinarySearch.mk c)).indexOf?_eq_search key
  simp only [withStrategy] at lookup
  simp only [overlooked, withStrategy, lookup]
  cases BinarySearch.search ⟨c⟩ s.keys key <;> rfl

theorem Storage.overlooked_iff [IndexStrategy σ K] (s : Storage σ K V) (c : Comparator K) (key : K) :
    (∃ event, s.overlooked c key = [event] ∧ event.level = .error) ↔
      s.indexOf? key = none ∧ ∃ index, BinarySearch.search ⟨c⟩ s.keys key = .found index := by
  unfold overlooked
  cases s.indexOf? key with
  | some index => simp
  | none =>
    cases BinarySearch.search ⟨c⟩ s.keys key with
    | found index => exact iff_of_true ⟨_, rfl, rfl⟩ ⟨rfl, index, rfl⟩
    | absent index => simp

namespace Overlooking

variable [IndexStrategy σ K] {s : Storage σ K V}

theorem lookups (h : Overlooking c s.strategy) (key : K) :
    (∃ index, BinarySearch.search ⟨c⟩ s.keys key = .found index ∧
      (s.indexOf? key = none ∨ s.indexOf? key = some index) ∧
      s.insertionIndex key = .error (.contractViolation index)) ∨
    ∃ index, BinarySearch.search ⟨c⟩ s.keys key = .absent index ∧
      s.indexOf? key = none ∧ s.insertionIndex key = .ok index := by
  have finds := h.finds s.keys key
  have places := h.places s.keys key
  simp only [IndexStrategy.indexOf] at finds
  simp only [IndexStrategy.insertionIndex] at places
  cases hs : BinarySearch.search ⟨c⟩ s.keys key with
  | found index =>
    rw [hs] at finds places
    exact .inl ⟨index, rfl, finds, places⟩
  | absent index =>
    rw [hs] at finds places
    exact .inr ⟨index, rfl, finds.elim id id, places⟩

theorem edit_upsert (h : Overlooking c s.strategy) (key : K) (value : V) :
    (StorageCommand.upsert key value).edit s =
      match BinarySearch.search ⟨c⟩ s.keys key with
      | .found index => .overwrite index value
      | .absent index => .insert index key value := by
  rcases h.lookups key with ⟨index, hs, overlooked | found, place⟩ | ⟨index, hs, absent, place⟩
  · simp only [StorageCommand.edit, hs, overlooked, place]
  · simp only [StorageCommand.edit, hs, found]
  · simp only [StorageCommand.edit, hs, absent, place]

theorem events_upsert (h : Overlooking c s.strategy) (key : K) (value : V) :
    (s.upsert key value).events = s.overlooked c key := by
  unfold Storage.upsert Storage.overlooked
  rcases h.lookups key with ⟨index, hs, overlooked | found, place⟩ | ⟨index, hs, absent, place⟩
  · rw [hs, overlooked, place]
    exact s.events_recover _ value
  · rw [hs, found]
  · rw [hs, absent, place]
    exact s.events_insertAt index key value

theorem edit_withStrategy (h : Overlooking c s.strategy) {d : StorageCommand K V}
    (hd : d.removesByKey = false) :
    d.edit (s.withStrategy (BinarySearch.mk c)) = d.edit s := by
  cases d with
  | upsert key value =>
    have direct : Overlooking c (s.withStrategy (BinarySearch.mk c)).strategy :=
      overlooking_binarySearch c
    rw [h.edit_upsert, direct.edit_upsert]
    rfl
  | removeKey key => cases hd
  | insertAt _ _ _ | removeAt _ | replaceValueAt _ _ | clear | shrinkToFit | copy => rfl

theorem operate (h : Overlooking c s.strategy) {d : StorageCommand K V}
    (hd : d.removesByKey = false) :
    (s.operate d).1.taken = ((s.withStrategy (BinarySearch.mk c)).operate d).1.taken ∧
      (s.operate d).2.withStrategy (BinarySearch.mk c) =
        ((s.withStrategy (BinarySearch.mk c)).operate d).2 ∧
      (s.operate d).2.strategy = s.strategy := by
  have overlooking := s.edited_edit d
  have direct := (s.withStrategy (BinarySearch.mk c)).edited_edit d
  rw [h.edit_withStrategy hd, Storage.edited_withStrategy, overlooking] at direct
  have kept := s.strategy_edited (d.edit s)
  rw [overlooking] at kept
  exact ⟨congrArg Prod.fst direct, congrArg Prod.snd direct, kept⟩

theorem run_withStrategy (h : Overlooking c s.strategy) {commands : List (StorageCommand K V)}
    (placed : ∀ d ∈ commands, d.removesByKey = false) :
    (run Storage.operate s commands).1.map StorageAnswer.taken =
        (run Storage.operate (s.withStrategy (BinarySearch.mk c)) commands).1.map
          StorageAnswer.taken ∧
      (run Storage.operate s commands).2.withStrategy (BinarySearch.mk c) =
        (run Storage.operate (s.withStrategy (BinarySearch.mk c)) commands).2 ∧
      (run Storage.operate s commands).2.strategy = s.strategy := by
  induction commands generalizing s with
  | nil => exact ⟨rfl, rfl, rfl⟩
  | cons d ds ih =>
    obtain ⟨first, rest⟩ := List.forall_mem_cons.mp placed
    obtain ⟨answer, after, strategy⟩ := h.operate first
    have next : Overlooking c (s.operate d).2.strategy := strategy.symm ▸ h
    obtain ⟨answers, last, kept⟩ := ih next rest
    rw [run_cons, run_cons, ← after]
    exact ⟨congrArg₂ List.cons answer answers, last, kept.trans strategy⟩

end Overlooking

-- ---------------------------------------------------------------------------
-- The main result
-- ---------------------------------------------------------------------------

/-- Whatever keys are overlooked, the entries are those of binary search itself, and an upsert
answers as it does; the event of an overlooked key is the only difference. -/
theorem overlooked_keys_are_recovered [IndexStrategy σ K] (c : Comparator K) (s : Storage σ K V)
    (overlooking : Overlooking c s.strategy) (commands : List (StorageCommand K V))
    (placed : ∀ d ∈ commands, d.removesByKey = false) :
    let u := run Storage.operate s commands
    let v := run Storage.operate (s.withStrategy (BinarySearch.mk c)) commands
    u.1.map StorageAnswer.taken = v.1.map StorageAnswer.taken ∧
    u.2.keys = v.2.keys ∧ u.2.values = v.2.values ∧ u.2.capacity = v.2.capacity ∧
    ∀ key value,
      let recovered := u.2.upsert key value
      let direct := v.2.upsert key value
      recovered.answer = direct.answer ∧ recovered.after.keys = direct.after.keys ∧
      recovered.after.values = direct.after.values ∧
      direct.events = [] ∧ recovered.events = u.2.overlooked c key ∧
      ((∃ event, recovered.events = [event] ∧ event.level = .error) ↔
        u.2.indexOf? key = none ∧
          ∃ index, BinarySearch.search ⟨c⟩ u.2.keys key = .found index) := by
  intro u v
  obtain ⟨answers, last, strategy⟩ := overlooking.run_withStrategy placed
  change u.2.withStrategy (BinarySearch.mk c) = v.2 at last
  have overlooking : Overlooking c u.2.strategy := strategy.symm ▸ overlooking
  refine ⟨answers, congrArg Storage.keys last, congrArg Storage.values last,
    congrArg Storage.capacity last, fun key value => ?_⟩
  have direct : Overlooking c (u.2.withStrategy (BinarySearch.mk c)).strategy :=
    overlooking_binarySearch c
  obtain ⟨answer, after, -⟩ := overlooking.operate (d := .upsert key value) rfl
  have events := overlooking.events_upsert key value
  have silent := direct.events_upsert key value
  rw [u.2.overlooked_withStrategy] at silent
  rw [last] at answer after silent
  refine ⟨answer, congrArg Storage.keys after, congrArg Storage.values after, silent, events, ?_⟩
  rw [events]
  exact u.2.overlooked_iff c key

/-- Nine is overlooked at the end of keys that are in no order, and is overwritten there. -/
theorem overlooked_nine_is_overwritten :
    let c : Comparator Nat := .natural
    let s : Storage (ForgetfulSearch Nat) Nat String :=
      { keys := [5, 3, 9], values := ["a", "b", "c"], capacity := 4
        strategy := ⟨c, fun _ key => key == 9⟩ }
    let commands : List (StorageCommand Nat String) := [.upsert 3 "d", .removeAt 0]
    let u := (run Storage.operate s commands).2
    let v := (run Storage.operate (s.withStrategy (BinarySearch.mk c)) commands).2
    Overlooking c s.strategy ∧ (∀ d ∈ commands, d.removesByKey = false) ∧
      (u.upsert 9 "e").after.values = (v.upsert 9 "e").after.values ∧
      (u.upsert 9 "e").after.pairs = [(3, "d"), (9, "e")] ∧
      (u.upsert 9 "e").events = [.contractViolated (.contractViolation 1)] := by
  intro c s commands u v
  have overlooking : Overlooking c s.strategy := s.strategy.overlooking
  have placed : ∀ d ∈ commands, d.removesByKey = false := by decide
  obtain ⟨-, -, -, -, same⟩ := overlooked_keys_are_recovered c s overlooking commands placed
  exact ⟨overlooking, placed, (same 9 "e").2.2.1, by decide +kernel, by decide +kernel⟩

end LiveCollections
