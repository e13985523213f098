import LiveCollections.Proofs.Storage.Keys

/-!
# Operations of a storage

The operations of a storage itself, by position and by key, under any strategy. Whatever an
operation does, it reaches for room in one place only: where it is about to insert. That
place is the position it is given or the one that the strategy names, inside or not.
-/

namespace LiveCollections

variable {σ K V : Type}

inductive StorageCommand (K V : Type)
  | insertAt (index : Nat) (key : K) (value : V)
  | removeAt (index : Nat)
  | replaceValueAt (index : Nat) (value : V)
  | upsert (key : K) (value : V)
  | removeKey (key : K)
  | clear
  | shrinkToFit
  /-- Goes on with a copy. -/
  | copy

inductive StorageAnswer (K V : Type)
  | inserted (answer : Except Fault Unit)
  | removed (entry : Option (K × V))
  | replaced (previous : Option V)
  | upserted (answer : Except Fault (Option V)) (events : List Event)
  | done

variable [IndexStrategy σ K]

/-- A fault does not end a run: the storage is used as the operation has left it. -/
def Storage.operate (s : Storage σ K V) :
    StorageCommand K V → StorageAnswer K V × Storage σ K V
  | .insertAt index key value =>
    let outcome := s.insertAt index key value
    (.inserted outcome.answer, outcome.after)
  | .removeAt index => (s.removeAt index).map .removed id
  | .replaceValueAt index value => (s.replaceValueAt index value).map .replaced id
  | .upsert key value =>
    let outcome := s.upsert key value
    (.upserted outcome.answer outcome.events, outcome.after)
  | .removeKey key => (s.removeKey key).map .removed id
  | .clear => (.done, s.clear)
  | .shrinkToFit => (.done, s.shrinkToFit)
  | .copy => (.done, s.copy)

namespace StorageCommand

def keepsRoom : StorageCommand K V → Bool
  | .shrinkToFit | .copy => false
  | _ => true

/-- The position at which an operation inserts an entry, or faults, if it gets that far. -/
def place? (s : Storage σ K V) : StorageCommand K V → Option Nat
  | .insertAt index _ _ => some index
  | .upsert key _ =>
    match s.indexOf? key with
    | some _ => none
    | none => (s.insertionIndex key).toOption
  | _ => none

end StorageCommand

namespace Storage

-- ---------------------------------------------------------------------------
-- Entries and room
-- ---------------------------------------------------------------------------

omit [IndexStrategy σ K] in
@[simp] theorem capacity_replaceValueAt (s : Storage σ K V) (i : Nat) (value : V) :
    (s.replaceValueAt i value).2.capacity = s.capacity := by
  unfold replaceValueAt
  split <;> rfl

omit [IndexStrategy σ K] in
@[simp] theorem capacity_removeAt (s : Storage σ K V) (i : Nat) :
    (s.removeAt i).2.capacity = s.capacity := by
  unfold removeAt
  split <;> rfl

omit [IndexStrategy σ K] in
@[simp] theorem capacity_insertAt (s : Storage σ K V) (i : Nat) (key : K) (value : V) :
    (s.insertAt i key value).after.capacity = s.growIfFull.capacity := by
  unfold insertAt
  split <;> rfl

inductive Resized (s t : Storage σ K V) : Option Nat → Prop
  | inserted {index : Nat} (inside : index ≤ s.size) (size : t.size = s.size + 1)
    (room : t.capacity = s.growIfFull.capacity) : Resized s t (some index)
  | faulted {index : Nat} (outside : s.size < index) (size : t.size = s.size)
    (room : t.capacity = s.growIfFull.capacity) : Resized s t (some index)
  | kept (size : t.size ≤ s.size) (room : t.capacity = s.capacity) : Resized s t none

variable (s : Storage σ K V)

omit [IndexStrategy σ K] in
theorem resized_insertAt (index : Nat) (key : K) (value : V) :
    s.Resized (s.insertAt index key value).after (some index) := by
  have room := s.capacity_insertAt index key value
  rcases Nat.lt_or_ge s.size index with outside | inside
  · have keys := s.keys_insertAt_of_size_lt outside key value
    exact .faulted outside (congrArg List.length keys) room
  · have keys := s.keys_insertAt inside key value
    refine .inserted inside ?_ room
    rw [size, keys, List.length_insertIdx_of_le_length inside, ← size]

omit [IndexStrategy σ K] in
theorem resized_replaceValueAt (index : Nat) (value : V) :
    s.Resized (s.replaceValueAt index value).2 none :=
  .kept (Nat.le_of_eq (congrArg List.length (s.keys_replaceValueAt index value)))
    (s.capacity_replaceValueAt index value)

omit [IndexStrategy σ K] in
theorem resized_removeAt (index : Nat) : s.Resized (s.removeAt index).2 none :=
  .kept (s.keys_removeAt_sublist index).length_le (s.capacity_removeAt index)

omit [IndexStrategy σ K] in
theorem resized_refl : s.Resized s none := .kept (Nat.le_refl _) rfl

theorem resized_upsert (key : K) (value : V) :
    s.Resized (s.upsert key value).after ((StorageCommand.upsert key value).place? s) := by
  unfold Storage.upsert StorageCommand.place?
  dsimp only
  cases s.indexOf? key with
  | some index => exact s.resized_replaceValueAt index value
  | none =>
    cases s.insertionIndex key with
    | ok index => exact s.resized_insertAt index key value
    | error error =>
      cases error with
      | contractViolation index => exact s.resized_replaceValueAt index value
      | emptyCollection | outOfRange | invalidRange => exact s.resized_refl

theorem resized_operate {c : StorageCommand K V} (hc : c.keepsRoom = true) :
    s.Resized (s.operate c).2 (c.place? s) := by
  cases c with
  | insertAt index key value => exact s.resized_insertAt index key value
  | removeAt index => exact s.resized_removeAt index
  | replaceValueAt index value => exact s.resized_replaceValueAt index value
  | upsert key value => exact s.resized_upsert key value
  | removeKey key =>
    simp only [operate, removeKey]
    split
    · exact s.resized_removeAt _
    · exact s.resized_refl
  | clear => exact .kept (Nat.zero_le _) rfl
  | shrinkToFit | copy => cases hc

end Storage

end LiveCollections
