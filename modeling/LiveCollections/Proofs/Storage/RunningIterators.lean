import LiveCollections.Proofs.Storage.Linear
import LiveCollections.Proofs.Storage.Sorted

/-!
# Iterators of a storage that changes

An iterator keeps its position and nothing else, so that a call between two of its steps may
move entries past it. What it has yielded, followed by what it would still meet, is the course
of the iteration. A step leaves the course as it is. An insertion only puts keys into it, so
that none is skipped, but a key that is pushed from the one part to the other comes twice. A
removal only takes keys out of it, so that none comes twice, but a key that is pulled below the
position without having been yielded is skipped; each removal there pulls one key.
-/

namespace LiveCollections

variable {σ K V C : Type}

inductive Turn (C : Type)
  | next
  | call (call : C)

def Turn.call? : Turn C → Option C
  | .next => none
  | .call c => some c

-- ---------------------------------------------------------------------------
-- Steps of the iterator
-- ---------------------------------------------------------------------------

structure Iteration (σ K V : Type) where
  storage : Storage σ K V
  cursor : Cursor := {}
  yielded : List (K × V) := []
  /-- Whether a step has found no entry. -/
  ended : Bool := false
  /-- How many removals took out an entry below the cursor. -/
  behind : Nat := 0

namespace Iteration

def next (it : Iteration σ K V) : Iteration σ K V :=
  match it.cursor.next it.storage with
  | (some item, cursor) => { it with cursor, yielded := it.yielded ++ [item] }
  | (none, cursor) => { it with cursor, ended := true }

def keys (it : Iteration σ K V) : List K := it.yielded.map Prod.fst

/-- The keys yielded so far, and those that are still to come if nothing changes. -/
def course (it : Iteration σ K V) : List K := it.keys ++ it.storage.keys.drop it.cursor.position

structure Placed (it : Iteration σ K V) : Prop where
  paired : it.storage.Paired
  position : it.cursor.position = it.yielded.length

def unseen (same : K → K → Bool) (it : Iteration σ K V) (key : K) : Bool :=
  !it.keys.any (same · key)

/-- How many keys below the cursor the iterator has not yielded. -/
def missed (same : K → K → Bool) (it : Iteration σ K V) : Nat :=
  (it.storage.keys.take it.cursor.position).countP (it.unseen same)

variable {it : Iteration σ K V}

theorem next_cases (h : it.storage.Paired) :
    (∃ item, it.storage.pairs[it.cursor.position]? = some item ∧
        it.storage.keys[it.cursor.position]? = some item.1 ∧
        it.next = { it with
          cursor := ⟨it.cursor.position + 1⟩, yielded := it.yielded ++ [item] }) ∨
      (it.storage.size ≤ it.cursor.position ∧ it.storage.pairs[it.cursor.position]? = none ∧
        it.next = { it with ended := true }) := by
  have keys : it.storage.keys[it.cursor.position]? =
      it.storage.pairs[it.cursor.position]?.map Prod.fst := by
    rw [h.keys_eq, List.getElem?_map]
  unfold next Cursor.next
  rw [Storage.entryAt?_eq_getElem?]
  cases found : it.storage.pairs[it.cursor.position]? with
  | some item => exact .inl ⟨item, rfl, by rw [keys, found]; rfl, rfl⟩
  | none =>
    rw [found] at keys
    exact .inr ⟨List.getElem?_eq_none_iff.mp keys, rfl, rfl⟩

@[simp] theorem storage_next (it : Iteration σ K V) : it.next.storage = it.storage := by
  unfold next
  split <;> rfl

@[simp] theorem behind_next (it : Iteration σ K V) : it.next.behind = it.behind := by
  unfold next
  split <;> rfl

theorem Placed.next (h : it.Placed) : it.next.Placed := by
  refine ⟨it.storage_next ▸ h.paired, ?_⟩
  obtain ⟨item, -, -, step⟩ | ⟨-, -, step⟩ := next_cases h.paired
  · simp [step, h.position]
  · rw [step]
    exact h.position

theorem course_next (h : it.storage.Paired) : it.next.course = it.course := by
  obtain ⟨item, -, found, step⟩ | ⟨-, -, step⟩ := next_cases h
  · obtain ⟨inside, same⟩ := List.getElem?_eq_some_iff.mp found
    rw [step, course, course, List.drop_eq_getElem_cons inside, same]
    simp [keys]
  · rw [step]
    rfl

theorem missed_next_le {same : K → K → Bool} (refl : ∀ key, same key key = true)
    (h : it.storage.Paired) : it.next.missed same ≤ it.missed same := by
  obtain ⟨item, -, found, step⟩ | ⟨-, -, step⟩ := next_cases h
  · have keys : it.next.keys = it.keys ++ [item.1] := by simp [step, Iteration.keys]
    have front : it.next.storage.keys.take it.next.cursor.position =
        it.storage.keys.take it.cursor.position ++ [item.1] := by
      rw [step, List.take_add_one, found]
      rfl
    have seen : it.next.unseen same item.1 = false := by simp [unseen, keys, refl]
    calc it.next.missed same
        = (it.storage.keys.take it.cursor.position).countP (it.next.unseen same) := by
          rw [missed, front, List.countP_append, List.countP_singleton, seen]
          rfl
      _ ≤ it.missed same := by
          refine List.countP_mono_left fun key _ fresh => ?_
          rw [unseen, keys, List.any_append, Bool.not_or, Bool.and_eq_true] at fresh
          exact fresh.1
  · rw [step]
    exact Nat.le_refl _

theorem course_of_size_le (h : it.storage.size ≤ it.cursor.position) : it.course = it.keys := by
  rw [course, List.drop_of_length_le h, List.append_nil]

theorem missed_of_size_le (h : it.storage.size ≤ it.cursor.position) (same : K → K → Bool) :
    it.missed same = it.storage.keys.countP (it.unseen same) := by
  rw [missed, List.take_of_length_le h]

end Iteration

-- ---------------------------------------------------------------------------
-- Calls of the collection
-- ---------------------------------------------------------------------------

variable [IndexStrategy σ K]

/-- The calls of a kind of collection. Each is a command, which a guard may turn away. -/
structure Interface (σ K V C : Type) [IndexStrategy σ K] where
  change : Storage σ K V → C → Storage σ K V
  command : C → CollectionCommand K V
  admits : σ → C → Bool
  change_eq : ∀ s call,
    change s call = if admits s.strategy call then (s.perform (command call)).2 else s

def Interface.linear [BEq K] : Interface LinearScan K V (CollectionCommand K V) where
  change s command := (s.perform command).2
  command := id
  admits _ _ := true
  change_eq _ _ := rfl

def Interface.sorted : Interface (BinarySearch K) K V (SortedCommand K V) where
  change s command := (s.step command).2
  command
    | .whole command => command
    | .insertWithin _ key value => .insert key value
    | .removeWithin _ key => .remove key
  admits strategy
    | .whole _ => true
    | .insertWithin w key _ | .removeWithin w key => w.admits strategy.comparator key
  change_eq s command := by
    cases command with
    | whole command => rfl
    | insertWithin w key value =>
      cases inside : w.admits s.strategy.comparator key <;>
        simp [Storage.step, Window.insert, inside, Storage.perform]
    | removeWithin w key =>
      cases inside : w.admits s.strategy.comparator key <;>
        simp [Storage.step, Window.remove, inside, Storage.perform]

namespace Interface

variable (I : Interface σ K V C) {s t : Storage σ K V} {call : C}

theorem change_invariant {P : Storage σ K V → Prop} (h : P s)
    (performed : P (s.perform (I.command call)).2) : P (I.change s call) := by
  rw [I.change_eq]
  split
  · exact performed
  · exact h

theorem change_keysAgree (h : s.KeysAgree t) (call : C) :
    (I.change s call).KeysAgree (I.change t call) := by
  rw [I.change_eq, I.change_eq, h.strategy]
  split
  · exact h.perform _
  · exact h

-- ---------------------------------------------------------------------------
-- Interleavings
-- ---------------------------------------------------------------------------

def removesBehind (it : Iteration σ K V) (call : C) : Bool :=
  I.admits it.storage.strategy call && match I.command call with
    | .remove key => (it.storage.indexOf? key).any (· < it.cursor.position)
    | _ => false

def turn (it : Iteration σ K V) : Turn C → Iteration σ K V
  | .next => it.next
  | .call call =>
    { it with
      storage := I.change it.storage call
      behind := it.behind + (I.removesBehind it call).toNat }

def iterate (s : Storage σ K V) (turns : List (Turn C)) : Iteration σ K V :=
  turns.foldl I.turn { storage := s }

/-- The last turn is the first step that finds no entry. -/
def Whole (s : Storage σ K V) (turns : List (Turn C)) : Prop :=
  ∃ before, turns = before ++ [.next] ∧
    (I.iterate s before).ended = false ∧ (I.iterate s turns).ended = true

def essential (s : Storage σ K V) : List (Turn C) → List (Turn C)
  | [] => []
  | .next :: turns => .next :: essential s turns
  | .call call :: turns =>
    let rest := essential (I.change s call) turns
    if (I.command call).overwrites s then rest else .call call :: rest

def Only (sort : CollectionCommand K V → Bool) (turns : List (Turn C)) : Prop :=
  ∀ c ∈ turns.filterMap Turn.call?, sort (I.command c) = true

instance (sort : CollectionCommand K V → Bool) (turns : List (Turn C)) :
    Decidable (I.Only sort turns) :=
  inferInstanceAs (Decidable (∀ c ∈ turns.filterMap Turn.call?, sort (I.command c) = true))

theorem iterate_concat (s : Storage σ K V) (turns : List (Turn C)) (turn : Turn C) :
    I.iterate s (turns ++ [turn]) = I.turn (I.iterate s turns) turn := by
  rw [iterate, List.foldl_concat]
  rfl

theorem placed_call {it : Iteration σ K V} (h : it.Placed) (call : C) :
    (I.turn it (.call call)).Placed :=
  ⟨I.change_invariant h.paired (h.paired.perform _), h.position⟩

/-- What the iterator's steps keep and each of the calls keeps holds at the end. -/
theorem iterate_invariant {P : Iteration σ K V → Prop} (h : s.Paired) (init : P { storage := s })
    (turns : List (Turn C)) (next : ∀ it, it.Placed → P it → P it.next)
    (call : ∀ it, ∀ c ∈ turns.filterMap Turn.call?, it.Placed → P it → P (I.turn it (.call c))) :
    (I.iterate s turns).Placed ∧ P (I.iterate s turns) := by
  refine List.foldlRecOn (motive := fun it => it.Placed ∧ P it) turns I.turn ⟨⟨h, rfl⟩, init⟩ ?_
  rintro it ⟨placed, kept⟩ (_ | c) ht
  · exact ⟨placed.next, next it placed kept⟩
  · have made : c ∈ turns.filterMap Turn.call? := List.mem_filterMap.mpr ⟨.call c, ht, rfl⟩
    exact ⟨I.placed_call placed c, call it c made placed kept⟩

theorem placed_iterate (h : s.Paired) (turns : List (Turn C)) : (I.iterate s turns).Placed :=
  (I.iterate_invariant (P := fun _ => True) h trivial turns (fun _ _ _ => trivial)
    fun _ _ _ _ _ => trivial).1

theorem storage_iterate (s : Storage σ K V) (turns : List (Turn C)) :
    (I.iterate s turns).storage = (turns.filterMap Turn.call?).foldl I.change s := by
  induction turns using List.reverseRecOn with
  | nil => rfl
  | append_singleton turns turn ih =>
    rw [iterate_concat, List.filterMap_append, List.foldl_append, ← ih]
    cases turn with
    | next => exact Iteration.storage_next _
    | call c => rfl

variable {I}

theorem Whole.size_le (whole : I.Whole s turns) (h : s.Paired) :
    (I.iterate s turns).storage.size ≤ (I.iterate s turns).cursor.position := by
  obtain ⟨before, rfl, running, ended⟩ := whole
  rw [iterate_concat] at ended ⊢
  have paired := (I.placed_iterate h before).paired
  obtain ⟨item, -, -, step⟩ | ⟨outside, -, step⟩ := Iteration.next_cases paired
  · rw [turn, step] at ended
    exact absurd ended (by simp [running])
  · rw [turn, step]
    exact outside

end Interface

-- ---------------------------------------------------------------------------
-- Calls that only overwrite values
-- ---------------------------------------------------------------------------

structure Iteration.Agree (a b : Iteration σ K V) : Prop where
  storage : a.storage.KeysAgree b.storage
  cursor : a.cursor = b.cursor
  keys : a.keys = b.keys
  ended : a.ended = b.ended
  behind : a.behind = b.behind

namespace Iteration.Agree

variable {a b : Iteration σ K V} (h : a.Agree b)

include h

omit [IndexStrategy σ K] in
theorem course_eq : a.course = b.course := by
  rw [course, course, h.keys, h.storage.keys, h.cursor]

omit [IndexStrategy σ K] in
theorem missed_eq (same : K → K → Bool) : a.missed same = b.missed same := by
  have unseen : a.unseen same = b.unseen same := by
    funext key
    rw [Iteration.unseen, Iteration.unseen, h.keys]
  rw [missed, missed, unseen, h.storage.keys, h.cursor]

omit [IndexStrategy σ K] in
theorem next : a.next.Agree b.next := by
  have same : a.storage.keys[a.cursor.position]? = b.storage.keys[b.cursor.position]? := by
    rw [h.storage.keys, h.cursor]
  obtain ⟨item, -, found, left⟩ | ⟨outside, -, left⟩ := next_cases h.storage.left <;>
    obtain ⟨other, -, found', right⟩ | ⟨outside', -, right⟩ := next_cases h.storage.right
  · have keys : item.1 = other.1 := by
      rw [found, found'] at same
      exact Option.some.inj same
    rw [left, right]
    exact ⟨h.storage, by simp [h.cursor], by simpa [Iteration.keys, keys] using h.keys,
      h.ended, h.behind⟩
  · rw [found, List.getElem?_eq_none outside'] at same
    cases same
  · rw [found', List.getElem?_eq_none outside] at same
    cases same
  · rw [left, right]
    exact ⟨h.storage, h.cursor, h.keys, rfl, h.behind⟩

variable (I : Interface σ K V C)

theorem turn (turn : Turn C) : (I.turn a turn).Agree (I.turn b turn) := by
  cases turn with
  | next => exact h.next
  | call c =>
    have behind : I.removesBehind a c = I.removesBehind b c := by
      simp only [Interface.removesBehind, h.storage.strategy, h.storage.indexOf?_eq, h.cursor]
    exact ⟨I.change_keysAgree h.storage c, h.cursor, h.keys, h.ended,
      congrArg₂ (· + Bool.toNat ·) h.behind behind⟩

theorem overwriting {c : C} (overwrites : (I.command c).overwrites a.storage = true) :
    (I.turn a (.call c)).Agree b := by
  have kept : (I.change a.storage c).KeysAgree b.storage :=
    I.change_invariant (P := fun s => s.KeysAgree b.storage) h.storage
      ((h.storage.left.keysAgree_of_overwrites overwrites).trans h.storage)
  have behind : I.removesBehind a c = false := by
    unfold Interface.removesBehind
    cases hc : I.command c with
    | remove key =>
      rw [hc] at overwrites
      cases overwrites
    | insert | extend | replace | clear | copy => exact Bool.and_false _
  refine ⟨kept, h.cursor, h.keys, h.ended, ?_⟩
  simp only [Interface.turn, behind, Bool.toNat_false, Nat.add_zero, h.behind]

theorem essential (turns : List (Turn C)) :
    (turns.foldl I.turn a).Agree ((I.essential a.storage turns).foldl I.turn b) := by
  -- only the left side makes such a call, so that the two storages come to differ on the way
  induction turns generalizing a b with
  | nil => exact h
  | cons turn turns ih =>
    cases turn with
    | next =>
      have rest := ih (h.turn I .next)
      rwa [show (I.turn a .next).storage = a.storage from a.storage_next] at rest
    | call c =>
      rw [Interface.essential]
      split
      · rename_i overwrites
        exact ih (h.overwriting I overwrites)
      · exact ih (h.turn I (.call c))

end Iteration.Agree

namespace Interface

variable (I : Interface σ K V C) {s : Storage σ K V}

theorem agree_essential (h : s.Paired) (turns : List (Turn C)) :
    (I.iterate s turns).Agree (I.iterate s (I.essential s turns)) :=
  Iteration.Agree.essential (a := { storage := s }) ⟨.refl h, rfl, rfl, rfl, rfl⟩ I turns

-- ---------------------------------------------------------------------------
-- Insertions only
-- ---------------------------------------------------------------------------

theorem iterate_of_inserts (h : s.Paired) {turns : List (Turn C)}
    (only : I.Only CollectionCommand.inserts turns) :
    (I.iterate s turns).cursor.position ≤ (I.iterate s turns).storage.size ∧
      s.keys.Sublist (I.iterate s turns).course := by
  refine (I.iterate_invariant (P := fun it => it.cursor.position ≤ it.storage.size ∧
    s.keys.Sublist it.course) h ⟨Nat.zero_le _, .refl _⟩ turns ?_ ?_).2
  · rintro it placed ⟨within, course⟩
    refine ⟨?_, Iteration.course_next placed.paired ▸ course⟩
    obtain ⟨item, -, found, step⟩ | ⟨-, -, step⟩ := Iteration.next_cases placed.paired
    · rw [step]
      exact (List.getElem?_eq_some_iff.mp found).1
    · rw [step]
      exact within
  · -- wherever the new keys go, what is behind a position afterwards includes what was there
    rintro it c hc - ⟨within, course⟩
    have grown : it.storage.keys.Sublist (I.change it.storage c).keys :=
      I.change_invariant (P := fun t => it.storage.keys.Sublist t.keys) (.refl _)
        (Storage.keys_perform_sublist (only c hc) it.storage)
    exact ⟨within.trans grown.length_le, course.trans ((List.Sublist.refl _).append (grown.drop _))⟩

/-- A linear collection grows at its end, so that the course is always all of its keys. -/
theorem course_iterate_linear [BEq K] {s : Storage LinearScan K V} (h : s.Paired)
    {turns : List (Turn (CollectionCommand K V))}
    (only : linear.Only CollectionCommand.inserts turns) :
    (linear.iterate s turns).course = (linear.iterate s turns).storage.keys := by
  refine (linear.iterate_invariant (P := fun it => it.course = it.storage.keys) h rfl turns ?_ ?_).2
  · intro it placed course
    rw [Iteration.course_next placed.paired, it.storage_next, course]
  · intro it c hc placed course
    obtain ⟨more, grown⟩ := LinearScan.prefix_keys_perform (only c hc) it.storage
    -- the cursor counts a part of the course, which is the keys
    have within : it.cursor.position ≤ it.storage.keys.length := by
      rw [← course, Iteration.course, List.length_append, Iteration.keys, List.length_map,
        ← placed.position]
      exact Nat.le_add_right _ _
    have after : (linear.turn it (.call c)).storage.keys = it.storage.keys ++ more := grown.symm
    calc it.keys ++ (linear.turn it (.call c)).storage.keys.drop it.cursor.position
        = it.course ++ more := by
          rw [after, List.drop_append_of_le_length within, ← List.append_assoc, Iteration.course]
      _ = (linear.turn it (.call c)).storage.keys := by rw [course, after]

-- ---------------------------------------------------------------------------
-- Removals only
-- ---------------------------------------------------------------------------

/-- Of what was at the front, a removal there leaves all but one key and pulls one more key in. -/
theorem take_eraseIdx_sublist {i p : Nat} (keys : List K) (h : i < p) :
    ((keys.eraseIdx i).take p).Sublist (keys.take (p + 1)) := by
  have front : (keys.eraseIdx i).take p = (keys.take (p + 1)).eraseIdx i := by
    refine List.ext_getElem? fun j => ?_
    grind
  rw [front]
  exact List.eraseIdx_sublist ..

theorem removal_cases {it : Iteration σ K V} {c : C} (placed : it.Placed)
    (hc : (I.command c).removes = true) :
    ((I.change it.storage c).keys = it.storage.keys ∧ I.removesBehind it c = false) ∨
      ∃ i, (I.change it.storage c).keys = it.storage.keys.eraseIdx i ∧
        I.removesBehind it c = decide (i < it.cursor.position) := by
  rw [I.change_eq]
  unfold removesBehind
  cases hr : I.command c with
  | remove key =>
    cases I.admits it.storage.strategy c with
    | false => exact .inl ⟨rfl, rfl⟩
    | true =>
      simp only [Storage.perform, Storage.removeKey]
      cases it.storage.indexOf? key with
      | none => exact .inl ⟨rfl, rfl⟩
      | some i => exact .inr ⟨i, Storage.keys_removeAt placed.paired i, rfl⟩
  | insert | extend | replace | clear | copy =>
    rw [hr] at hc
    cases hc

theorem course_call_sublist {it : Iteration σ K V} {c : C} (placed : it.Placed)
    (hc : (I.command c).removes = true) : (I.turn it (.call c)).course.Sublist it.course := by
  refine (List.Sublist.refl _).append (List.Sublist.drop ?_ _)
  change (I.change it.storage c).keys.Sublist it.storage.keys
  obtain ⟨keys, -⟩ | ⟨i, keys, -⟩ := I.removal_cases placed hc
  · rw [keys]
  · rw [keys]
    exact List.eraseIdx_sublist ..

/-- A removal below the cursor pulls the key at the cursor below it, and no other key. -/
theorem missed_call_le {it : Iteration σ K V} {c : C} (placed : it.Placed)
    (hc : (I.command c).removes = true) (same : K → K → Bool) :
    (I.turn it (.call c)).missed same ≤ it.missed same + (I.removesBehind it c).toNat := by
  change ((I.change it.storage c).keys.take it.cursor.position).countP (it.unseen same) ≤ _
  obtain ⟨keys, behind⟩ | ⟨i, keys, behind⟩ := I.removal_cases placed hc
  · rw [keys, behind]
    exact Nat.le_refl _
  · rw [keys, behind]
    rcases Nat.lt_or_ge i it.cursor.position with below | above
    · rw [decide_eq_true below, Bool.toNat_true]
      calc ((it.storage.keys.eraseIdx i).take it.cursor.position).countP (it.unseen same)
          ≤ (it.storage.keys.take (it.cursor.position + 1)).countP (it.unseen same) :=
            (take_eraseIdx_sublist _ below).countP_le
        _ ≤ it.missed same + 1 := by
            rw [List.take_add_one, List.countP_append]
            refine Nat.add_le_add_left (List.countP_le_length.trans ?_) _
            cases it.storage.keys[it.cursor.position]? <;> simp
    · rw [List.take_eraseIdx_eq_take_of_le _ _ _ above]
      exact Nat.le_add_right _ _

theorem iterate_of_removes (h : s.Paired) {same : K → K → Bool}
    (refl : ∀ key, same key key = true) {turns : List (Turn C)}
    (only : I.Only CollectionCommand.removes turns) :
    (I.iterate s turns).course.Sublist s.keys ∧
      (I.iterate s turns).missed same ≤ (I.iterate s turns).behind := by
  refine (I.iterate_invariant (P := fun it => it.course.Sublist s.keys ∧
    it.missed same ≤ it.behind) h ⟨.refl _, Nat.le_refl _⟩ turns ?_ ?_).2
  · rintro it placed ⟨course, missed⟩
    refine ⟨Iteration.course_next placed.paired ▸ course, ?_⟩
    rw [it.behind_next]
    exact (Iteration.missed_next_le refl placed.paired).trans missed
  · rintro it c hc placed ⟨course, missed⟩
    have removes := only c hc
    exact ⟨(I.course_call_sublist placed removes).trans course,
      (I.missed_call_le placed removes same).trans (Nat.add_le_add_right missed _)⟩

end Interface

-- ---------------------------------------------------------------------------
-- The main result
-- ---------------------------------------------------------------------------

/-- What an iterator shows of a storage to which calls are made between its steps. -/
structure Interface.Follows (I : Interface σ K V C) (same : K → K → Bool) (s : Storage σ K V) :
    Prop where
  /-- A step yields the entry that stands where as many entries have been yielded already. -/
  items : ∀ turns,
    let it := I.iterate s turns
    it.storage = (turns.filterMap Turn.call?).foldl I.change s ∧
      it.cursor.position = it.yielded.length ∧
      (∀ c, (I.iterate s (turns ++ [.call c])).yielded = it.yielded) ∧
      (I.iterate s (turns ++ [.next])).yielded =
        it.yielded ++ it.storage.pairs[it.cursor.position]?.toList
  overwriting : ∀ turns,
    (I.iterate s (I.essential s turns)).keys = (I.iterate s turns).keys ∧
      (I.iterate s (I.essential s turns)).ended = (I.iterate s turns).ended
  /-- Nothing is skipped. -/
  inserting : ∀ turns, I.Whole s turns →
    I.Only CollectionCommand.inserts (I.essential s turns) →
    let it := I.iterate s turns
    it.yielded.length = it.storage.size ∧ s.keys.Sublist it.keys
  /-- Nothing comes twice or out of order, and a skipped key was pulled below the cursor. -/
  removing : ∀ turns, I.Whole s turns →
    I.Only CollectionCommand.removes (I.essential s turns) →
    let it := I.iterate s turns
    it.keys.Sublist s.keys ∧ it.storage.keys.countP (it.unseen same) ≤ it.behind

theorem Interface.follows (I : Interface σ K V C) (same : K → K → Bool)
    (refl : ∀ key, same key key = true) {s : Storage σ K V} (h : s.Paired) : I.Follows same s where
  items turns := by
    have placed := I.placed_iterate h turns
    refine ⟨I.storage_iterate s turns, placed.position, fun c => ?_, ?_⟩
    · rw [iterate_concat]
      rfl
    · rw [iterate_concat, turn]
      obtain ⟨item, found, -, step⟩ | ⟨-, none, step⟩ := Iteration.next_cases placed.paired
      · rw [found, step]
        rfl
      · rw [none, step]
        exact (List.append_nil _).symm
  overwriting turns := by
    have agree := I.agree_essential h turns
    exact ⟨agree.keys.symm, agree.ended.symm⟩
  inserting turns whole only := by
    have agree := I.agree_essential h turns
    obtain ⟨within, course⟩ := I.iterate_of_inserts h only
    have ended := whole.size_le h
    rw [← agree.cursor, ← agree.storage.size_eq] at within
    rw [← agree.course_eq, Iteration.course_of_size_le ended] at course
    exact ⟨(I.placed_iterate h turns).position ▸ Nat.le_antisymm within ended, course⟩
  removing turns whole only := by
    have agree := I.agree_essential h turns
    obtain ⟨course, missed⟩ := I.iterate_of_removes h refl only
    have ended := whole.size_le h
    rw [← agree.course_eq, Iteration.course_of_size_le ended] at course
    rw [← agree.missed_eq, ← agree.behind, Iteration.missed_of_size_le ended] at missed
    exact ⟨course, missed⟩

/-- A running iterator shows the storage as it is at each step, in either kind of collection. -/
theorem running_iterators_follow_their_storage [BEq K] [ReflBEq K] (c : Comparator K)
    [Std.TransCmp c.compare] :
    (∀ s : Storage LinearScan K V, LinearScan.Reached s →
      Interface.linear.Follows (· == ·) s ∧
        ∀ turns, Interface.linear.Whole s turns →
          let it := Interface.linear.iterate s turns
          let essential := Interface.linear.essential s turns
          (Interface.linear.Only CollectionCommand.inserts essential →
            it.keys = it.storage.keys ∧ LinearScan.Distinct it.storage) ∧
          (Interface.linear.Only CollectionCommand.removes essential →
            it.keys.Pairwise fun a b => (a == b) = false)) ∧
    (∀ s : SortedStorage K V, s.Reached c →
      Interface.sorted.Follows (c.compare · · == .eq) s ∧
        ∀ turns, Interface.sorted.Whole s turns →
          Interface.sorted.Only CollectionCommand.removes (Interface.sorted.essential s turns) →
          c.Ascending (Interface.sorted.iterate s turns).keys) := by
  refine ⟨fun s reached => ?_, fun s reached => ?_⟩
  · have follows := Interface.linear.follows (· == ·) (fun _ => ReflBEq.rfl) reached.paired
    refine ⟨follows, fun turns whole => ⟨fun only => ⟨?_, ?_⟩, fun only => ?_⟩⟩
    · have agree := Interface.linear.agree_essential reached.paired turns
      rw [← Iteration.course_of_size_le (whole.size_le reached.paired), agree.course_eq,
        agree.storage.keys]
      exact Interface.course_iterate_linear reached.paired only
    · exact (Interface.linear.iterate_invariant (P := fun it => LinearScan.Distinct it.storage)
        reached.paired reached.distinct turns (fun it _ h => it.storage_next ▸ h)
        fun _ _ _ _ h => h.perform _).2
    · exact reached.distinct.sublist (follows.removing turns whole only).1
  · have same : ∀ key, (c.compare key key == .eq) = true :=
      fun _ => beq_iff_eq.mpr Std.ReflCmp.compare_self
    have follows := Interface.sorted.follows (c.compare · · == .eq) same reached.paired
    exact ⟨follows, fun turns whole only =>
      reached.sorted.ascending.sublist (follows.removing turns whole only).1⟩

/-- A removal behind the iterator makes it skip a number, an insertion there repeats one. -/
theorem numbers_are_skipped_or_repeated :
    let s : Storage LinearScan Nat String :=
      (run Storage.perform (.withCapacity 0 ⟨⟩) [.extend [(1, "a"), (2, "b"), (3, "c")]]).2
    let removals : List (Turn (CollectionCommand Nat String)) :=
      [.next, .call (.insert 3 "d"), .call (.remove 1), .next, .next]
    let skipping := Interface.linear.iterate s removals
    let t : SortedStorage Nat String :=
      (run Storage.step (.withCapacity 0 ⟨.natural⟩) [.whole (.extend [(20, "a"), (30, "b")])]).2
    let insertions : List (Turn (SortedCommand Nat String)) :=
      [.next, .call (.insertWithin ⟨none, some 20⟩ 10 "c"), .next, .call (.whole (.replace 30 "d")),
        .next, .next]
    let repeating := Interface.sorted.iterate t insertions
    (skipping.yielded = [(1, "a"), (3, "d")] ∧ skipping.behind = 1 ∧
        skipping.storage.keys.countP (skipping.unseen (· == ·)) ≤ 1) ∧
      repeating.yielded = [(20, "a"), (20, "a"), (30, "d")] ∧
      repeating.yielded.length = repeating.storage.size := by
  intro s removals skipping t insertions repeating
  obtain ⟨linear, sorted⟩ :=
    running_iterators_follow_their_storage (K := Nat) (V := String) .natural
  have skips := (linear s ⟨0, _, rfl⟩).1.removing removals
    ⟨removals.dropLast, rfl, by decide +kernel, by decide +kernel⟩ (by decide +kernel)
  have repeats := (sorted t ⟨0, _, rfl⟩).1.inserting insertions
    ⟨insertions.dropLast, rfl, by decide +kernel, by decide +kernel⟩ (by decide +kernel)
  exact ⟨⟨by decide +kernel, by decide +kernel, skips.2⟩, by decide +kernel, repeats.1⟩

end LiveCollections
