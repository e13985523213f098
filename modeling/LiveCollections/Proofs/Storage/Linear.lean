import LiveCollections.Proofs.Run
import LiveCollections.Proofs.Storage.Keys

/-!
# Linear collections

A linear collection compares keys by equality and appends the keys that it does not find, so
that its keys stand in the order in which they arrived, and no key equals an earlier one.
Where a classification of the keys says the same as equality, a linear collection is the
finite map from classes to entries.
-/

namespace LiveCollections

variable {κ K V : Type} [BEq K]

namespace LinearScan

variable {s : Storage LinearScan K V} {key : K}

theorem indexOf?_eq_none_iff : s.indexOf? key = none ↔ ∀ stored ∈ s.keys, (stored == key) = false :=
  List.findIdx?_eq_none_iff

theorem getElem?_of_indexOf? {i : Nat} (h : s.indexOf? key = some i) :
    ∃ stored, s.keys[i]? = some stored ∧ (stored == key) = true := by
  obtain ⟨lt, equal, -⟩ := List.findIdx?_eq_some_iff_getElem.mp h
  exact ⟨s.keys[i], List.getElem?_eq_getElem lt, equal⟩

theorem keys_upsert (s : Storage LinearScan K V) (key : K) (value : V) :
    (s.upsert key value).after.keys = if s.contains key then s.keys else s.keys ++ [key] := by
  unfold Storage.upsert Storage.contains
  cases s.indexOf? key with
  | some i => simp
  | none =>
    have appended := s.keys_insertAt (Nat.le_refl s.size) key value
    simpa [Storage.insertionIndex, IndexStrategy.insertionIndex, Storage.size] using appended

theorem upsert_quiet (s : Storage LinearScan K V) (key : K) (value : V) :
    (s.upsert key value).answer.isOk = true ∧ (s.upsert key value).events = [] := by
  unfold Storage.upsert
  cases s.indexOf? key with
  | some i => exact ⟨rfl, rfl⟩
  | none =>
    obtain ⟨answer, events⟩ := Storage.insertAt_answer (s := s) (Nat.le_refl s.size) key value
    have placed : s.insertionIndex key = .ok s.size := rfl
    rw [placed]
    dsimp only
    rw [answer]
    exact ⟨rfl, events⟩

theorem extended (s : Storage LinearScan K V) (entries : List (K × V)) :
    (s.upsertAll entries).answer = .ok () ∧ (s.upsertAll entries).events = [] ∧
      (s.upsertAll entries).after =
        entries.foldl (fun s entry => (s.upsert entry.1 entry.2).after) s :=
  Storage.upsertAll_of_quiet (I := fun _ => True) trivial entries
    (fun key value _ => upsert_quiet _ key value) fun _ _ _ => trivial

theorem prefix_keys_upsert (s : Storage LinearScan K V) (key : K) (value : V) :
    s.keys <+: (s.upsert key value).after.keys := by
  rw [keys_upsert]
  split
  · exact List.prefix_rfl
  · exact List.prefix_append ..

theorem prefix_keys_perform {command : CollectionCommand K V} (hc : command.inserts = true)
    (s : Storage LinearScan K V) : s.keys <+: (s.perform command).2.keys :=
  Storage.perform_invariant_of_inserts (I := fun t : Storage LinearScan K V => s.keys <+: t.keys)
    hc (fun key value h => h.trans (prefix_keys_upsert _ key value)) List.prefix_rfl

-- ---------------------------------------------------------------------------
-- Every key once
-- ---------------------------------------------------------------------------

def Distinct (s : Storage LinearScan K V) : Prop := s.keys.Pairwise fun a b => (a == b) = false

theorem Distinct.upsert (h : Distinct s) (key : K) (value : V) :
    Distinct (s.upsert key value).after := by
  unfold Distinct
  rw [keys_upsert]
  split
  · exact h
  · rename_i absent
    have absent : s.indexOf? key = none := by simpa [Storage.contains] using absent
    refine List.pairwise_append.mpr ⟨h, List.pairwise_singleton .., fun stored hs other ho => ?_⟩
    rw [List.mem_singleton.mp ho]
    exact indexOf?_eq_none_iff.mp absent stored hs

theorem Distinct.perform (h : Distinct s) (c : CollectionCommand K V) :
    Distinct (s.perform c).2 := by
  refine Storage.perform_invariant (fun key value h => h.upsert key value) (fun i h => ?_)
    (fun i value h => ?_) (fun _ => .nil) id h c
  · exact h.sublist (Storage.keys_removeAt_sublist _ i)
  · simpa [Distinct] using h

def Reached (s : Storage LinearScan K V) : Prop :=
  ∃ capacity commands, s = (run Storage.perform (.withCapacity capacity ⟨⟩) commands).2

theorem Reached.invariant {I : Storage LinearScan K V → Prop}
    (init : ∀ capacity, I (.withCapacity capacity ⟨⟩)) (kept : ∀ {s} c, I s → I (s.perform c).2)
    (h : Reached s) : I s := by
  obtain ⟨capacity, commands, rfl⟩ := h
  exact run_invariant (I := fun _ s => I s) (init capacity) (fun _ _ c h => kept c h) commands

theorem Reached.distinct (h : Reached s) : Distinct s :=
  h.invariant (fun _ => List.Pairwise.nil) fun c h => h.perform c

theorem Reached.paired (h : Reached s) : s.Paired :=
  h.invariant (fun _ => rfl) fun c h => h.perform c

-- ---------------------------------------------------------------------------
-- Linear collections as finite maps
-- ---------------------------------------------------------------------------

section Maps

variable {classOf : K → κ} (agree : ∀ a b, classOf a = classOf b ↔ (a == b) = true)

include agree

theorem locates (s : Storage LinearScan K V) : s.Locates classOf where
  found hi := by
    obtain ⟨stored, hs, equal⟩ := getElem?_of_indexOf? hi
    exact ⟨stored, hs, (agree _ _).mpr equal⟩
  absent {key} hi := by
    refine ⟨fun stored hs same => ?_, s.size, rfl, Nat.le_refl _⟩
    have equal := (agree _ _).mp same
    rw [indexOf?_eq_none_iff.mp hi stored hs] at equal
    cases equal

theorem faithful : Faithful classOf (fun _ : Storage LinearScan K V => True) where
  locates _ := locates agree _
  upsert _ _ _ := trivial
  removeKey _ _ := trivial
  replaceValue _ _ _ := trivial
  clear _ := trivial
  copy _ := trivial

theorem run (capacity : Nat) (commands : List (CollectionCommand K V)) [DecidableEq κ] :
    let start : Storage LinearScan K V := .withCapacity capacity ⟨⟩
    (run Storage.perform start commands).1 = (run (Reference.perform classOf) ∅ commands).1 ∧
      (run Storage.perform start commands).2.Represents classOf
        (run (Reference.perform classOf) ∅ commands).2 := by
  refine run_simulates (R := fun _ (s : Storage LinearScan K V) m => s.Represents classOf m) ?_ ?_
    commands
  · exact Storage.represents_withCapacity capacity _
  · intro _ s m command represents
    obtain ⟨answer, -, after⟩ := (faithful agree).perform trivial represents command
    exact ⟨answer, after⟩

end Maps

-- ---------------------------------------------------------------------------
-- Classes of equal keys
-- ---------------------------------------------------------------------------

section Classes

variable [EquivBEq K]

def classes : Setoid K where
  r a b := (a == b) = true
  iseqv := { refl := fun _ => BEq.rfl, symm := BEq.symm, trans := BEq.trans }

def Class (K : Type) [BEq K] [EquivBEq K] : Type := Quotient (classes (K := K))

def classOf (key : K) : Class K := Quotient.mk classes key

theorem classOf_eq_iff {a b : K} : classOf a = classOf b ↔ (a == b) = true :=
  ⟨fun h => Quotient.exact (s := classes) h, fun h => Quotient.sound (s := classes) h⟩

instance : DecidableEq (Class K) :=
  have (a b : K) : Decidable (classes.r a b) := inferInstanceAs (Decidable ((a == b) = true))
  @Quotient.decidableEq K classes this

end Classes

end LinearScan

end LiveCollections
