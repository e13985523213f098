import LiveCollections.Proofs.Storage.Iteration
import LiveCollections.Proofs.Storage.Linear

/-!
# Linear collections keep insertion order

A key of a linear collection stands where its class arrived: it arrives when it is inserted
while there is none of its class, and it has arrived again if it was removed in between. The
entries are those of the finite map, so that each has its latest value, in the order in which
their classes have arrived.

Arrivals are told from the history of the collection alone, by what the finite map holds at
each moment of it. Entries that are inserted together arrive one after the other.
-/

namespace LiveCollections

variable {κ σ K V : Type}

-- ---------------------------------------------------------------------------
-- Histories
-- ---------------------------------------------------------------------------

namespace CollectionCommand

def singles : CollectionCommand K V → List (CollectionCommand K V)
  | .extend entries => entries.map fun entry => .insert entry.1 entry.2
  | command => [command]

def Single (command : CollectionCommand K V) : Prop := command.singles = [command]

theorem single_of_mem_singles {command part : CollectionCommand K V}
    (h : part ∈ command.singles) : part.Single := by
  cases command with
  | extend entries =>
    obtain ⟨entry, -, rfl⟩ := List.mem_map.mp h
    rfl
  | insert | remove | replace | clear | copy =>
    obtain rfl := List.mem_singleton.mp h
    rfl

theorem not_single_extend (entries : List (K × V)) : ¬ (CollectionCommand.extend entries).Single := by
  intro h
  obtain ⟨entry, -, made⟩ := List.map_eq_singleton_iff.mp h
  cases made

end CollectionCommand

namespace Reference

variable [DecidableEq κ] (classOf : K → κ)

def after (history : List (CollectionCommand K V)) : Reference κ K V :=
  (run (perform classOf) ∅ history).2

theorem run_singles (m : Reference κ K V) (c : CollectionCommand K V) :
    (run (perform classOf) m c.singles).2 = (m.perform classOf c).2 := by
  cases c with
  | extend entries =>
    change _ = m.upsertAll classOf entries
    induction entries generalizing m with
    | nil => rfl
    | cons entry rest ih => exact ih (m.upsert classOf entry.1 entry.2).2
  | insert | remove | replace | clear | copy => rfl

end Reference

-- ---------------------------------------------------------------------------
-- Arrivals
-- ---------------------------------------------------------------------------

section Arrivals

variable [DecidableEq κ] {classOf : K → κ} {history : List (CollectionCommand K V)}
  {c : CollectionCommand K V} {x : κ} {time : Nat}

/-- The command at this time inserts a key of the class while there is none, and from then on
there is one. -/
structure Arrived (classOf : K → κ) (history : List (CollectionCommand K V)) (x : κ)
    (time : Nat) : Prop where
  inserted : ∃ key value, history[time]? = some (.insert key value) ∧ classOf key = x
  absent : x ∉ Reference.after classOf (history.take time)
  present : ∀ later, time < later → later ≤ history.length →
    x ∈ Reference.after classOf (history.take later)

namespace Arrived

theorem time_lt (h : Arrived classOf history x time) : time < history.length := by
  obtain ⟨key, value, made, -⟩ := h.inserted
  exact (List.getElem?_eq_some_iff.mp made).1

theorem unique {other : Nat} (h : Arrived classOf history x time)
    (h' : Arrived classOf history x other) : time = other := by
  rcases Nat.lt_trichotomy time other with lt | same | gt
  · exact absurd (h.present other lt (Nat.le_of_lt h'.time_lt)) h'.absent
  · exact same
  · exact absurd (h'.present time gt (Nat.le_of_lt h.time_lt)) h.absent

theorem concat (h : Arrived classOf history x time)
    (kept : x ∈ Reference.after classOf (history ++ [c])) :
    Arrived classOf (history ++ [c]) x time where
  inserted := by
    rw [List.getElem?_append_left h.time_lt]
    exact h.inserted
  absent := by
    rw [List.take_append_of_le_length (Nat.le_of_lt h.time_lt)]
    exact h.absent
  present later after inside := by
    rw [List.length_append, List.length_singleton] at inside
    rcases Nat.lt_or_eq_of_le inside with before | rfl
    · rw [List.take_append_of_le_length (Nat.le_of_lt_succ before)]
      exact h.present later after (Nat.le_of_lt_succ before)
    · rwa [List.take_of_length_le (by simp)]

theorem now {key : K} {value : V} (absent : classOf key ∉ Reference.after classOf history)
    (present : classOf key ∈ Reference.after classOf (history ++ [.insert key value])) :
    Arrived classOf (history ++ [.insert key value]) (classOf key) history.length where
  inserted := ⟨key, value, by simp, rfl⟩
  absent := by simpa using absent
  present later after inside := by
    rw [List.length_append, List.length_singleton] at inside
    rwa [List.take_of_length_le (by simp; omega)]

end Arrived

structure InOrderOfArrival (classOf : K → κ) (history : List (CollectionCommand K V))
    (keys : List K) : Prop where
  arrived : ∀ key ∈ keys, ∃ time, Arrived classOf history (classOf key) time
  ordered : keys.Pairwise fun a b => ∃ i j,
    Arrived classOf history (classOf a) i ∧ Arrived classOf history (classOf b) j ∧ i < j

namespace InOrderOfArrival

variable {keys keys' : List K}

theorem nil : InOrderOfArrival classOf history ([] : List K) := ⟨nofun, .nil⟩

theorem sublist (h : InOrderOfArrival classOf history keys) (fewer : keys'.Sublist keys)
    (kept : ∀ key ∈ keys', classOf key ∈ Reference.after classOf (history ++ [c])) :
    InOrderOfArrival classOf (history ++ [c]) keys' where
  arrived key hk := by
    obtain ⟨time, arrived⟩ := h.arrived key (fewer.subset hk)
    exact ⟨time, arrived.concat (kept key hk)⟩
  ordered := by
    refine (h.ordered.sublist fewer).imp_of_mem ?_
    rintro a b ha hb ⟨i, j, first, second, lt⟩
    exact ⟨i, j, first.concat (kept a ha), second.concat (kept b hb), lt⟩

theorem append {key : K} {value : V} (h : InOrderOfArrival classOf history keys)
    (absent : classOf key ∉ Reference.after classOf history)
    (kept : ∀ k ∈ keys ++ [key],
      classOf k ∈ Reference.after classOf (history ++ [.insert key value])) :
    InOrderOfArrival classOf (history ++ [.insert key value]) (keys ++ [key]) := by
  have others := h.sublist (.refl keys) fun k hk => kept k (List.mem_append_left _ hk)
  have last := Arrived.now absent (kept key (by simp))
  refine ⟨fun k hk => ?_, ?_⟩
  · rcases List.mem_append.mp hk with old | new
    · exact others.arrived k old
    · rw [List.mem_singleton.mp new]
      exact ⟨_, last⟩
  · refine List.pairwise_append.mpr ⟨others.ordered, List.pairwise_singleton .., ?_⟩
    intro k hk k' hk'
    rw [List.mem_singleton.mp hk']
    obtain ⟨time, earlier⟩ := h.arrived k hk
    exact ⟨time, history.length, earlier.concat (kept k (List.mem_append_left _ hk)), last,
      earlier.time_lt⟩

end InOrderOfArrival

end Arrivals

-- ---------------------------------------------------------------------------
-- Runs of a linear collection
-- ---------------------------------------------------------------------------

namespace LinearScan

variable [BEq K]

theorem run_singles (s : Storage LinearScan K V) (c : CollectionCommand K V) :
    (LiveCollections.run Storage.perform s c.singles).2 = (s.perform c).2 := by
  cases c with
  | extend entries =>
    refine Eq.trans ?_ (extended s entries).2.2.symm
    induction entries generalizing s with
    | nil => rfl
    | cons entry rest ih => exact ih (s.upsert entry.1 entry.2).after
  | insert | remove | replace | clear | copy => rfl

/-- A single command takes keys out, if it does not append the key that it inserts. -/
theorem keys_perform_cases (s : Storage LinearScan K V) {c : CollectionCommand K V}
    (single : c.Single) :
    (s.perform c).2.keys.Sublist s.keys ∨
      ∃ key value, c = .insert key value ∧ s.contains key = false ∧
        (s.perform c).2.keys = s.keys ++ [key] := by
  cases c with
  | insert key value =>
    have keys : (s.perform (.insert key value)).2.keys = _ := keys_upsert s key value
    cases present : s.contains key with
    | true =>
      rw [present, if_pos rfl] at keys
      exact .inl (keys ▸ .refl _)
    | false =>
      rw [present, if_neg Bool.false_ne_true] at keys
      exact .inr ⟨key, value, rfl, present, keys⟩
  | extend entries => exact absurd single (CollectionCommand.not_single_extend entries)
  | remove key =>
    refine .inl ?_
    simp only [Storage.perform, Storage.removeKey]
    split
    · exact Storage.keys_removeAt_sublist ..
    · exact .refl _
  | replace key value =>
    refine .inl ?_
    simp only [Storage.perform, Storage.replaceValue]
    split
    · simp
    · exact .refl _
  | clear => exact .inl (List.nil_sublist _)
  | copy => exact .inl (.refl _)

variable [DecidableEq κ] {classOf : K → κ} (agree : ∀ a b, classOf a = classOf b ↔ (a == b) = true)

include agree

theorem inOrderOfArrival_run (capacity : Nat) {history : List (CollectionCommand K V)}
    (singles : ∀ c ∈ history, c.Single) :
    InOrderOfArrival classOf history
      (LiveCollections.run Storage.perform (.withCapacity capacity LinearScan.mk) history).2.keys := by
  induction history using List.reverseRecOn with
  | nil => exact .nil
  | append_singleton history c ih =>
    obtain ⟨before, single⟩ := List.forall_mem_append.mp singles
    have represents := (LinearScan.run agree capacity history).2
    have after := (LinearScan.run agree capacity (history ++ [c])).2
    rw [run_concat] at after ⊢
    generalize (LiveCollections.run Storage.perform (.withCapacity capacity LinearScan.mk)
      history).2 = s at ih represents after ⊢
    have kept : ∀ key ∈ (s.perform c).2.keys,
        classOf key ∈ Reference.after classOf (history ++ [c]) := by
      intro key hk
      rw [after.paired.keys_eq] at hk
      obtain ⟨entry, he, rfl⟩ := List.mem_map.mp hk
      rw [Finmap.mem_iff]
      exact ⟨entry, after.lists.lookup_of_mem he⟩
    obtain fewer | ⟨key, value, rfl, absent, keys⟩ := keys_perform_cases s (single c (by simp))
    · exact (ih before).sublist fewer kept
    · rw [represents.contains_eq (locates agree s)] at absent
      dsimp only at kept ⊢
      rw [keys] at kept ⊢
      refine (ih before).append (fun present => ?_) kept
      exact Bool.false_ne_true (absent.symm.trans (Finmap.lookup_isSome.mpr present))

end LinearScan

-- ---------------------------------------------------------------------------
-- Readers
-- ---------------------------------------------------------------------------

/-- A linear collection lists the entries of the map, each of them once, as their keys arrived. -/
structure LinearScan.ListsByArrival [BEq K] [EquivBEq K] (history : List (CollectionCommand K V))
    (s : Storage LinearScan K V) : Prop where
  entries : Lists classOf s.pairs (Reference.after classOf history)
  order : InOrderOfArrival classOf history (s.pairs.map Prod.fst)
  arrival : ∀ {x : Class K} {i j : Nat}, Arrived classOf history x i → Arrived classOf history x j → i = j
  taken : ∀ count, ((Cursor.mk 0).take s count).1 = s.pairs.take count
  drained : ((Cursor.mk 0).drain s).1 = s.pairs

-- ---------------------------------------------------------------------------
-- The main result
-- ---------------------------------------------------------------------------

/-- No key equals an earlier one, whatever equality is. Where it is lawful, the entries are those
of the finite map of the classes, in the order in which these have arrived. -/
theorem linear_collections_keep_insertion_order [BEq V] (capacity : Nat)
    (commands : List (CollectionCommand K V)) :
    (∀ [BEq K],
      let s := (run Storage.perform (.withCapacity capacity LinearScan.mk) commands).2
      s.keys.Pairwise (fun a b => (a == b) = false) ∧ s.keys.length = s.values.length) ∧
    ∀ [BEq K] [EquivBEq K],
      let s := run Storage.perform (.withCapacity capacity LinearScan.mk) commands
      let m := run (Reference.perform LinearScan.classOf) ∅ commands
      let history := commands.flatMap CollectionCommand.singles
      s.1 = m.1 ∧ s.2.AnswersAs LinearScan.classOf m.2 ∧
        m.2 = Reference.after LinearScan.classOf history ∧ LinearScan.ListsByArrival history s.2 := by
  constructor
  · intro _ s
    have reached : LinearScan.Reached s := ⟨capacity, commands, rfl⟩
    exact ⟨reached.distinct, reached.paired⟩
  · intro _ _ s m history
    have agree : ∀ a b : K, LinearScan.classOf a = LinearScan.classOf b ↔ (a == b) = true :=
      fun _ _ => LinearScan.classOf_eq_iff
    obtain ⟨answers, represents⟩ := LinearScan.run (V := V) agree capacity commands
    have same : m.2 = Reference.after LinearScan.classOf history :=
      (run_flatMap (Reference.run_singles LinearScan.classOf) ∅ commands).symm
    refine ⟨answers, represents.answersAs (LinearScan.locates agree s.2), same, ?_, ?_,
      Arrived.unique, fun count => ?_, ?_⟩
    · exact same ▸ represents.lists
    · have singles : ∀ c ∈ history, c.Single := by
        intro c hc
        obtain ⟨command, -, part⟩ := List.mem_flatMap.mp hc
        exact CollectionCommand.single_of_mem_singles part
      have order := LinearScan.inOrderOfArrival_run agree capacity singles
      rw [run_flatMap LinearScan.run_singles] at order
      rwa [represents.paired.keys_eq] at order
    · rw [Cursor.take_eq]
      rfl
    · rw [Cursor.drain_eq]
      rfl

/-- Three arrives anew after it was removed, and two stays where it is when it is overwritten. -/
theorem three_is_listed_where_it_came_back :
    let commands : List (CollectionCommand Nat String) :=
      [.extend [(3, "a"), (1, "b"), (2, "c")], .insert 2 "d", .remove 3, .replace 1 "e",
        .insert 3 "f", .insert 2 "g"]
    let s : Storage LinearScan Nat String :=
      (run Storage.perform (.withCapacity 0 ⟨⟩) commands).2
    let history := commands.flatMap CollectionCommand.singles
    LinearScan.ListsByArrival history s ∧ s.pairs = [(1, "e"), (2, "g"), (3, "f")] := by
  intro commands s history
  exact ⟨((linear_collections_keep_insertion_order 0 commands).2).2.2.2, by decide +kernel⟩

end LiveCollections
