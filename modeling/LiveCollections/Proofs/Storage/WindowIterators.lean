import LiveCollections.Proofs.Storage.Confinement
import LiveCollections.Proofs.Storage.RunningIterators
import Mathlib.Data.List.Sort

/-!
# Iterators of a window while the storage changes

A step of a window's iterator compares the key at its position with the upper bound, and
never with the lower one. That it does not come to stand below the lower bound is a matter
of counting: the keys below the bound are in front, and the iterator starts behind them.
Nothing moves more keys below the bound than there were, unless a new key is brought in
there, so that the position goes on to be behind all of them, however far the entries have
shifted.

While no key is brought in at all, what the iterator has yielded and what it has yet to pass
ascend together.
-/

namespace LiveCollections

variable {K V : Type} {c : Comparator K}

theorem Comparator.Ascending.sublist_of_subset [Std.TransCmp c.compare] {keys more : List K}
    (hk : c.Ascending keys) (hm : c.Ascending more) (h : keys ⊆ more) : keys.Sublist more := by
  have antisymm : Std.Antisymm fun a b => c.compare a b = .lt := by
    refine ⟨fun a b lt gt => ?_⟩
    rw [Std.OrientedCmp.gt_of_lt lt] at gt
    cases gt
  exact List.sublist_of_subperm_of_pairwise (hk.nodup.subperm h) hk hm

-- ---------------------------------------------------------------------------
-- What a call brings in
-- ---------------------------------------------------------------------------

def CollectionCommand.offered : CollectionCommand K V → List K
  | .insert key _ => [key]
  | .extend entries => entries.map Prod.fst
  | .remove _ | .replace _ _ | .clear | .copy => []

/-- The keys that a call brings in: it offers them, is let through, and finds none of them. -/
def SortedCommand.added (s : SortedStorage K V) (call : SortedCommand K V) : List K :=
  if Interface.sorted.admits s.strategy call then
    (Interface.sorted.command call).offered.filter (!s.contains ·)
  else []

def SortedCommand.window? : SortedCommand K V → Option (Window K)
  | .whole _ => none
  | .insertWithin w _ _ | .removeWithin w _ => some w

theorem SortedCommand.added_of_removes {call : SortedCommand K V}
    (h : (Interface.sorted.command call).removes = true) (s : SortedStorage K V) :
    call.added s = [] := by
  unfold added
  cases hc : Interface.sorted.command call with
  | remove key => simp [CollectionCommand.offered]
  | insert | extend | replace | clear | copy =>
    rw [hc] at h
    cases h

theorem SortedCommand.admits_of_added {call : SortedCommand K V} {w : Window K}
    (h : call.window? = some w) {s : SortedStorage K V} {key : K} (hk : key ∈ call.added s) :
    w.admits s.strategy.comparator key = true := by
  unfold added at hk
  cases call with
  | whole command => cases h
  | insertWithin v new value =>
    cases h
    split at hk
    · rename_i admitted
      cases List.mem_singleton.mp (List.mem_filter.mp hk).1
      exact admitted
    · cases hk
  | removeWithin v gone =>
    split at hk <;> cases hk

namespace Storage.Sorted

variable {s t : SortedStorage K V} {key : K}

theorem perform (h : s.Sorted c) [Std.TransCmp c.compare] (command : CollectionCommand K V) :
    (s.perform command).2.Sorted c :=
  perform_invariant (fun key value h => h.upsert key value)
    (fun i h => ⟨(strategy_removeAt _ i).trans h.strategy,
      h.ascending.sublist (keys_removeAt_sublist _ i)⟩)
    (fun i value h => ⟨(strategy_replaceValueAt _ i value).trans h.strategy,
      by simpa using h.ascending⟩)
    (fun h => ⟨h.strategy, .nil⟩) (fun h => ⟨h.strategy, h.ascending⟩) h command

variable [Std.TransCmp c.compare]

theorem contains_of_subset (hs : s.Sorted c) (ht : t.Sorted c) (more : s.keys ⊆ t.keys)
    (h : s.contains key = true) : t.contains key = true := by
  obtain ⟨i, hi⟩ := Option.isSome_iff_exists.mp h
  obtain ⟨stored, found, same⟩ := hs.locates.found hi
  rw [Storage.contains, Option.isSome_iff_ne_none]
  intro absent
  exact (ht.locates.absent absent).1 stored (more (List.mem_of_getElem? found)) same

theorem mem_keys_perform (hs : s.Sorted c) (command : CollectionCommand K V)
    (h : key ∈ (s.perform command).2.keys) :
    key ∈ s.keys ∨ key ∈ command.offered ∧ s.contains key = false := by
  cases command with
  | insert new value =>
    rcases mem_keys_upsert h with old | ⟨rfl, absent⟩
    · exact .inl old
    · exact .inr ⟨List.mem_singleton_self _, absent⟩
  | extend entries =>
    let Grown (t : SortedStorage K V) : Prop := t.Sorted c ∧ s.keys ⊆ t.keys ∧
      ∀ key ∈ t.keys, key ∈ s.keys ∨ key ∈ entries.map Prod.fst ∧ s.contains key = false
    have grown : Grown (s.upsertAll entries).after := by
      refine upsertAll_invariant (I := Grown) ⟨hs, fun _ hk => hk, fun _ hk => .inl hk⟩ entries ?_
      rintro t entry he ⟨ht, more, known⟩
      refine ⟨ht.upsert entry.1 entry.2, List.Subset.trans more (keys_upsert_sublist t _ _).subset,
        fun key hk => ?_⟩
      rcases mem_keys_upsert hk with old | ⟨rfl, absent⟩
      · exact known key old
      · refine .inr ⟨List.mem_map_of_mem he, ?_⟩
        rw [Bool.eq_false_iff] at absent ⊢
        exact fun present => absent (hs.contains_of_subset ht more present)
    exact grown.2.2 key h
  | remove gone =>
    refine .inl ?_
    simp only [Storage.perform, Storage.removeKey, Prod.map_snd, id_eq] at h
    split at h
    · exact (keys_removeAt_sublist s _).subset h
    · exact h
  | replace same value =>
    refine .inl ?_
    simp only [Storage.perform, Storage.replaceValue, Prod.map_snd, id_eq] at h
    split at h
    · simpa using h
    · exact h
  | clear => cases h
  | copy => exact .inl h

theorem mem_keys_step (hs : s.Sorted c) (call : SortedCommand K V)
    (h : key ∈ (s.step call).2.keys) : key ∈ s.keys ∨ key ∈ call.added s := by
  have changed : (s.step call).2 = _ := Interface.sorted.change_eq s call
  rw [changed] at h
  unfold SortedCommand.added
  split at h
  · rename_i admitted
    rw [if_pos admitted]
    rcases hs.mem_keys_perform _ h with old | ⟨offered, absent⟩
    · exact .inl old
    · exact .inr (List.mem_filter.mpr ⟨offered, by simp [absent]⟩)
  · exact .inl h

theorem stepped (hs : s.Sorted c) (call : SortedCommand K V) : (s.step call).2.Sorted c :=
  Interface.sorted.change_invariant (P := fun t => t.Sorted c) hs (hs.perform _)

end Storage.Sorted

theorem Storage.Paired.step {s : SortedStorage K V} (h : s.Paired) (call : SortedCommand K V) :
    (s.step call).2.Paired :=
  Interface.sorted.change_invariant (P := fun t => t.Paired) h (h.perform _)

-- ---------------------------------------------------------------------------
-- Walks
-- ---------------------------------------------------------------------------

namespace Window

structure Walk (K V : Type) where
  storage : SortedStorage K V
  iterator : Iterator K
  yielded : List (K × V) := []

namespace Walk

variable {walk : Walk K V}

def upcoming (walk : Walk K V) : Option (K × V) := (walk.iterator.next walk.storage).1

def turn (walk : Walk K V) : Turn (SortedCommand K V) → Walk K V
  | .next =>
    { walk with
      iterator := (walk.iterator.next walk.storage).2
      yielded := walk.yielded ++ walk.upcoming.toList }
  | .call call => { walk with storage := (walk.storage.step call).2 }

theorem next_cases (walk : Walk K V) :
    (∃ entry, walk.upcoming = some entry ∧
        walk.storage.pairs[walk.iterator.position]? = some entry ∧
        (Window.mk none walk.iterator.upper).belowUpper walk.storage.strategy.comparator entry.1 =
          true ∧
        walk.turn .next = { walk with
          iterator := { walk.iterator with position := walk.iterator.position + 1 }
          yielded := walk.yielded ++ [entry] }) ∨
      (walk.upcoming = none ∧
        walk.turn .next = { walk with iterator := { walk.iterator with finished := true } }) := by
  obtain ⟨storage, ⟨position, upper, finished⟩, yielded⟩ := walk
  unfold turn upcoming Iterator.next
  rw [Storage.entryAt?_eq_getElem?]
  cases finished with
  | true => exact .inr ⟨rfl, by simp⟩
  | false =>
    cases found : storage.pairs[position]? with
    | none => exact .inr ⟨rfl, by simp⟩
    | some entry =>
      cases inside : (Window.mk none upper).belowUpper storage.strategy.comparator entry.1 with
      | true => exact .inl ⟨entry, by simp [inside]⟩
      | false => exact .inr (by simp [inside])

theorem foldl_of_finished (h : walk.iterator.finished = true)
    (more : List (Turn (SortedCommand K V))) :
    (more.foldl turn walk).yielded = walk.yielded ∧ (more.foldl turn walk).upcoming = none := by
  induction more generalizing walk with
  | nil => exact ⟨rfl, by simp [upcoming, Iterator.next, h]⟩
  | cons turn more ih =>
    cases turn with
    | next =>
      have still : walk.turn .next = walk := by simp [Walk.turn, upcoming, Iterator.next, h]
      rw [List.foldl_cons, still]
      exact ih h
    | call call => exact @ih (walk.turn (.call call)) h

end Walk

def walk (w : Window K) (s : SortedStorage K V) (turns : List (Turn (SortedCommand K V))) :
    Walk K V :=
  turns.foldl Walk.turn { storage := s, iterator := w.iterator s }

def AddsOnly (allowed : K → Bool) (s : SortedStorage K V) : List (Turn (SortedCommand K V)) → Prop
  | [] => True
  | .next :: turns => AddsOnly allowed s turns
  | .call call :: turns =>
    (call.added s).all allowed = true ∧ AddsOnly allowed (s.step call).2 turns

instance AddsOnly.decidable (allowed : K → Bool) (s : SortedStorage K V)
    (turns : List (Turn (SortedCommand K V))) : Decidable (AddsOnly allowed s turns) :=
  match turns with
  | [] => .isTrue trivial
  | .next :: turns => decidable allowed s turns
  | .call call :: turns =>
    have := decidable allowed (s.step call).2 turns
    inferInstanceAs (Decidable (_ ∧ _))

theorem AddsOnly.invariant {P : Walk K V → Prop} {allowed : K → Bool} {walk : Walk K V}
    {turns : List (Turn (SortedCommand K V))} (only : AddsOnly allowed walk.storage turns)
    (init : P walk) (next : ∀ {walk}, P walk → P (walk.turn .next))
    (call : ∀ {walk call}, (call.added walk.storage).all allowed = true → P walk →
      P (walk.turn (.call call))) : P (turns.foldl Walk.turn walk) := by
  induction turns generalizing walk with
  | nil => exact init
  | cons turn turns ih =>
    cases turn with
    | next => exact ih only (next init)
    | call c => exact ih only.2 (call only.1 init)

theorem addsOnly_of_calls {I : SortedStorage K V → Prop} {allowed : K → Bool}
    {turns : List (Turn (SortedCommand K V))} {s : SortedStorage K V} (init : I s)
    (kept : ∀ {s} call, I s → I (s.step call).2)
    (calls : ∀ call ∈ turns.filterMap Turn.call?, ∀ s, I s → (call.added s).all allowed = true) :
    AddsOnly allowed s turns := by
  induction turns generalizing s with
  | nil => trivial
  | cons turn turns ih =>
    cases turn with
    | next => exact ih init calls
    | call call =>
      obtain ⟨first, rest⟩ := List.forall_mem_cons.mp calls
      exact ⟨first s init, ih (kept call init) rest⟩

-- ---------------------------------------------------------------------------
-- Behind the lower bound
-- ---------------------------------------------------------------------------

section Lower

variable [Std.TransCmp c.compare] {w : Window K} {s t : SortedStorage K V}

/-- The position of the lower bound counts the keys below it. -/
theorem lowerIndex_eq_length (paired : s.Paired) (hs : s.Sorted c) (w : Window K) :
    w.lowerIndex s = (s.keys.filter fun key => !w.atOrAboveLower c key).length := by
  obtain ⟨front, back⟩ := lowerIndex_spec paired hs w
  have fits : w.lowerIndex s ≤ s.pairs.length := by
    rw [paired.length_pairs]
    exact w.lowerIndex_le_size s
  have cut : w.below c s = s.pairs.take (w.lowerIndex s) :=
    filter_eq_take (fun entry he => by simp [front entry he])
      fun entry he => by simp [back entry he]
  calc w.lowerIndex s
      = (w.below c s).length := by rw [cut, List.length_take, Nat.min_eq_left fits]
    _ = (s.keys.filter fun key => !w.atOrAboveLower c key).length := by
        rw [paired.keys_eq, List.filter_map, List.length_map]
        rfl

theorem lowerIndex_le_of_added (paired : s.Paired) (hs : s.Sorted c) (pairedAfter : t.Paired)
    (ht : t.Sorted c)
    (added : ∀ key ∈ t.keys, key ∈ s.keys ∨ w.atOrAboveLower c key = true) :
    w.lowerIndex t ≤ w.lowerIndex s := by
  rw [lowerIndex_eq_length paired hs, lowerIndex_eq_length pairedAfter ht]
  refine ((ht.ascending.nodup.filter _).subperm fun key hk => ?_).length_le
  obtain ⟨now, below⟩ := List.mem_filter.mp hk
  rcases added key now with before | allowed
  · exact List.mem_filter.mpr ⟨before, below⟩
  · simp [allowed] at below

structure Keeps (w : Window K) (c : Comparator K) (walk : Walk K V) : Prop where
  paired : walk.storage.Paired
  sorted : walk.storage.Sorted c
  upper : walk.iterator.upper = w.upper
  position : w.lowerIndex walk.storage ≤ walk.iterator.position
  yielded : ∀ entry ∈ walk.yielded, w.within c entry.1 = true

variable {walk : Walk K V}

theorem Keeps.upcoming (h : w.Keeps c walk) {entry : K × V} (he : walk.upcoming = some entry) :
    entry ∈ walk.storage.pairs ∧ w.within c entry.1 = true := by
  rcases walk.next_cases with ⟨other, hu, found, below, -⟩ | ⟨hu, -⟩
  · rw [hu] at he
    cases he
    obtain ⟨lt, rfl⟩ := List.getElem?_eq_some_iff.mp found
    have behind : walk.storage.pairs[walk.iterator.position] ∈
        walk.storage.pairs.drop (w.lowerIndex walk.storage) := by
      refine List.mem_drop_iff_getElem.mpr
        ⟨walk.iterator.position - w.lowerIndex walk.storage, ?_, ?_⟩
      · have := h.position
        omega
      · simp only [Nat.add_sub_cancel' h.position]
    have above := (lowerIndex_spec h.paired h.sorted w).2 _ behind
    rw [h.upper, h.sorted.strategy] at below
    refine ⟨List.getElem_mem lt, ?_⟩
    rw [← admits_eq_within, admits, Bool.and_eq_true]
    exact ⟨above, below⟩
  · rw [hu] at he
    cases he

theorem Keeps.next (h : w.Keeps c walk) : w.Keeps c (walk.turn .next) := by
  rcases walk.next_cases with ⟨entry, hu, -, -, step⟩ | ⟨-, step⟩
  · rw [step]
    refine ⟨h.paired, h.sorted, h.upper, Nat.le_succ_of_le h.position, fun other ho => ?_⟩
    rcases List.mem_append.mp ho with before | now
    · exact h.yielded other before
    · cases List.mem_singleton.mp now
      exact (h.upcoming hu).2
  · rw [step]
    exact ⟨h.paired, h.sorted, h.upper, h.position, h.yielded⟩

theorem Keeps.call (h : w.Keeps c walk) {call : SortedCommand K V}
    (added : (call.added walk.storage).all (w.atOrAboveLower c) = true) :
    w.Keeps c (walk.turn (.call call)) where
  paired := h.paired.step call
  sorted := h.sorted.stepped call
  upper := h.upper
  position := by
    refine Nat.le_trans (lowerIndex_le_of_added h.paired h.sorted (h.paired.step call)
      (h.sorted.stepped call) fun key hk => ?_) h.position
    exact (h.sorted.mem_keys_step call hk).imp_right (List.all_eq_true.mp added key)
  yielded := h.yielded

end Lower

-- ---------------------------------------------------------------------------
-- While no key is brought in
-- ---------------------------------------------------------------------------

section Ascending

variable [Std.TransCmp c.compare] {walk : Walk K V}

structure Walk.Rises (c : Comparator K) (walk : Walk K V) : Prop where
  paired : walk.storage.Paired
  sorted : walk.storage.Sorted c
  ascending : c.Ascending
    (walk.yielded.map Prod.fst ++ walk.storage.keys.drop walk.iterator.position)

omit [Std.TransCmp c.compare] in
theorem Walk.Rises.next (h : walk.Rises c) : (walk.turn .next).Rises c := by
  rcases walk.next_cases with ⟨entry, -, found, -, step⟩ | ⟨-, step⟩
  · have key : walk.storage.keys[walk.iterator.position]? = some entry.1 := by
      rw [h.paired.keys_eq, List.getElem?_map, found]
      rfl
    obtain ⟨lt, same⟩ := List.getElem?_eq_some_iff.mp key
    have ascending := h.ascending
    rw [List.drop_eq_getElem_cons lt, same] at ascending
    rw [step]
    exact ⟨h.paired, h.sorted, by simpa using ascending⟩
  · rw [step]
    exact ⟨h.paired, h.sorted, h.ascending⟩

theorem Walk.Rises.call (h : walk.Rises c) {call : SortedCommand K V}
    (added : (call.added walk.storage).all (fun _ => false) = true) :
    (walk.turn (.call call)).Rises c where
  paired := h.paired.step call
  sorted := h.sorted.stepped call
  ascending := by
    have fewer : (walk.storage.step call).2.keys.Sublist walk.storage.keys := by
      refine (h.sorted.stepped call).ascending.sublist_of_subset h.sorted.ascending
        fun key hk => ?_
      rcases h.sorted.mem_keys_step call hk with before | new
      · exact before
      · exact absurd (List.all_eq_true.mp added key new) Bool.false_ne_true
    exact h.ascending.sublist ((List.Sublist.refl _).append (fewer.drop _))

end Ascending

-- ---------------------------------------------------------------------------
-- The main result
-- ---------------------------------------------------------------------------

section Main

variable [Std.TransCmp c.compare] {w : Window K} {s : SortedStorage K V}

theorem addsOnly_of_narrows (hs : s.Sorted c) {turns : List (Turn (SortedCommand K V))}
    (narrower : ∀ call ∈ turns.filterMap Turn.call?,
      ∃ v, call.window? = some v ∧ Narrows c w v) : AddsOnly (w.atOrAboveLower c) s turns := by
  refine addsOnly_of_calls (I := fun s => s.Sorted c) hs (fun call h => h.stepped call) ?_
  intro call made s hs
  obtain ⟨v, through, narrows⟩ := narrower call made
  refine List.all_eq_true.mpr fun key hk => ?_
  have admitted := SortedCommand.admits_of_added through hk
  rw [hs.strategy, admits_eq_within] at admitted
  have inside := narrows.within key admitted
  rw [← admits_eq_within, admits, Bool.and_eq_true] at inside
  exact inside.1

omit [Std.TransCmp c.compare] in
theorem addsOnly_of_removes {turns : List (Turn (SortedCommand K V))}
    (only : Interface.sorted.Only CollectionCommand.removes turns) (allowed : K → Bool)
    (s : SortedStorage K V) : AddsOnly allowed s turns := by
  refine addsOnly_of_calls (I := fun _ => True) trivial (fun _ _ => trivial) fun call made s _ => ?_
  rw [call.added_of_removes (only call made)]
  rfl

/-- What was yielded is within the window, and so is what is yielded next, which is there now. -/
def Within (w : Window K) (c : Comparator K) (walk : Walk K V) : Prop :=
  (∀ entry ∈ walk.yielded, w.within c entry.1 = true) ∧
    ∀ entry, walk.upcoming = some entry →
      entry ∈ walk.storage.pairs ∧ w.within c entry.1 = true

/-- What can be relied on in an iterator of the window while the storage changes. -/
structure Iterates (w : Window K) (c : Comparator K) (s : SortedStorage K V) : Prop where
  inside : ∀ turns, AddsOnly (w.atOrAboveLower c) s turns → w.Within c (w.walk s turns)
  narrower : ∀ turns, (∀ call ∈ turns.filterMap Turn.call?,
    ∃ v, call.window? = some v ∧ Narrows c w v) → w.Within c (w.walk s turns)
  /-- Whatever happens to the storage later. -/
  finished : ∀ turns more, (w.walk s turns).upcoming = none →
    (w.walk s (turns ++ .next :: more)).yielded = (w.walk s turns).yielded ∧
      (w.walk s (turns ++ .next :: more)).upcoming = none
  ascending : ∀ turns, AddsOnly (fun _ => false) s turns →
    c.Ascending ((w.walk s turns).yielded.map Prod.fst)
  removing : ∀ turns, Interface.sorted.Only CollectionCommand.removes turns →
    c.Ascending ((w.walk s turns).yielded.map Prod.fst)

theorem within_walk (paired : s.Paired) (hs : s.Sorted c) {turns : List (Turn (SortedCommand K V))}
    (only : AddsOnly (w.atOrAboveLower c) s turns) : w.Within c (w.walk s turns) := by
  have start : w.Keeps c ⟨s, w.iterator s, []⟩ := ⟨paired, hs, rfl, Nat.le_refl _, nofun⟩
  have kept := only.invariant start Keeps.next fun added h => h.call added
  exact ⟨kept.yielded, fun _ he => kept.upcoming he⟩

theorem ascending_walk (paired : s.Paired) (hs : s.Sorted c)
    {turns : List (Turn (SortedCommand K V))} (only : AddsOnly (fun _ => false) s turns) :
    c.Ascending ((w.walk s turns).yielded.map Prod.fst) := by
  have start : Walk.Rises c ⟨s, w.iterator s, []⟩ :=
    ⟨paired, hs, hs.ascending.sublist (List.drop_sublist _ _)⟩
  have risen := only.invariant start Walk.Rises.next fun added h => h.call added
  exact risen.ascending.sublist (List.sublist_append_left _ _)

omit [Std.TransCmp c.compare] in
theorem walk_finished {turns : List (Turn (SortedCommand K V))}
    (h : (w.walk s turns).upcoming = none) (more : List (Turn (SortedCommand K V))) :
    (w.walk s (turns ++ .next :: more)).yielded = (w.walk s turns).yielded ∧
      (w.walk s (turns ++ .next :: more)).upcoming = none := by
  have after : w.walk s (turns ++ .next :: more) =
      more.foldl Walk.turn ((w.walk s turns).turn .next) := by
    rw [walk, List.foldl_append]
    rfl
  rcases (w.walk s turns).next_cases with ⟨_, some, -⟩ | ⟨-, step⟩
  · rw [h] at some
    cases some
  · rw [after, step]
    exact Walk.foldl_of_finished rfl more

end Main

/-- Whatever was done to a sorted collection, an iterator of a window stays inside the window while
no key is brought in below it. -/
theorem iterators_stay_inside_their_window (c : Comparator K) [Std.TransCmp c.compare]
    (capacity : Nat) (commands : List (SortedCommand K V)) (w : Window K) :
    w.Iterates c (run Storage.step (.withCapacity capacity ⟨c⟩) commands).2 := by
  generalize hs : (run Storage.step (.withCapacity capacity ⟨c⟩) commands).2 = s
  have reached : s.Reached c := ⟨capacity, commands, hs.symm⟩
  have paired := reached.paired
  have sorted := reached.sorted
  exact {
    inside := fun _ only => within_walk paired sorted only
    narrower := fun _ through => within_walk paired sorted (addsOnly_of_narrows sorted through)
    finished := fun _ more h => walk_finished h more
    ascending := fun _ only => ascending_walk paired sorted only
    removing := fun _ only => ascending_walk paired sorted (addsOnly_of_removes only _ _) }

/-- A number that is brought in behind the iterator repeats one, and none below ten is met when
the numbers in front of the window go. -/
theorem twenty_comes_twice_and_five_never :
    let s : SortedStorage Nat Unit := (run Storage.step (.withCapacity 0 ⟨.natural⟩)
      [.whole (.extend [(5, ()), (20, ()), (30, ()), (50, ())])]).2
    let w : Window Nat := ⟨some 10, some 40⟩
    let turns : List (Turn (SortedCommand Nat Unit)) :=
      [.next, .call (.insertWithin w 10 ()), .next, .call (.whole (.remove 5)),
        .call (.whole (.insert 35 ())), .next, .next]
    w.Within .natural (w.walk s turns) ∧
      (w.walk s turns).yielded = [(20, ()), (20, ()), (35, ())] ∧
      (w.walk s turns).upcoming = none := by
  intro s w turns
  exact ⟨(iterators_stay_inside_their_window .natural 0 _ w).inside turns (by decide +kernel),
    by decide +kernel, by decide +kernel⟩

end Window

end LiveCollections
