import LiveCollections.Proofs.Storage.Commands

/-!
# What becomes of the keys

Whatever a strategy answers, a command either keeps the keys, or puts a key between them,
or takes keys out; it never moves two keys past one another. Which of these it does depends
on the keys and the strategy. No value is looked at, so that storages which differ in their
values go on to have the same keys.
-/

namespace LiveCollections.Storage

variable {σ K V : Type}

-- ---------------------------------------------------------------------------
-- Edits at a position
-- ---------------------------------------------------------------------------

section Edits

variable (s : Storage σ K V)

@[simp] theorem keys_replaceValueAt (i : Nat) (value : V) :
    (s.replaceValueAt i value).2.keys = s.keys := by
  unfold replaceValueAt
  split <;> rfl

@[simp] theorem strategy_replaceValueAt (i : Nat) (value : V) :
    (s.replaceValueAt i value).2.strategy = s.strategy := by
  unfold replaceValueAt
  split <;> rfl

theorem keys_removeAt_sublist (i : Nat) : (s.removeAt i).2.keys.Sublist s.keys := by
  unfold removeAt
  split
  · exact .refl _
  · exact List.eraseIdx_sublist ..

theorem keys_removeAt {s : Storage σ K V} (h : s.Paired) (i : Nat) :
    (s.removeAt i).2.keys = s.keys.eraseIdx i := by
  rw [(h.removeAt i).keys_eq, pairs_removeAt, ← List.eraseIdx_map, h.keys_eq]

@[simp] theorem strategy_removeAt (i : Nat) : (s.removeAt i).2.strategy = s.strategy := by
  unfold removeAt
  split <;> rfl

@[simp] theorem strategy_insertAt (i : Nat) (key : K) (value : V) :
    (s.insertAt i key value).after.strategy = s.strategy := by
  have grown : s.growIfFull.strategy = s.strategy := by
    unfold growIfFull
    split <;> rfl
  unfold insertAt
  split <;> exact grown

theorem keys_insertAt {i : Nat} (hi : i ≤ s.size) (key : K) (value : V) :
    (s.insertAt i key value).after.keys = s.keys.insertIdx i key := by
  simp [insertAt, hi]

theorem keys_insertAt_of_size_lt {i : Nat} (hi : s.size < i) (key : K) (value : V) :
    (s.insertAt i key value).after.keys = s.keys := by
  simp [insertAt, Nat.not_le.mpr hi]

theorem keys_insertAt_sublist (i : Nat) (key : K) (value : V) :
    s.keys.Sublist (s.insertAt i key value).after.keys := by
  rcases Nat.lt_or_ge s.size i with outside | inside
  · rw [keys_insertAt_of_size_lt s outside]
  · rw [keys_insertAt s inside]
    exact List.sublist_insertIdx ..

end Edits

-- ---------------------------------------------------------------------------
-- Commands
-- ---------------------------------------------------------------------------

variable [IndexStrategy σ K] {s t : Storage σ K V}

/-- An upsert overwrites a value, or inserts a key that the strategy denies having, or neither. -/
theorem after_upsert_cases (s : Storage σ K V) (key : K) (value : V) :
    (∃ i, (s.upsert key value).after = (s.replaceValueAt i value).2) ∨
      (∃ i, s.contains key = false ∧
        (s.upsert key value).after = (s.insertAt i key value).after) ∨
      (s.upsert key value).after = s := by
  unfold Storage.upsert recover Storage.contains
  cases s.indexOf? key with
  | some i => exact .inl ⟨i, rfl⟩
  | none =>
    dsimp only
    split
    · exact .inr (.inl ⟨_, rfl, rfl⟩)
    · split
      · exact .inl ⟨_, rfl⟩
      · exact .inr (.inr rfl)

theorem Paired.upsert (h : s.Paired) (key : K) (value : V) : (s.upsert key value).after.Paired := by
  rcases s.after_upsert_cases key value with ⟨i, after⟩ | ⟨i, -, after⟩ | after <;> rw [after]
  · exact h.replaceValueAt i value
  · exact h.insertAt i key value
  · exact h

theorem keys_upsert_sublist (s : Storage σ K V) (key : K) (value : V) :
    s.keys.Sublist (s.upsert key value).after.keys := by
  rcases s.after_upsert_cases key value with ⟨i, after⟩ | ⟨i, -, after⟩ | after <;> rw [after]
  · simp
  · exact keys_insertAt_sublist ..

theorem mem_keys_upsert {key stored : K} {value : V}
    (h : stored ∈ (s.upsert key value).after.keys) :
    stored ∈ s.keys ∨ stored = key ∧ s.contains key = false := by
  rcases s.after_upsert_cases key value with ⟨i, after⟩ | ⟨i, absent, after⟩ | after <;>
    rw [after] at h
  · exact .inl (by simpa using h)
  · rcases Nat.lt_or_ge s.size i with outside | fits
    · rw [keys_insertAt_of_size_lt s outside] at h
      exact .inl h
    · rw [keys_insertAt s fits] at h
      rcases List.eq_or_mem_of_mem_insertIdx h with rfl | old
      · exact .inr ⟨rfl, absent⟩
      · exact .inl old
  · exact .inl h

/-- What the upsert of each entry keeps, a run of them keeps, whether or not it stops at a fault. -/
theorem upsertAll_invariant {I : Storage σ K V → Prop} (h : I s) (entries : List (K × V))
    (kept : ∀ {s}, ∀ entry ∈ entries, I s → I (s.upsert entry.1 entry.2).after) :
    I (s.upsertAll entries).after := by
  induction entries generalizing s with
  | nil => exact h
  | cons entry rest ih =>
    obtain ⟨key, value⟩ := entry
    have first := kept (key, value) List.mem_cons_self h
    unfold Storage.upsertAll
    dsimp only
    split
    · exact first
    · exact ih first fun entry he => kept entry (List.mem_cons_of_mem _ he)

theorem upsertAll_of_quiet {I : Storage σ K V → Prop} (h : I s) (entries : List (K × V))
    (quiet : ∀ {s} key value, I s →
      (s.upsert key value).answer.isOk = true ∧ (s.upsert key value).events = [])
    (kept : ∀ {s} key value, I s → I (s.upsert key value).after) :
    (s.upsertAll entries).answer = .ok () ∧ (s.upsertAll entries).events = [] ∧
      (s.upsertAll entries).after =
        entries.foldl (fun s entry => (s.upsert entry.1 entry.2).after) s := by
  induction entries generalizing s with
  | nil => exact ⟨rfl, rfl, rfl⟩
  | cons entry rest ih =>
    obtain ⟨key, value⟩ := entry
    obtain ⟨first, silent⟩ := quiet key value h
    obtain ⟨answers, events, after⟩ := ih (kept key value h)
    unfold Storage.upsertAll
    dsimp only
    cases answer : (s.upsert key value).answer with
    | error fault =>
      rw [answer] at first
      cases first
    | ok previous => exact ⟨answers, by rw [silent, events]; rfl, after⟩

/-- What every upsert and every edit at a position keeps, the commands keep. -/
theorem perform_invariant {I : Storage σ K V → Prop}
    (upsert : ∀ {s} key value, I s → I (s.upsert key value).after)
    (removeAt : ∀ {s} i, I s → I (s.removeAt i).2)
    (replaceValueAt : ∀ {s} i value, I s → I (s.replaceValueAt i value).2)
    (clear : ∀ {s}, I s → I s.clear) (copy : ∀ {s}, I s → I s.copy) (h : I s)
    (c : CollectionCommand K V) : I (s.perform c).2 := by
  cases c with
  | insert key value => exact upsert key value h
  | extend entries => exact upsertAll_invariant h entries fun entry _ h => upsert entry.1 entry.2 h
  | remove key =>
    simp only [Storage.perform, removeKey]
    split
    · exact removeAt _ h
    · exact h
  | replace key value =>
    simp only [Storage.perform, replaceValue]
    split
    · exact replaceValueAt _ value h
    · exact h
  | clear => exact clear h
  | copy => exact copy h

theorem Paired.perform (h : s.Paired) (c : CollectionCommand K V) : (s.perform c).2.Paired :=
  perform_invariant (fun key value h => h.upsert key value) (fun i h => h.removeAt i)
    (fun i value h => h.replaceValueAt i value) (fun _ => paired_clear _) id h c

-- ---------------------------------------------------------------------------
-- Storages with the same keys
-- ---------------------------------------------------------------------------

/-- The storages differ in nothing but their values and their room. -/
structure KeysAgree (s t : Storage σ K V) : Prop where
  keys : s.keys = t.keys
  strategy : s.strategy = t.strategy
  left : s.Paired
  right : t.Paired

namespace KeysAgree

omit [IndexStrategy σ K] in
theorem refl (h : s.Paired) : s.KeysAgree s := ⟨rfl, rfl, h, h⟩

omit [IndexStrategy σ K] in
theorem symm (h : s.KeysAgree t) : t.KeysAgree s :=
  ⟨h.keys.symm, h.strategy.symm, h.right, h.left⟩

omit [IndexStrategy σ K] in
theorem trans {u : Storage σ K V} (h : s.KeysAgree t) (h' : t.KeysAgree u) : s.KeysAgree u :=
  ⟨h.keys.trans h'.keys, h.strategy.trans h'.strategy, h.left, h'.right⟩

theorem indexOf?_eq (h : s.KeysAgree t) (key : K) : s.indexOf? key = t.indexOf? key := by
  simp [indexOf?, h.keys, h.strategy]

theorem insertionIndex_eq (h : s.KeysAgree t) (key : K) :
    s.insertionIndex key = t.insertionIndex key := by
  simp [insertionIndex, h.keys, h.strategy]

omit [IndexStrategy σ K] in
theorem size_eq (h : s.KeysAgree t) : s.size = t.size := congrArg List.length h.keys

omit [IndexStrategy σ K] in
theorem replaceValueAt_left (h : s.KeysAgree t) (i : Nat) (v : V) :
    (s.replaceValueAt i v).2.KeysAgree t where
  keys := by simpa using h.keys
  strategy := by simpa using h.strategy
  left := h.left.replaceValueAt i v
  right := h.right

omit [IndexStrategy σ K] in
theorem replaceValueAt (h : s.KeysAgree t) (i : Nat) (v w : V) :
    (s.replaceValueAt i v).2.KeysAgree (t.replaceValueAt i w).2 :=
  ((h.replaceValueAt_left i v).symm.replaceValueAt_left i w).symm

omit [IndexStrategy σ K] in
theorem removeAt (h : s.KeysAgree t) (i : Nat) : (s.removeAt i).2.KeysAgree (t.removeAt i).2 where
  keys := by rw [keys_removeAt h.left, keys_removeAt h.right, h.keys]
  strategy := by simpa using h.strategy
  left := h.left.removeAt i
  right := h.right.removeAt i

omit [IndexStrategy σ K] in
theorem insertAt (h : s.KeysAgree t) (i : Nat) (key : K) (v w : V) :
    (s.insertAt i key v).answer = (t.insertAt i key w).answer ∧
      (s.insertAt i key v).after.KeysAgree (t.insertAt i key w).after := by
  have answer : (s.insertAt i key v).answer = (t.insertAt i key w).answer := by
    simp only [Storage.insertAt, h.size_eq]
    split <;> rfl
  refine ⟨answer, ?_, by simpa using h.strategy, h.left.insertAt i key v, h.right.insertAt i key w⟩
  rcases Nat.lt_or_ge s.size i with outside | inside
  · rw [keys_insertAt_of_size_lt s outside, keys_insertAt_of_size_lt t (h.size_eq ▸ outside),
      h.keys]
  · rw [keys_insertAt s inside, keys_insertAt t (h.size_eq ▸ inside), h.keys]

theorem upsert (h : s.KeysAgree t) (key : K) (v w : V) :
    ((s.upsert key v).answer.map fun _ => ()) = ((t.upsert key w).answer.map fun _ => ()) ∧
      (s.upsert key v).after.KeysAgree (t.upsert key w).after := by
  unfold Storage.upsert
  rw [h.indexOf?_eq, h.insertionIndex_eq]
  split
  · exact ⟨rfl, h.replaceValueAt _ v w⟩
  · split
    · rename_i i _
      obtain ⟨answer, after⟩ := h.insertAt i key v w
      refine ⟨?_, after⟩
      simp only [answer]
    · unfold recover
      split
      · exact ⟨rfl, h.replaceValueAt _ v w⟩
      · exact ⟨rfl, h⟩

theorem upsertAll (h : s.KeysAgree t) (entries : List (K × V)) :
    (s.upsertAll entries).after.KeysAgree (t.upsertAll entries).after := by
  induction entries generalizing s t with
  | nil => exact h
  | cons entry rest ih =>
    obtain ⟨key, value⟩ := entry
    obtain ⟨answer, after⟩ := h.upsert key value value
    unfold Storage.upsertAll
    dsimp only
    cases hs : (s.upsert key value).answer <;> cases ht : (t.upsert key value).answer <;>
      simp only [hs, ht, Except.map, reduceCtorEq] at answer
    · exact after
    · exact ih after

theorem upsert_present (h : s.KeysAgree t) {key : K} (present : t.contains key = true) (value : V) :
    (s.upsert key value).after.KeysAgree t := by
  obtain ⟨i, hi⟩ := Option.isSome_iff_exists.mp present
  simp only [Storage.upsert, h.indexOf?_eq, hi]
  exact h.replaceValueAt_left i value

theorem perform (h : s.KeysAgree t) (c : CollectionCommand K V) :
    (s.perform c).2.KeysAgree (t.perform c).2 := by
  cases c with
  | insert key value => exact (h.upsert key value value).2
  | extend entries => exact h.upsertAll entries
  | remove key =>
    simp only [Storage.perform, removeKey, h.indexOf?_eq]
    split
    · exact h.removeAt _
    · exact h
  | replace key value =>
    simp only [Storage.perform, replaceValue, h.indexOf?_eq]
    split
    · exact h.replaceValueAt _ value value
    · exact h
  | clear => exact ⟨rfl, h.strategy, paired_clear s, paired_clear t⟩
  | copy => exact ⟨h.keys, h.strategy, h.left, h.right⟩

end KeysAgree

end LiveCollections.Storage

-- ---------------------------------------------------------------------------
-- Commands by what they do to the keys
-- ---------------------------------------------------------------------------

namespace LiveCollections

variable {σ K V : Type}

namespace CollectionCommand

def inserts : CollectionCommand K V → Bool
  | .insert _ _ | .extend _ => true
  | _ => false

def removes : CollectionCommand K V → Bool
  | .remove _ => true
  | _ => false

def overwrites [IndexStrategy σ K] (s : Storage σ K V) : CollectionCommand K V → Bool
  | .insert key _ => s.contains key
  | .extend entries => entries.all fun entry => s.contains entry.1
  | .replace _ _ => true
  | _ => false

end CollectionCommand

namespace Storage

variable [IndexStrategy σ K] {s t : Storage σ K V} {command : CollectionCommand K V}

theorem perform_invariant_of_inserts {I : Storage σ K V → Prop} (hc : command.inserts = true)
    (kept : ∀ {s} key value, I s → I (s.upsert key value).after) (h : I s) :
    I (s.perform command).2 := by
  cases command with
  | insert key value => exact kept key value h
  | extend entries => exact upsertAll_invariant h entries fun entry _ h => kept entry.1 entry.2 h
  | remove _ | replace _ _ | clear | copy => cases hc

theorem keys_perform_sublist (hc : command.inserts = true) (s : Storage σ K V) :
    s.keys.Sublist (s.perform command).2.keys :=
  perform_invariant_of_inserts (I := fun t => s.keys.Sublist t.keys) hc
    (fun key value h => h.trans (keys_upsert_sublist _ key value)) (.refl _)

theorem Paired.keysAgree_of_overwrites (h : s.Paired) (ho : command.overwrites s = true) :
    (s.perform command).2.KeysAgree s := by
  have same : s.KeysAgree s := .refl h
  cases command with
  | insert key value => exact same.upsert_present ho value
  | extend entries =>
    exact upsertAll_invariant (I := fun t => t.KeysAgree s) same entries fun entry he agree =>
      agree.upsert_present (List.all_eq_true.mp ho entry he) entry.2
  | replace key value =>
    simp only [Storage.perform, replaceValue]
    split
    · exact same.replaceValueAt_left _ value
    · exact same
  | remove _ | clear | copy => cases ho

end Storage

end LiveCollections
