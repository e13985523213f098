import LiveCollections.Proofs.Multimap.Serializing
import Mathlib.Data.List.Dedup

/-!
# Decoding takes the union

A reader may be handed any entries: a key again after others, a value twice, a sequence
without values. It makes of them the snapshot with just the pairs that are listed, and a
multimap that is restored from it is equal to one that the pairs are put into one by one.

So it does not show how the pairs were spread over entries. The moves that spread them in
another way are listed, and lead from any entries to all others that are read the same.
-/

namespace LiveCollections.Multimap

variable {K V : Type}

-- ---------------------------------------------------------------------------
-- Spreading pairs over entries
-- ---------------------------------------------------------------------------

def associations (entries : List (K × List V)) : List (K × V) :=
  entries.flatMap fun entry => entry.2.map fun value => (entry.1, value)

theorem mem_associations {entries : List (K × List V)} {key : K} {value : V} :
    (key, value) ∈ associations entries ↔ Snapshot.Listed entries key value := by
  simp only [associations, List.mem_flatMap, List.mem_map, Prod.mk.injEq, Snapshot.Listed]
  constructor
  · rintro ⟨⟨k, values⟩, he, v, hv, rfl, rfl⟩
    exact ⟨values, he, hv⟩
  · rintro ⟨values, he, hv⟩
    exact ⟨_, he, value, hv, rfl, rfl⟩

/-- Moves at the first entry; a permutation brings any entry there. -/
inductive Rearranged : List (K × List V) → List (K × List V) → Prop
  | permuted {entries others : List (K × List V)} (perm : entries.Perm others) :
    Rearranged entries others
  /-- The values of an entry come in another order or more or less often. -/
  | repeated (key : K) {values others : List V} (members : ∀ value, value ∈ values ↔ value ∈ others)
    (rest : List (K × List V)) : Rearranged ((key, values) :: rest) ((key, others) :: rest)
  | split (key : K) (values others : List V) (rest : List (K × List V)) :
    Rearranged ((key, values ++ others) :: rest) ((key, values) :: (key, others) :: rest)
  | dropped (key : K) (rest : List (K × List V)) : Rearranged ((key, []) :: rest) rest
  | symm {entries others : List (K × List V)} (h : Rearranged entries others) :
    Rearranged others entries
  | trans {entries others more : List (K × List V)} (h : Rearranged entries others)
    (h' : Rearranged others more) : Rearranged entries more

namespace Rearranged

variable {entries others rest : List (K × List V)}

theorem listed_iff (h : Rearranged entries others) (key : K) (value : V) :
    Snapshot.Listed entries key value ↔ Snapshot.Listed others key value := by
  induction h with
  | permuted perm => simp only [Snapshot.Listed, perm.mem_iff]
  | repeated k members rest => simp only [Snapshot.listed_cons, members]
  | split k values others rest =>
    simp only [Snapshot.listed_cons, List.mem_append, and_or_left, or_assoc]
  | dropped k rest => simp [Snapshot.listed_cons]
  | symm _ ih => exact ih.symm
  | trans _ _ ih ih' => exact ih.trans ih'

theorem refl (entries : List (K × List V)) : Rearranged entries entries := .permuted (.refl _)

theorem cons (h : Rearranged entries others) (entry : K × List V) :
    Rearranged (entry :: entries) (entry :: others) := by
  -- the entry stands aside while the move is made
  have aside : ∀ {first second : K × List V} {rest : List (K × List V)},
      Rearranged (first :: second :: rest) (second :: first :: rest) := .permuted (.swap ..)
  induction h with
  | permuted perm => exact .permuted (perm.cons entry)
  | repeated key members rest =>
    exact aside.trans ((Rearranged.repeated key members (entry :: rest)).trans aside)
  | split key values others rest =>
    have parted := Rearranged.split key values others (entry :: rest)
    have back : ((key, values) :: (key, others) :: entry :: rest).Perm
        (entry :: (key, values) :: (key, others) :: rest) :=
      ((List.Perm.swap entry (key, others) rest).cons _).trans (.swap ..)
    exact aside.trans (parted.trans (.permuted back))
  | dropped key rest => exact aside.trans (.dropped key (entry :: rest))
  | symm _ ih => exact ih.symm
  | trans _ _ ih ih' => exact ih.trans ih'

def singles (pairs : List (K × V)) : List (K × List V) :=
  pairs.map fun pair => (pair.1, [pair.2])

theorem to_singles (entries : List (K × List V)) :
    Rearranged entries (singles (associations entries)) := by
  induction entries with
  | nil => exact refl _
  | cons entry entries ih =>
    obtain ⟨key, values⟩ := entry
    refine (ih.cons (key, values)).trans ?_
    induction values with
    | nil => exact .dropped key _
    | cons value values ih => exact (Rearranged.split key [value] values _).trans (ih.cons _)

theorem once (key : K) (values : List V) (rest : List (K × List V)) :
    Rearranged ((key, values) :: (key, values) :: rest) ((key, values) :: rest) :=
  (Rearranged.split key values values rest).symm.trans (.repeated key (by simp) rest)

theorem singles_dedup [DecidableEq K] [DecidableEq V] (pairs : List (K × V)) :
    Rearranged (singles pairs) (singles pairs.dedup) := by
  induction pairs with
  | nil => exact refl _
  | cons pair pairs ih =>
    refine (ih.cons (pair.1, [pair.2])).trans ?_
    by_cases again : pair ∈ pairs
    · -- the pair comes to the front of the others, to be merged with them
      have front := (List.perm_cons_erase (List.mem_dedup.mpr again)).map
        fun pair : K × V => (pair.1, [pair.2])
      have merged := (permuted (front.cons (pair.1, [pair.2]))).trans
        ((once pair.1 [pair.2] _).trans (.permuted front.symm))
      rwa [List.dedup_cons_of_mem again]
    · rw [List.dedup_cons_of_notMem again]
      exact refl _

/-- Entries that list the same pairs are led to the same entries of one pair each. -/
theorem of_listed_iff [DecidableEq K] [DecidableEq V]
    (same : ∀ key value, Snapshot.Listed entries key value ↔ Snapshot.Listed others key value) :
    Rearranged entries others := by
  have alone : ∀ entries : List (K × List V),
      Rearranged entries (singles (associations entries).dedup) := fun entries =>
    (to_singles entries).trans (singles_dedup _)
  have pairs : (associations entries).dedup.Perm (associations others).dedup := by
    refine (List.perm_ext_iff_of_nodup (List.nodup_dedup _) (List.nodup_dedup _)).mpr ?_
    rintro ⟨key, value⟩
    simp only [List.mem_dedup, mem_associations, same]
  exact (alone entries).trans ((permuted (pairs.map _)).trans (alone others).symm)

end Rearranged

-- ---------------------------------------------------------------------------
-- Restored and collected multimaps
-- ---------------------------------------------------------------------------

variable [DecidableEq K] [DecidableEq V]

theorem Snapshot.mem_contents_ofEntries {entries : List (K × List V)} {key : K} {value : V} :
    value ∈ (ofEntries entries).contents key ↔ Listed entries key value := by
  rw [mem_contents (wellFormed_ofEntries entries), mem_pairs_ofEntries]

theorem Snapshot.same_ofEntries_iff {entries others : List (K × List V)} :
    (ofEntries entries).same (ofEntries others) = true ↔ Rearranged entries others := by
  rw [same_eq_true_iff (wellFormed_ofEntries entries) (wellFormed_ofEntries others)]
  simp only [mem_contents_ofEntries]
  exact ⟨.of_listed_iff, fun h => h.listed_iff⟩

namespace Store

variable {s : Store K V}

theorem mem_pairs_createFrom (h : s.WellFormed) (pairs : List (K × V)) (pair : K × V) :
    pair ∈ (s.createFrom pairs).2.pairs (s.createFrom pairs).1 ↔ pair ∈ pairs := by
  obtain ⟨answer, effect⟩ := createFrom_effect h pairs
  obtain ⟨key, value⟩ := pair
  have none : s.contents ⟨s.tables.size⟩ key = .empty :=
    contents_of_slot?_eq_none (slot?_of_size_le (Nat.le_refl _) key)
  simp [mem_pairs effect.wellFormed, effect.contents, answer, none, ValueSet.mem_insertAll]

theorem mem_pairs_createFrom_ne (h : s.WellFormed) (pairs : List (K × V)) {m : TableId}
    (hm : m.index < s.tables.size) (pair : K × V) :
    pair ∈ (s.createFrom pairs).2.pairs m ↔ pair ∈ s.pairs m := by
  obtain ⟨-, effect⟩ := createFrom_effect h pairs
  obtain ⟨key, value⟩ := pair
  have other : m ≠ ⟨s.tables.size⟩ := fun e => Nat.lt_irrefl _ (e ▸ hm)
  simp [mem_pairs effect.wellFormed, mem_pairs h, effect.contents, other]

end Store

-- ---------------------------------------------------------------------------
-- The main result
-- ---------------------------------------------------------------------------

open Session (after)

/-- However the pairs are spread over the entries, reading them gives the multimap that has just
these pairs. -/
theorem decoding_takes_the_union (commands : List (Command K V)) (entries : List (K × List V)) :
    let s := (after commands).store
    let decoded := Snapshot.ofEntries entries
    let restored := s.restore decoded
    let collected := restored.2.createFrom (associations entries)
    -- a snapshot has the listed pairs, each once, and no key twice or without values
    (∀ key value, (key, value) ∈ decoded.pairs ↔ Snapshot.Listed entries key value) ∧
    decoded.pairs.Nodup ∧ decoded.WellFormed ∧
    -- so has a multimap
    (∀ key value, (key, value) ∈ restored.2.pairs restored.1 ↔ Snapshot.Listed entries key value) ∧
    (restored.2.pairs restored.1).Nodup ∧
    (∀ slot ∈ (restored.2.table restored.1).slots,
      (restored.2.values slot.2).isEmpty = false) ∧
    -- it is equal to the one that the pairs are collected into
    collected.2.sameContents restored.1 collected.1 = true ∧
    decoded.same (collected.2.snapshot collected.1) = true ∧
    -- and stays the same through every rearrangement of the entries, and through nothing else
    ∀ others : List (K × List V),
      let again := restored.2.restore (.ofEntries others)
      (decoded.same (.ofEntries others) = true ↔ Rearranged entries others) ∧
      (again.2.sameContents restored.1 again.1 = true ↔ Rearranged entries others) := by
  intro s decoded restored collected
  have hs : s.WellFormed := (tracked_after commands).wellFormed
  have read : decoded.WellFormed := Snapshot.wellFormed_ofEntries entries
  obtain ⟨answer, effect⟩ := Store.restore_effect hs read
  have there : restored.1.index < restored.2.tables.size := by
    rw [answer, effect.tables]
    exact Nat.lt_succ_self _
  have listed : ∀ key value,
      (key, value) ∈ restored.2.pairs restored.1 ↔ Snapshot.Listed entries key value := by
    intro key value
    rw [Store.mem_pairs_restore hs read, Snapshot.mem_contents_ofEntries]
  obtain ⟨-, made⟩ := Store.createFrom_effect effect.wellFormed (associations entries)
  have collectedPairs : ∀ key value,
      (key, value) ∈ collected.2.pairs collected.1 ↔ Snapshot.Listed entries key value := by
    intro key value
    rw [Store.mem_pairs_createFrom effect.wellFormed, mem_associations]
  refine ⟨fun _ _ => Snapshot.mem_pairs_ofEntries, nodup_groupPairs read.distinct, read, listed,
    Store.nodup_pairs effect.wellFormed _, ?_, ?_, ?_, fun others => ?_⟩
  · rw [Store.table_restore, if_pos answer]
    exact Store.nonempty_restore s read
  · rw [Store.sameContents_eq_true_iff made.wellFormed]
    rintro ⟨key, value⟩
    rw [Store.mem_pairs_createFrom_ne effect.wellFormed _ there, listed, collectedPairs]
  · rw [Snapshot.same_eq_true_iff read (Store.wellFormed_snapshot made.wellFormed _)]
    intro key value
    rw [Store.mem_contents_snapshot made.wellFormed, collectedPairs,
      Snapshot.mem_contents_ofEntries]
  · have other := Snapshot.wellFormed_ofEntries others
    obtain ⟨answer', again⟩ := Store.restore_effect effect.wellFormed other
    have apart : restored.1 ≠ (restored.2.restore (.ofEntries others)).1 := by
      rw [answer']
      intro same
      exact Nat.lt_irrefl _ (same ▸ there)
    refine ⟨Snapshot.same_ofEntries_iff, ?_⟩
    rw [Store.sameContents_eq_true_iff again.wellFormed, ← Snapshot.same_ofEntries_iff,
      Snapshot.same_eq_true_iff read other, Prod.forall]
    refine forall₂_congr fun key value => ?_
    rw [Store.mem_pairs_restore_ne effect.wellFormed other apart, Store.mem_pairs_restore hs read,
      Store.mem_pairs_restore effect.wellFormed other]

/-- A key that comes twice, with a value in common, and one without values. -/
theorem repeated_keys_are_merged :
    let entries : List (String × List Nat) := [("a", [1, 2]), ("b", []), ("a", [2, 3])]
    let others : List (String × List Nat) := [("a", [3, 2, 1])]
    Rearranged entries others ∧ (Snapshot.ofEntries entries).same (.ofEntries others) = true := by
  intro entries others
  have merged : Rearranged [("a", [1, 2]), ("a", [2, 3])] [("a", [1, 2, 2, 3])] :=
    (Rearranged.split "a" [1, 2] [2, 3] []).symm
  have spread : Rearranged entries [("a", [1, 2]), ("a", [2, 3])] :=
    .trans (.permuted (.swap ..)) (.dropped "b" _)
  have rearranged : Rearranged entries others :=
    spread.trans (merged.trans (.repeated "a" (by simp; omega) []))
  have main := decoding_takes_the_union ([] : List (Command String Nat)) entries
  obtain ⟨-, -, -, -, -, -, -, -, unchanged⟩ := main
  exact ⟨rearranged, (unchanged others).1.mpr rearranged⟩

end LiveCollections.Multimap
