import LiveCollections.Proofs.Multimap.Reading
import LiveCollections.Proofs.Multimap.Session
import Mathlib.Data.Finset.Image

/-!
# The relation that a multimap stands for

A multimap stands for a finite relation between keys and values. What each change
answers and what it makes of the relation is written down here without tables, sets
or slots, and each reader is read as a question about the relation.
-/

namespace LiveCollections.Multimap

variable {K V : Type} [DecidableEq K] [DecidableEq V]

namespace PairSet

def valuesOf (r : Finset (K × V)) (key : K) : Finset V :=
  (r.filter fun pair => pair.1 = key).image Prod.snd

def without (r : Finset (K × V)) (key : K) : Finset (K × V) := r.filter fun pair => pair.1 ≠ key

def under (key : K) (values : Finset V) : Finset (K × V) := values.image fun value => (key, value)

def grow (r added : Finset (K × V)) : Answer V × Finset (K × V) :=
  (.flag (decide (r ∪ added ≠ r)), r ∪ added)

variable {r : Finset (K × V)} {key other : K} {value : V}

@[simp] theorem mem_valuesOf : value ∈ valuesOf r key ↔ (key, value) ∈ r := by
  simp [valuesOf]

omit [DecidableEq V] in
@[simp] theorem mem_without : (other, value) ∈ without r key ↔ other ≠ key ∧ (other, value) ∈ r := by
  simp [without, and_comm]

@[simp] theorem mem_under {values : Finset V} :
    (other, value) ∈ under key values ↔ other = key ∧ value ∈ values := by
  simp [under, eq_comm, and_comm]

end PairSet

open PairSet

def Change.onRelation : Change K V → Finset (K × V) → Answer V × Finset (K × V)
  | .put key value, r => grow r {(key, value)}
  | .putAll key values, r => grow r (under key values.toFinset)
  | .remove key value, r => (.flag (decide ((key, value) ∈ r)), r.erase (key, value))
  | .removeAll key, r => (.values (valuesOf r key), without r key)
  | .replaceValue key old new, r =>
    if (key, old) ∈ r then (.flag true, insert (key, new) (r.erase (key, old))) else (.flag false, r)
  | .replaceValues key values, r =>
    (.values (valuesOf r key), without r key ∪ under key values.toFinset)
  | .extend pairs, r => (.done, r ∪ pairs.toFinset)
  | .clear, _ => (.done, ∅)

-- ---------------------------------------------------------------------------
-- Changes
-- ---------------------------------------------------------------------------

def Store.Represents (s : Store K V) (m : TableId) (r : Finset (K × V)) : Prop :=
  ∀ key value, (key, value) ∈ r ↔ value ∈ s.contents m key

omit [DecidableEq K] in
theorem mem_exchange {old new value : V} {values : ValueSet V} :
    value ∈ (exchange old new values).2 ↔
      if old ∈ values then value = new ∨ value ≠ old ∧ value ∈ values else value ∈ values := by
  unfold exchange
  by_cases h : old ∈ values <;> simp [h]

theorem Change.mem_onRelation {r : Finset (K × V)} {contents : K → ValueSet V}
    (h : ∀ key value, (key, value) ∈ r ↔ value ∈ contents key) (m : TableId) (c : Change K V)
    (key : K) (value : V) :
    (key, value) ∈ (c.onRelation r).2 ↔ value ∈ c.edit m m key (contents key) := by
  cases c with
  | put k v => by_cases hk : key = k <;> simp [onRelation, grow, edit, Edit.under, h, hk]
  | putAll k vs =>
    by_cases hk : key = k <;>
      simp [onRelation, grow, edit, Edit.under, ValueSet.mem_insertAll, h, hk, or_comm]
  | remove k v => by_cases hk : key = k <;> simp [onRelation, edit, Edit.under, h, hk]
  | removeAll k => by_cases hk : key = k <;> simp [onRelation, edit, Edit.under, h, hk]
  | replaceValue k old new =>
    by_cases hk : key = k
    · subst hk
      by_cases ho : old ∈ contents key <;> simp [onRelation, edit, Edit.under, mem_exchange, h, ho]
    · by_cases ho : old ∈ contents k <;> simp [onRelation, edit, Edit.under, h, hk, ho]
  | replaceValues k vs => by_cases hk : key = k <;> simp [onRelation, edit, Edit.under, h, hk]
  | extend pairs => simp [onRelation, edit, h, ValueSet.mem_insertAll, or_comm]
  | clear => simp [onRelation, edit]

namespace Store

variable {s : Store K V} {m : TableId} {r : Finset (K × V)}

theorem Represents.valuesOf_eq (hr : s.Represents m r) (key : K) :
    valuesOf r key = (s.contents m key).toFinset := by
  ext value
  simp [hr key value]

theorem Represents.contains_eq (hr : s.Represents m r) (key : K) (value : V) :
    (s.contents m key).contains value = decide ((key, value) ∈ r) := by
  rw [Bool.eq_iff_iff]
  simp [hr key value]

theorem Represents.grow_eq (hr : s.Represents m r) (key : K) (values : List V) :
    (grow r (PairSet.under key values.toFinset)).1 =
      .flag (values.any fun value => !(s.contents m key).contains value) := by
  have grown : r ∪ PairSet.under key values.toFinset = r ↔ ∀ value ∈ values, (key, value) ∈ r := by
    rw [Finset.union_eq_left]
    constructor
    · intro h value hv
      exact h (by simp [hv])
    · rintro h ⟨other, value⟩ hp
      obtain ⟨rfl, hv⟩ := mem_under.mp hp
      exact h value (List.mem_toFinset.mp hv)
  simp only [grow, Answer.flag.injEq, hr.contains_eq]
  rw [Bool.eq_iff_iff]
  simp [grown]

theorem apply_answer (h : s.WellFormed) (hm : m.index < s.tables.size) (hr : s.Represents m r)
    (c : Change K V) : (s.apply m c).1 = (c.onRelation r).1 := by
  cases c with
  | put key value =>
    have same : ({(key, value)} : Finset (K × V)) = PairSet.under key [value].toFinset := by
      simp [PairSet.under]
    rw [Change.onRelation, same, hr.grow_eq]
    exact congrArg Answer.flag ((put_effect h hm key value).1.trans (by simp))
  | putAll key values =>
    exact (congrArg Answer.flag (putAll_effect h hm key values).1).trans (hr.grow_eq key values).symm
  | remove key value =>
    rw [Change.onRelation, ← hr.contains_eq]
    exact congrArg Answer.flag (remove_effect h m key value).1
  | removeAll key =>
    rw [Change.onRelation, hr.valuesOf_eq]
    exact congrArg (fun values => Answer.values values.toFinset) (removeAll_effect h m key).1
  | replaceValue key old new =>
    have flag : ((Change.replaceValue key old new).onRelation r).1 =
        .flag (decide ((key, old) ∈ r)) := by
      by_cases ho : (key, old) ∈ r <;> simp [Change.onRelation, ho]
    rw [flag, ← hr.contains_eq]
    exact congrArg Answer.flag (replaceValue_effect h m key old new).1
  | replaceValues key values =>
    rw [Change.onRelation, hr.valuesOf_eq]
    exact congrArg (fun values => Answer.values values.toFinset)
      (replaceValues_effect h hm key values).1
  | extend pairs => rfl
  | clear => rfl

-- ---------------------------------------------------------------------------
-- Readers
-- ---------------------------------------------------------------------------

namespace Represents

omit [DecidableEq V] in
theorem mem_pairs (hr : s.Represents m r) (h : s.WellFormed) (pair : K × V) :
    pair ∈ s.pairs m ↔ pair ∈ r := by
  rw [Store.mem_pairs h, hr]

theorem toFinset_pairs (hr : s.Represents m r) (h : s.WellFormed) : (s.pairs m).toFinset = r := by
  ext pair
  rw [List.mem_toFinset, hr.mem_pairs h]

theorem size_eq (hr : s.Represents m r) (h : s.WellFormed) : s.size m = r.card := by
  rw [size_eq_length_pairs, ← hr.toFinset_pairs h, List.toFinset_card_of_nodup (nodup_pairs h m)]

theorem isEmpty_iff (hr : s.Represents m r) (h : s.WellFormed) :
    s.isEmpty m = true ↔ r = ∅ := by
  rw [isEmpty_iff_pairs, ← hr.toFinset_pairs h, List.toFinset_eq_empty_iff]

omit [DecidableEq V] in
theorem toFinset_keys (hr : s.Represents m r) (h : s.WellFormed) :
    (s.keys m).toFinset = r.image Prod.fst := by
  ext key
  simp [mem_keys h, hr key]

omit [DecidableEq V] in
theorem keyCount_eq (hr : s.Represents m r) (h : s.WellFormed) :
    s.keyCount m = (r.image Prod.fst).card := by
  rw [keyCount, ← hr.toFinset_keys h, List.toFinset_card_of_nodup (nodup_keys h m)]

omit [DecidableEq V] in
theorem containsKey_iff (hr : s.Represents m r) (key : K) :
    s.containsKey m key = true ↔ key ∈ r.image Prod.fst := by
  rw [Store.containsKey_iff]
  simp [hr key]

theorem containsValue_iff (hr : s.Represents m r) (h : s.WellFormed) (value : V) :
    s.containsValue m value = true ↔ value ∈ r.image Prod.snd := by
  rw [Store.containsValue_iff h]
  simp [hr _ value]

theorem containsEntry_iff (hr : s.Represents m r) (key : K) (value : V) :
    s.containsEntry m key value = true ↔ (key, value) ∈ r := by
  rw [containsEntry_eq, hr.contains_eq, decide_eq_true_iff]

omit [DecidableEq V] in
theorem mem_pairs_snapshot (hr : s.Represents m r) (h : s.WellFormed) (pair : K × V) :
    pair ∈ (s.snapshot m).pairs ↔ pair ∈ r := by
  rw [Store.mem_pairs_snapshot h, hr]

end Represents

/-- Every reader of a multimap answers what the relation says. -/
structure ReadsAs (s : Store K V) (m : TableId) (r : Finset (K × V)) : Prop where
  containsKey : ∀ key, s.containsKey m key = true ↔ key ∈ r.image Prod.fst
  containsValue : ∀ value, s.containsValue m value = true ↔ value ∈ r.image Prod.snd
  containsEntry : ∀ key value, s.containsEntry m key value = true ↔ (key, value) ∈ r
  size : s.size m = r.card
  isEmpty : s.isEmpty m = true ↔ r = ∅
  keyCount : s.keyCount m = (r.image Prod.fst).card
  keysOnce : (s.keys m).Nodup
  keys : ∀ key, key ∈ s.keys m ↔ key ∈ r.image Prod.fst
  pairsOnce : (s.pairs m).Nodup
  pairs : ∀ pair, pair ∈ s.pairs m ↔ pair ∈ r
  snapshotOnce : (s.snapshot m).WellFormed
  snapshot : ∀ pair, pair ∈ (s.snapshot m).pairs ↔ pair ∈ r

theorem Represents.readsAs (hr : s.Represents m r) (h : s.WellFormed) : s.ReadsAs m r where
  containsKey := hr.containsKey_iff
  containsValue := hr.containsValue_iff h
  containsEntry := hr.containsEntry_iff
  size := hr.size_eq h
  isEmpty := hr.isEmpty_iff h
  keyCount := hr.keyCount_eq h
  keysOnce := nodup_keys h m
  keys key := by rw [← hr.toFinset_keys h, List.mem_toFinset]
  pairsOnce := nodup_pairs h m
  pairs := hr.mem_pairs h
  snapshotOnce := wellFormed_snapshot h m
  snapshot := hr.mem_pairs_snapshot h

end Store

end LiveCollections.Multimap
