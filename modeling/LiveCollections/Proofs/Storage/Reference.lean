import LiveCollections.Storage.Keyed
import LiveCollections.Storage.Pairs
import Mathlib.Data.Finmap
import Mathlib.Data.List.Perm.Basic

/-!
# Storages as finite maps

A strategy takes some keys for one another, and so sorts the keys into classes. A
storage stands for the finite map from the classes of its keys to its entries. An entry
keeps the key that it was made with: overwriting it with an equivalent key changes its
value and nothing else.

The map does not say in which order the entries are stored. That the strategy finds the
keys of the storage, and names a position for every other key, is all that an operation
needs in order to do what the map does.
-/

namespace LiveCollections

variable {κ σ K V : Type}

abbrev Reference (κ K V : Type) := Finmap fun _ : κ => K × V

namespace Reference

variable [DecidableEq κ] (classOf : K → κ) (m : Reference κ K V)

/-- Overwrites the value of an equivalent key, which stays as it is, or adds an entry. -/
def upsert (key : K) (value : V) : Option V × Reference κ K V :=
  match m.lookup (classOf key) with
  | some (stored, previous) => (some previous, m.insert (classOf key) (stored, value))
  | none => (none, m.insert (classOf key) (key, value))

def removeKey (key : K) : Option (K × V) × Reference κ K V :=
  (m.lookup (classOf key), m.erase (classOf key))

def replaceValue (key : K) (value : V) : Option V × Reference κ K V :=
  match m.lookup (classOf key) with
  | some (stored, previous) => (some previous, m.insert (classOf key) (stored, value))
  | none => (none, m)

def upsertAll : Reference κ K V → List (K × V) → Reference κ K V
  | m, [] => m
  | m, (key, value) :: rest => upsertAll (upsert classOf m key value).2 rest

end Reference

theorem Reference.erase_of_lookup_eq_none [DecidableEq κ] {m : Reference κ K V} {x : κ}
    (h : m.lookup x = none) : m.erase x = m := by
  refine Finmap.ext_lookup fun y => ?_
  by_cases hy : y = x
  · rw [hy, Finmap.lookup_erase, h]
  · rw [Finmap.lookup_erase_ne hy]

-- ---------------------------------------------------------------------------
-- Listings
-- ---------------------------------------------------------------------------

structure Lists [DecidableEq κ] (classOf : K → κ) (pairs : List (K × V))
    (m : Reference κ K V) : Prop where
  distinct : (pairs.map fun pair => classOf pair.1).Nodup
  lookup : ∀ x pair, m.lookup x = some pair ↔ pair ∈ pairs ∧ classOf pair.1 = x

namespace Lists

variable [DecidableEq κ] {classOf : K → κ} {pairs pairs' : List (K × V)} {m : Reference κ K V}
  {key : K} {value : V}

theorem nil : Lists classOf ([] : List (K × V)) ∅ := ⟨.nil, by simp⟩

theorem perm (h : Lists classOf pairs m) (hp : pairs.Perm pairs') : Lists classOf pairs' m where
  distinct := (hp.map _).nodup h.distinct
  lookup x pair := by rw [h.lookup, hp.mem_iff]

theorem lookup_of_mem (h : Lists classOf pairs m) {pair : K × V} (hp : pair ∈ pairs) :
    m.lookup (classOf pair.1) = some pair := (h.lookup _ _).mpr ⟨hp, rfl⟩

theorem lookup_eq_none_iff (h : Lists classOf pairs m) {x : κ} :
    m.lookup x = none ↔ ∀ pair ∈ pairs, classOf pair.1 ≠ x := by
  rw [Option.eq_none_iff_forall_ne_some]
  constructor
  · intro hn pair hp e
    exact hn pair ((h.lookup x pair).mpr ⟨hp, e⟩)
  · intro hn pair hs
    obtain ⟨hp, e⟩ := (h.lookup x pair).mp hs
    exact hn pair hp e

theorem cons (h : Lists classOf pairs m) (hk : m.lookup (classOf key) = none) :
    Lists classOf ((key, value) :: pairs) (m.insert (classOf key) (key, value)) where
  distinct := by
    refine List.nodup_cons.mpr ⟨fun hm => ?_, h.distinct⟩
    obtain ⟨pair, hp, e⟩ := List.mem_map.mp hm
    exact h.lookup_eq_none_iff.mp hk pair hp e
  lookup x pair := by
    by_cases hx : x = classOf key
    · subst hx
      have other : pair ∈ pairs → classOf pair.1 ≠ classOf key := h.lookup_eq_none_iff.mp hk pair
      rw [Finmap.lookup_insert, List.mem_cons, Option.some.injEq]
      constructor
      · rintro rfl
        exact ⟨.inl rfl, rfl⟩
      · rintro ⟨rfl | hp, e⟩
        · rfl
        · exact absurd e (other hp)
    · rw [Finmap.lookup_insert_of_ne _ hx, h.lookup, List.mem_cons]
      constructor
      · rintro ⟨hp, e⟩
        exact ⟨.inr hp, e⟩
      · rintro ⟨rfl | hp, e⟩
        · exact absurd e.symm hx
        · exact ⟨hp, e⟩

theorem uncons (h : Lists classOf ((key, value) :: pairs) m) :
    Lists classOf pairs (m.erase (classOf key)) where
  distinct := (List.nodup_cons.mp h.distinct).2
  lookup x pair := by
    have absent := (List.nodup_cons.mp h.distinct).1
    by_cases hx : x = classOf key
    · subst hx
      rw [Finmap.lookup_erase]
      refine ⟨nofun, ?_⟩
      rintro ⟨hp, e⟩
      exact absurd (List.mem_map.mpr ⟨pair, hp, e⟩) absent
    · rw [Finmap.lookup_erase_ne hx, h.lookup, List.mem_cons]
      constructor
      · rintro ⟨rfl | hp, e⟩
        · exact absurd e.symm hx
        · exact ⟨hp, e⟩
      · rintro ⟨hp, e⟩
        exact ⟨.inr hp, e⟩

theorem overwrite (h : Lists classOf ((key, value) :: pairs) m) (new : V) :
    Lists classOf ((key, new) :: pairs) (m.insert (classOf key) (key, new)) := by
  have added : Lists classOf ((key, new) :: pairs)
      ((m.erase (classOf key)).insert (classOf key) (key, new)) :=
    h.uncons.cons (Finmap.lookup_erase _ _)
  refine ⟨added.distinct, fun x pair => ?_⟩
  rw [← added.lookup]
  by_cases hx : x = classOf key
  · rw [hx, Finmap.lookup_insert, Finmap.lookup_insert]
  · rw [Finmap.lookup_insert_of_ne _ hx, Finmap.lookup_insert_of_ne _ hx, Finmap.lookup_erase_ne hx]

theorem toFinset_classes (h : Lists classOf pairs m) :
    (pairs.map fun pair => classOf pair.1).toFinset = m.keys := by
  ext x
  rw [List.mem_toFinset, List.mem_map, Finmap.mem_keys, Finmap.mem_iff]
  constructor
  · rintro ⟨pair, hp, rfl⟩
    exact ⟨pair, h.lookup_of_mem hp⟩
  · rintro ⟨pair, hs⟩
    obtain ⟨hp, e⟩ := (h.lookup x pair).mp hs
    exact ⟨pair, hp, e⟩

theorem length_eq (h : Lists classOf pairs m) : pairs.length = m.keys.card := by
  rw [← h.toFinset_classes, List.toFinset_card_of_nodup h.distinct, List.length_map]

end Lists

-- ---------------------------------------------------------------------------
-- Positional edits
-- ---------------------------------------------------------------------------

namespace Storage

theorem Paired.keys_eq {s : Storage σ K V} (h : s.Paired) : s.keys = s.pairs.map Prod.fst :=
  (List.map_fst_zip (Nat.le_of_eq h)).symm

theorem Paired.values_eq {s : Storage σ K V} (h : s.Paired) : s.values = s.pairs.map Prod.snd :=
  (List.map_snd_zip (Nat.le_of_eq h.symm)).symm

variable [DecidableEq κ] {classOf : K → κ} {s : Storage σ K V} {m : Reference κ K V}

structure Represents (classOf : K → κ) (s : Storage σ K V) (m : Reference κ K V) : Prop where
  paired : s.Paired
  lists : Lists classOf s.pairs m

theorem represents_withCapacity (capacity : Nat) (strategy : σ) :
    (withCapacity capacity strategy : Storage σ K V).Represents classOf ∅ :=
  ⟨paired_withCapacity capacity strategy, .nil⟩

namespace Represents

theorem clear (s : Storage σ K V) : s.clear.Represents classOf ∅ := ⟨paired_clear s, .nil⟩

theorem copy (h : s.Represents classOf m) : s.copy.Represents classOf m := ⟨h.paired, h.lists⟩

theorem size_eq (h : s.Represents classOf m) : s.size = m.keys.card := by
  rw [← h.paired.length_pairs, h.lists.length_eq]

theorem insertAt (h : s.Represents classOf m) {i : Nat} (hi : i ≤ s.size) {key : K}
    (hk : m.lookup (classOf key) = none) (value : V) :
    (s.insertAt i key value).after.Represents classOf (m.insert (classOf key) (key, value)) where
  paired := h.paired.insertAt i key value
  lists := by
    rw [pairs_insertAt h.paired hi]
    have fits : i ≤ s.pairs.length := by rwa [h.paired.length_pairs]
    exact (h.lists.cons hk).perm (List.perm_insertIdx _ _ fits).symm

theorem removeAt (h : s.Represents classOf m) {i : Nat} {entry : K × V}
    (hi : s.pairs[i]? = some entry) :
    (s.removeAt i).2.Represents classOf (m.erase (classOf entry.1)) where
  paired := h.paired.removeAt i
  lists := by
    obtain ⟨lt, rfl⟩ := List.getElem?_eq_some_iff.mp hi
    rw [pairs_removeAt]
    exact (h.lists.perm (List.getElem_cons_eraseIdx_perm lt).symm).uncons

theorem replaceValueAt (h : s.Represents classOf m) {i : Nat} {key : K} {previous : V}
    (hi : s.pairs[i]? = some (key, previous)) (value : V) :
    (s.replaceValueAt i value).2.Represents classOf (m.insert (classOf key) (key, value)) where
  paired := h.paired.replaceValueAt i value
  lists := by
    obtain ⟨lt, he⟩ := List.getElem?_eq_some_iff.mp hi
    have apart := h.lists.perm (List.getElem_cons_eraseIdx_perm lt).symm
    rw [he] at apart
    rw [pairs_replaceValueAt, List.modify_eq_set_getElem?, hi]
    exact (apart.overwrite value).perm (List.set_perm_cons_eraseIdx lt _).symm

end Represents

theorem insertAt_answer {i : Nat} (hi : i ≤ s.size) (key : K) (value : V) :
    (s.insertAt i key value).answer = .ok () ∧ (s.insertAt i key value).events = [] := by
  simp [insertAt, hi]

theorem removeAt_answer_eq (s : Storage σ K V) (i : Nat) : (s.removeAt i).1 = s.pairs[i]? := by
  rw [← entryAt?_eq_getElem?]
  unfold removeAt
  cases s.entryAt? i <;> rfl

theorem removeAt_answer {i : Nat} {entry : K × V} (hi : s.pairs[i]? = some entry) :
    (s.removeAt i).1 = some entry := (s.removeAt_answer_eq i).trans hi

theorem valueAt?_of_pairs {i : Nat} {key : K} {value : V} (hi : s.pairs[i]? = some (key, value)) :
    s.valueAt? i = some value := by
  rw [← entryAt?_eq_getElem?] at hi
  unfold entryAt? at hi
  split at hi
  · rename_i hv
    cases hi
    exact hv
  · cases hi

theorem replaceValueAt_answer {i : Nat} {key : K} {previous : V}
    (hi : s.pairs[i]? = some (key, previous)) (value : V) :
    (s.replaceValueAt i value).1 = some previous := by
  rw [replaceValueAt, valueAt?_of_pairs hi]

-- ---------------------------------------------------------------------------
-- Access by key
-- ---------------------------------------------------------------------------

variable [IndexStrategy σ K] {key : K}

/-- The strategy finds a key by its class, and names a position inside for an absent one. -/
structure Locates (classOf : K → κ) (s : Storage σ K V) : Prop where
  found : ∀ {key i}, s.indexOf? key = some i →
    ∃ stored, s.keys[i]? = some stored ∧ classOf stored = classOf key
  absent : ∀ {key}, s.indexOf? key = none →
    (∀ stored ∈ s.keys, classOf stored ≠ classOf key) ∧
      ∃ i, s.insertionIndex key = .ok i ∧ i ≤ s.size

/-- What the readers answer that do not depend on where the entries stand. -/
structure AnswersAs [BEq V] (classOf : K → κ) (s : Storage σ K V) (m : Reference κ K V) : Prop where
  size : s.size = m.keys.card
  isEmpty : s.isEmpty = true ↔ m.keys = ∅
  contains : ∀ key, s.contains key = (m.lookup (classOf key)).isSome
  get? : ∀ key, s.get? key = (m.lookup (classOf key)).map Prod.snd
  containsEntry : ∀ key value, s.containsEntry key value =
    (m.lookup (classOf key)).any fun entry => entry.2 == value
  containsValue : ∀ value, s.containsValue value = true ↔
    ∃ x entry, m.lookup x = some entry ∧ (entry.2 == value) = true

namespace Represents

/-- What is at the position of a key is the entry that the map has for it. -/
theorem found (h : s.Represents classOf m) (hl : s.Locates classOf) {i : Nat}
    (hi : s.indexOf? key = some i) : ∃ stored value, s.pairs[i]? = some (stored, value) ∧
      classOf stored = classOf key ∧ m.lookup (classOf key) = some (stored, value) := by
  obtain ⟨stored, hs, same⟩ := hl.found hi
  rw [h.paired.keys_eq, List.getElem?_map, Option.map_eq_some_iff] at hs
  obtain ⟨⟨_, value⟩, hp, rfl⟩ := hs
  exact ⟨_, value, hp, same, same ▸ h.lists.lookup_of_mem (List.mem_of_getElem? hp)⟩

theorem absent (h : s.Represents classOf m) (hl : s.Locates classOf)
    (hi : s.indexOf? key = none) : m.lookup (classOf key) = none := by
  refine h.lists.lookup_eq_none_iff.mpr fun pair hp => (hl.absent hi).1 pair.1 ?_
  rw [h.paired.keys_eq]
  exact List.mem_map.mpr ⟨pair, hp, rfl⟩

theorem contains_eq (h : s.Represents classOf m) (hl : s.Locates classOf) (key : K) :
    s.contains key = (m.lookup (classOf key)).isSome := by
  unfold Storage.contains
  cases hi : s.indexOf? key with
  | none => rw [h.absent hl hi]; rfl
  | some i =>
    obtain ⟨_, _, -, -, hm⟩ := h.found hl hi
    rw [hm]
    rfl

theorem get?_eq (h : s.Represents classOf m) (hl : s.Locates classOf) (key : K) :
    s.get? key = (m.lookup (classOf key)).map Prod.snd := by
  unfold get?
  cases hi : s.indexOf? key with
  | none => rw [h.absent hl hi]; rfl
  | some i =>
    obtain ⟨_, _, hp, -, hm⟩ := h.found hl hi
    rw [hm]
    exact valueAt?_of_pairs hp

theorem contains_iff (h : s.Represents classOf m) (hl : s.Locates classOf) (key : K) :
    s.contains key = true ↔ ∃ entry ∈ s.pairs, classOf entry.1 = classOf key := by
  rw [h.contains_eq hl, Option.isSome_iff_exists]
  exact exists_congr fun entry => h.lists.lookup _ entry

theorem get?_eq_some_iff (h : s.Represents classOf m) (hl : s.Locates classOf) (key : K)
    (value : V) :
    s.get? key = some value ↔ ∃ stored, (stored, value) ∈ s.pairs ∧ classOf stored = classOf key := by
  rw [h.get?_eq hl, Option.map_eq_some_iff]
  constructor
  · rintro ⟨⟨stored, _⟩, found, rfl⟩
    exact ⟨stored, (h.lists.lookup _ _).mp found⟩
  · rintro ⟨stored, hs⟩
    exact ⟨_, (h.lists.lookup _ _).mpr hs, rfl⟩

theorem containsEntry_eq [BEq V] (h : s.Represents classOf m) (hl : s.Locates classOf) (key : K)
    (value : V) : s.containsEntry key value =
      (m.lookup (classOf key)).any fun entry => entry.2 == value := by
  rw [containsEntry, h.get?_eq hl]
  cases m.lookup (classOf key) <;> rfl

omit [IndexStrategy σ K] in
theorem containsValue_iff [BEq V] (h : s.Represents classOf m) (value : V) :
    s.containsValue value = true ↔ ∃ x entry, m.lookup x = some entry ∧ (entry.2 == value) = true := by
  rw [containsValue, indexOfValue?, List.findIdx?_isSome, h.paired.values_eq, List.any_map,
    List.any_eq_true]
  constructor
  · rintro ⟨entry, hp, e⟩
    exact ⟨_, entry, h.lists.lookup_of_mem hp, e⟩
  · rintro ⟨x, entry, hm, e⟩
    exact ⟨entry, ((h.lists.lookup x entry).mp hm).1, e⟩

theorem answersAs [BEq V] (h : s.Represents classOf m) (hl : s.Locates classOf) :
    s.AnswersAs classOf m where
  size := h.size_eq
  isEmpty := by
    rw [← Finset.card_eq_zero, ← h.size_eq]
    exact List.isEmpty_iff_length_eq_zero
  contains := h.contains_eq hl
  get? := h.get?_eq hl
  containsEntry := h.containsEntry_eq hl
  containsValue := h.containsValue_iff

theorem upsert (h : s.Represents classOf m) (hl : s.Locates classOf) (key : K) (value : V) :
    (s.upsert key value).answer = .ok (m.upsert classOf key value).1 ∧
      (s.upsert key value).events = [] ∧
      (s.upsert key value).after.Represents classOf (m.upsert classOf key value).2 := by
  unfold Storage.upsert Reference.upsert
  cases hi : s.indexOf? key with
  | none =>
    obtain ⟨-, i, hs, le⟩ := hl.absent hi
    have hm := h.absent hl hi
    obtain ⟨answer, events⟩ := insertAt_answer le key value
    rw [hm, hs]
    exact ⟨congrArg (Except.map fun _ => none) answer, events, h.insertAt le hm value⟩
  | some i =>
    obtain ⟨stored, previous, hp, same, hm⟩ := h.found hl hi
    rw [hm]
    exact ⟨congrArg Except.ok (replaceValueAt_answer hp value), rfl,
      same ▸ h.replaceValueAt hp value⟩

theorem removeKey (h : s.Represents classOf m) (hl : s.Locates classOf) (key : K) :
    (s.removeKey key).1 = (m.removeKey classOf key).1 ∧
      (s.removeKey key).2.Represents classOf (m.removeKey classOf key).2 := by
  unfold Storage.removeKey Reference.removeKey
  cases hi : s.indexOf? key with
  | none =>
    have hm := h.absent hl hi
    rw [Reference.erase_of_lookup_eq_none hm]
    exact ⟨hm.symm, h⟩
  | some i =>
    obtain ⟨stored, previous, hp, same, hm⟩ := h.found hl hi
    rw [hm]
    exact ⟨removeAt_answer hp, same ▸ h.removeAt hp⟩

theorem replaceValue (h : s.Represents classOf m) (hl : s.Locates classOf) (key : K) (value : V) :
    (s.replaceValue key value).1 = (m.replaceValue classOf key value).1 ∧
      (s.replaceValue key value).2.Represents classOf (m.replaceValue classOf key value).2 := by
  unfold Storage.replaceValue Reference.replaceValue
  cases hi : s.indexOf? key with
  | none =>
    rw [h.absent hl hi]
    exact ⟨rfl, h⟩
  | some i =>
    obtain ⟨stored, previous, hp, same, hm⟩ := h.found hl hi
    rw [hm]
    exact ⟨replaceValueAt_answer hp value, same ▸ h.replaceValueAt hp value⟩

theorem upsertAll {I : Storage σ K V → Prop} (locates : ∀ {s}, I s → s.Locates classOf)
    (kept : ∀ {s} key value, I s → I (s.upsert key value).after) (h : s.Represents classOf m)
    (hs : I s) (entries : List (K × V)) :
    (s.upsertAll entries).answer = .ok () ∧ (s.upsertAll entries).events = [] ∧
      I (s.upsertAll entries).after ∧
      (s.upsertAll entries).after.Represents classOf (m.upsertAll classOf entries) := by
  induction entries generalizing s m with
  | nil => exact ⟨rfl, rfl, hs, h⟩
  | cons entry rest ih =>
    obtain ⟨key, value⟩ := entry
    obtain ⟨answer, events, after⟩ := h.upsert (locates hs) key value
    obtain ⟨answers, others, invariant, last⟩ := ih after (kept key value hs)
    simp only [Storage.upsertAll, answer]
    exact ⟨answers, by rw [events, others]; rfl, invariant, last⟩

end Represents

end Storage

end LiveCollections
