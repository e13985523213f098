import LiveCollections.Multimap.Encoding
import LiveCollections.Proofs.Multimap.Restoring
import Mathlib.Data.List.Perm.Basic

/-!
# Writing multimaps and reading them back

A serializer is handed one entry for each key that has a value, the key with the sequence of
its values. Tables and sets have no order of their own, so the keys may come in any order, and
so may the values of a key. What a reader makes of the entries is the snapshot that they were
written from, whatever the order.

The text is not looked into. A format turns entries into a text, unless there is a key that it
cannot hold, and a text into entries; it is asked to hand back the entries it was given.
-/

namespace LiveCollections.Multimap

variable {K V : Type}

-- ---------------------------------------------------------------------------
-- What is handed to a serializer
-- ---------------------------------------------------------------------------

structure Spells (entry : K × List V) (group : K × ValueSet V) : Prop where
  key : entry.1 = group.1
  values : entry.2.Perm group.2.elements

/-- The entries are made in a walk over the groups, which may come in any order. -/
def Snapshot.Emits (s : Snapshot K V) (entries : List (K × List V)) : Prop :=
  ∃ order : List (K × ValueSet V), order.Perm s.groups ∧ List.Forall₂ Spells entries order

/-- A walk over a table passes over the slots without values. -/
def Store.Emits (s : Store K V) (m : TableId) (entries : List (K × List V)) : Prop :=
  ∃ order : List (K × ValueSet V), order.Perm (s.slotGroups m) ∧
    List.Forall₂ Spells entries (order.filter fun group => !group.2.isEmpty)

theorem Store.emits_iff (s : Store K V) (m : TableId) (entries : List (K × List V)) :
    s.Emits m entries ↔ (s.snapshot m).Emits entries := by
  constructor
  · rintro ⟨order, perm, spelled⟩
    exact ⟨_, perm.filter _, spelled⟩
  · rintro ⟨order, perm, spelled⟩
    -- the slots without values may come last
    have whole := (perm.append_right _).trans
      (List.filter_append_perm (fun group => !group.2.isEmpty) (s.slotGroups m))
    refine ⟨_, whole, ?_⟩
    have present : ∀ group ∈ order, (!group.2.isEmpty) = true := fun group hg =>
      (List.mem_filter.mp (perm.mem_iff.mp hg)).2
    have kept : order.filter (fun group => !group.2.isEmpty) = order :=
      List.filter_eq_self.mpr present
    simpa [List.filter_append, kept] using spelled

namespace Snapshot

theorem emits_entries (s : Snapshot K V) : s.Emits s.entries := by
  refine ⟨s.groups, .refl _, ?_⟩
  unfold entries
  rw [List.forall₂_map_left_iff]
  exact List.forall₂_same.mpr fun group _ => ⟨rfl, .refl _⟩

theorem Emits.perm {s : Snapshot K V} {entries others : List (K × List V)} (h : s.Emits entries)
    (reordered : others.Perm entries) : s.Emits others := by
  obtain ⟨order, perm, spelled⟩ := h
  obtain ⟨moved, spelled, perm'⟩ := List.perm_comp_forall₂ reordered spelled
  exact ⟨moved, perm'.trans perm, spelled⟩

def Listed (entries : List (K × List V)) (key : K) (value : V) : Prop :=
  ∃ values, (key, values) ∈ entries ∧ value ∈ values

theorem mem_groupPairs_cons {group : K × ValueSet V} {groups : List (K × ValueSet V)} {key : K}
    {value : V} : (key, value) ∈ groupPairs (group :: groups) ↔
      key = group.1 ∧ value ∈ group.2 ∨ (key, value) ∈ groupPairs groups := by
  obtain ⟨k, values⟩ := group
  simp [mem_groupPairs, or_and_right, exists_or]

theorem listed_cons {entry : K × List V} {entries : List (K × List V)} {key : K} {value : V} :
    Listed (entry :: entries) key value ↔
      key = entry.1 ∧ value ∈ entry.2 ∨ Listed entries key value := by
  obtain ⟨k, vs⟩ := entry
  simp [Listed, or_and_right, exists_or]

section Emitted

variable {s : Snapshot K V} {entries : List (K × List V)}

theorem Emits.keys (h : s.Emits entries) :
    (entries.map Prod.fst).Perm (s.groups.map Prod.fst) := by
  obtain ⟨order, perm, spelled⟩ := h
  have keys : entries.map Prod.fst = order.map Prod.fst := by
    clear perm
    induction spelled with
    | nil => rfl
    | cons first _ ih => simp [first.key, ih]
  rw [keys]
  exact perm.map _

theorem Emits.listed_iff (h : s.Emits entries) {key : K} {value : V} :
    Listed entries key value ↔ (key, value) ∈ s.pairs := by
  obtain ⟨order, perm, spelled⟩ := h
  have pairs : (key, value) ∈ s.pairs ↔ (key, value) ∈ groupPairs order :=
    (perm.flatMap_right _).mem_iff.symm
  rw [pairs]
  clear perm pairs
  induction spelled with
  | nil => simp [Listed, groupPairs]
  | cons first _ ih =>
    simp only [listed_cons, ih, mem_groupPairs_cons, first.key, first.values.mem_iff]
    rfl

theorem Emits.mem_keys_iff [DecidableEq K] (h : s.WellFormed) (emitted : s.Emits entries)
    {key : K} : key ∈ entries.map Prod.fst ↔ ∃ value, value ∈ s.contents key := by
  rw [emitted.keys.mem_iff, mem_keys h]

end Emitted

-- ---------------------------------------------------------------------------
-- What a reader makes of entries
-- ---------------------------------------------------------------------------

variable [DecidableEq K] [DecidableEq V]

theorem mem_mergeInto {groups : List (K × ValueSet V)} {entry : K × List V} {key : K} {value : V} :
    (key, value) ∈ groupPairs (mergeInto groups entry) ↔
      key = entry.1 ∧ value ∈ entry.2 ∨ (key, value) ∈ groupPairs groups := by
  induction groups with
  | nil => simp [mergeInto, mem_groupPairs_cons]
  | cons group rest ih =>
    unfold mergeInto
    split
    · rename_i same
      simp [mem_groupPairs_cons, ValueSet.mem_insertAll, same, and_or_left, or_assoc]
    · simp [mem_groupPairs_cons, ih, or_left_comm]

theorem mem_pairs_ofEntries {entries : List (K × List V)} {key : K} {value : V} :
    (key, value) ∈ (ofEntries entries).pairs ↔ Listed entries key value := by
  have merged : ∀ groups : List (K × ValueSet V),
      (key, value) ∈ groupPairs (entries.foldl mergeInto groups) ↔
        Listed entries key value ∨ (key, value) ∈ groupPairs groups := by
    induction entries with
    | nil => simp [Listed]
    | cons entry entries ih =>
      intro groups
      rw [List.foldl_cons, ih, mem_mergeInto, listed_cons, or_left_comm, or_assoc]
  unfold ofEntries
  rw [mem_pairs_ofGroups, merged]
  simp [groupPairs]

theorem Emits.same_ofEntries {s : Snapshot K V} (h : s.WellFormed) {entries : List (K × List V)}
    (emitted : s.Emits entries) : (ofEntries entries).same s = true := by
  have read := wellFormed_ofEntries entries
  refine (same_eq_true_iff read h).mpr fun key value => ?_
  rw [mem_contents read, mem_contents h, mem_pairs_ofEntries, emitted.listed_iff]

end Snapshot

-- ---------------------------------------------------------------------------
-- Formats
-- ---------------------------------------------------------------------------

/-- A text format, of which nothing is known but which keys it can hold. -/
structure Format (K V Text : Type) where
  holds : K → Prop
  write : List (K × List V) → Option Text
  read : Text → Option (List (K × List V))

namespace Format

variable {Text : Type}

/-- Writing the entries fails at a key that the format cannot hold and at nothing else, and what
is read of the text is the entries. -/
structure Carries (f : Format K V Text) (entries : List (K × List V)) : Prop where
  fails : f.write entries = none ↔ ∃ entry ∈ entries, ¬ f.holds entry.1
  handsBack : ∀ text, f.write entries = some text → f.read text = some entries

variable [DecidableEq K] [DecidableEq V]

def snapshot? (f : Format K V Text) (text : Text) : Option (Snapshot K V) :=
  (f.read text).map .ofEntries

variable {f : Format K V Text} {s : Snapshot K V} {entries : List (K × List V)}

omit [DecidableEq V] in
theorem Carries.write_eq_none_iff (h : f.Carries entries) (hs : s.WellFormed)
    (emitted : s.Emits entries) :
    f.write entries = none ↔ ∃ key, (∃ value, value ∈ s.contents key) ∧ ¬ f.holds key := by
  rw [h.fails]
  constructor
  · rintro ⟨entry, he, refused⟩
    exact ⟨entry.1, (emitted.mem_keys_iff hs).mp (List.mem_map.mpr ⟨entry, he, rfl⟩), refused⟩
  · rintro ⟨key, present, refused⟩
    obtain ⟨entry, he, rfl⟩ := List.mem_map.mp ((emitted.mem_keys_iff hs).mpr present)
    exact ⟨entry, he, refused⟩

theorem Carries.snapshot?_eq (h : f.Carries entries) {text : Text}
    (written : f.write entries = some text) : f.snapshot? text = some (.ofEntries entries) := by
  rw [snapshot?, h.handsBack text written]
  rfl

end Format

-- ---------------------------------------------------------------------------
-- Objects
-- ---------------------------------------------------------------------------

section Objects

theorem mapM_eq_none_iff {α β : Type} {f : α → Option β} {as : List α} :
    as.mapM f = none ↔ ∃ a ∈ as, f a = none := by
  induction as with
  | nil => simp
  | cons a as ih =>
    cases ha : f a with
    | none => simp [List.mapM_cons, ha]
    | some b => cases has : as.mapM f <;> simp_all [List.mapM_cons]

theorem forall₂_of_mapM_eq_some {α β : Type} {f : α → Option β} {as : List α} {bs : List β}
    (h : as.mapM f = some bs) : List.Forall₂ (fun a b => f a = some b) as bs := by
  induction as generalizing bs with
  | nil =>
    cases h
    exact .nil
  | cons a as ih =>
    cases ha : f a with
    | none => simp [List.mapM_cons, ha] at h
    | some b =>
      cases has : as.mapM f with
      | none => simp [List.mapM_cons, ha, has] at h
      | some rest =>
        obtain rfl : b :: rest = bs := by simpa [List.mapM_cons, ha, has] using h
        exact .cons ha (ih has)

variable [Json.Element K]

structure Member (entry : K × List V) (member : String × List V) : Prop where
  text : Json.Element.keyText? entry.1 = some member.1
  values : entry.2 = member.2

namespace Snapshot

variable {s : Snapshot K V}

theorem encode_cases (s : Snapshot K V) :
    (s.encode = .error .keyWithoutText ∧
      ∃ entry ∈ s.entries, Json.Element.keyText? entry.1 = none) ∨
    ∃ members unsorted, s.encode = .ok members ∧ members.Perm unsorted ∧
      List.Forall₂ Member s.entries unsorted := by
  unfold encode
  dsimp only
  split
  · rename_i none
    obtain ⟨entry, he, absent⟩ := mapM_eq_none_iff.mp none
    exact .inl ⟨rfl, entry, he, Option.map_eq_none_iff.mp absent⟩
  · rename_i unsorted some
    refine .inr ⟨_, unsorted, rfl, List.mergeSort_perm _ _, ?_⟩
    refine (forall₂_of_mapM_eq_some some).imp fun entry member h => ?_
    obtain ⟨text, ht, rfl⟩ := Option.map_eq_some_iff.mp h
    exact ⟨ht, rfl⟩

theorem encode_eq_error_iff [DecidableEq K] (h : s.WellFormed) :
    s.encode = .error .keyWithoutText ↔
      ∃ key, (∃ value, value ∈ s.contents key) ∧ Json.Element.keyText? key = none := by
  have emitted := s.emits_entries
  constructor
  · intro failed
    rcases s.encode_cases with ⟨-, entry, he, absent⟩ | ⟨members, -, written, -⟩
    · exact ⟨entry.1, (emitted.mem_keys_iff h).mp (List.mem_map.mpr ⟨entry, he, rfl⟩), absent⟩
    · rw [failed] at written
      cases written
  · rintro ⟨key, present, absent⟩
    rcases s.encode_cases with ⟨failed, -⟩ | ⟨-, unsorted, -, -, texts⟩
    · exact failed
    · obtain ⟨entry, he, rfl⟩ := List.mem_map.mp ((emitted.mem_keys_iff h).mpr present)
      have spelled : ∀ entry ∈ s.entries, Json.Element.keyText? entry.1 ≠ none :=
        ((List.forall₂_and_left _ _).mp (texts.imp fun _ _ h => ⟨by simp [h.text], h⟩)).1
      exact absurd absent (spelled entry he)

theorem emits_of_encode {members : List (String × List V)} (h : s.encode = .ok members) :
    ∃ entries, s.Emits entries ∧ List.Forall₂ Member entries members := by
  rcases s.encode_cases with ⟨failed, -⟩ | ⟨sorted, unsorted, written, perm, texts⟩
  · rw [h] at failed
    cases failed
  · rw [h] at written
    cases written
    obtain ⟨entries, texts, moved⟩ := List.perm_comp_forall₂ perm texts.flip
    exact ⟨entries, s.emits_entries.perm moved, texts.flip⟩

theorem decode_eq_ok_iff [Json.Element V] [DecidableEq K] [DecidableEq V] {text : String} :
    decode text = .ok s ↔
      ∃ entries, Multimap.decode text = .ok entries ∧ s = .ofEntries entries := by
  unfold decode
  cases Multimap.decode (K := K) (V := V) text with
  | error e => simp [Except.map]
  | ok entries => simp [Except.map, eq_comm]

/-- Reading an object is one of the ways in which a snapshot is made. -/
theorem Made.of_decode [Json.Element V] [DecidableEq K] [DecidableEq V] {text : String}
    (read : decode text = .ok s) : s.Made := by
  obtain ⟨entries, -, rfl⟩ := decode_eq_ok_iff.mp read
  exact .merged entries

end Snapshot

end Objects

-- ---------------------------------------------------------------------------
-- The main result
-- ---------------------------------------------------------------------------

open Session (after)

/-- A multimap that is written comes back equal, whatever order its entries are written in, and
writing fails only at a key with values that the format cannot hold. -/
theorem written_multimaps_read_back {Text : Type} [DecidableEq K] [DecidableEq V] [Hash.Hashed K]
    [Hash.Hashed V] (f : Format K V Text) (commands : List (Command K V)) (m : TableId) :
    let s := (after commands).store
    -- a multimap is written as its snapshot is
    (∀ entries, s.Emits m entries ↔ (s.snapshot m).Emits entries) ∧
    (∀ entries, s.Emits m entries →
      -- which is each key with a value once, and no key without
      (entries.map Prod.fst).Nodup ∧
      (∀ key, key ∈ entries.map Prod.fst ↔ ∃ value, value ∈ s.contents m key) ∧
      (f.Carries entries →
        -- it fails just at a key with a value
        (f.write entries = none ↔
          ∃ key, (∃ value, value ∈ s.contents m key) ∧ ¬ f.holds key) ∧
        -- and is read as a multimap that is equal and shares no set with the first
        ∀ text, f.write entries = some text →
          ∃ (snapshot : Snapshot K V) (wellFormed : snapshot.WellFormed),
            f.snapshot? text = some snapshot ∧
            (s.restore snapshot).2.sameContents m (s.restore snapshot).1 = true ∧
            (s.restore snapshot).2.contentHash (s.restore snapshot).1 = s.contentHash m ∧
            ∀ n id, (after (commands ++ [.restore snapshot wellFormed])).Owns
                (s.restore snapshot).1 id →
              (after (commands ++ [.restore snapshot wellFormed])).Owns n id →
              n = (s.restore snapshot).1)) ∧
    -- a snapshot is read back in the same way
    (∀ snapshot : Snapshot K V, snapshot.Made → ∀ entries, snapshot.Emits entries →
      f.Carries entries →
        (f.write entries = none ↔
          ∃ key, (∃ value, value ∈ snapshot.contents key) ∧ ¬ f.holds key) ∧
        ∀ text, f.write entries = some text →
          ∃ back, f.snapshot? text = some back ∧ back.same snapshot = true) ∧
    -- an object with its keys as texts is such a writing
    ∀ [Json.Element K],
      ((s.snapshot m).encode = .error .keyWithoutText ↔
        ∃ key, (∃ value, value ∈ s.contents m key) ∧ Json.Element.keyText? key = none) ∧
      ∀ members, (s.snapshot m).encode = .ok members →
        ∃ entries, s.Emits m entries ∧ List.Forall₂ Member entries members := by
  intro s
  have hs : s.WellFormed := (tracked_after commands).wellFormed
  have taken := Store.wellFormed_snapshot hs m
  have present : ∀ key, (∃ value, value ∈ (s.snapshot m).contents key) ↔
      ∃ value, value ∈ s.contents m key := fun key => exists_congr fun value => by
    rw [Store.mem_contents_snapshot hs, Store.mem_pairs hs]
  refine ⟨s.emits_iff m, fun entries emitted => ?_, fun snapshot made entries emitted carried => ?_,
    ⟨?_, fun members written => ?_⟩⟩
  · replace emitted := (s.emits_iff m entries).mp emitted
    refine ⟨emitted.keys.nodup_iff.mpr taken.distinct,
      fun key => (emitted.mem_keys_iff taken).trans (present key), fun carried => ⟨?_, ?_⟩⟩
    · rw [carried.write_eq_none_iff taken emitted]
      simp only [present]
    · intro text written
      have read := Snapshot.wellFormed_ofEntries entries
      have same := emitted.same_ofEntries taken
      refine ⟨.ofEntries entries, read, carried.snapshot?_eq written,
        Store.sameContents_restore hs read same, Store.contentHash_restore hs read same, ?_⟩
      intro n id hm hn
      exact (tracked_after _).owner_unique hn hm
  · refine ⟨carried.write_eq_none_iff made.wellFormed emitted, fun text written => ?_⟩
    exact ⟨_, carried.snapshot?_eq written, emitted.same_ofEntries made.wellFormed⟩
  · rw [Snapshot.encode_eq_error_iff taken]
    simp only [present]
  · obtain ⟨entries, emitted, texts⟩ := Snapshot.emits_of_encode written
    exact ⟨entries, (s.emits_iff m entries).mpr emitted, texts⟩

/-- Numbers as JSON objects have them, without blanks. Every number has a text. -/
def compactNumbers : Format Int64 Int64 String where
  holds _ := True
  write entries :=
    let sequence (values : List Int64) :=
      "[" ++ ",".intercalate (values.map (toString ·.toInt)) ++ "]"
    let member (entry : Int64 × List Int64) :=
      "\"" ++ toString entry.1.toInt ++ "\":" ++ sequence entry.2
    some ("\x7b" ++ ",".intercalate (entries.map member) ++ "\x7d")
  read text := (decode text).toOption

/-- A key that is only viewed and one that was emptied are not written, and the keys are written in
another order than the table has them in. -/
theorem numbers_read_back :
    let commands : List (Command Int64 Int64) :=
      [.create, .change ⟨0⟩ (.extend [(1, 10), (2, 20), (2, 21)]), .get ⟨0⟩ 5,
        .change ⟨0⟩ (.put 3 30), .change ⟨0⟩ (.replaceValues 3 [])]
    let s := (after commands).store
    ∃ snapshot : Snapshot Int64 Int64,
      compactNumbers.snapshot? "\x7b\"1\":[10],\"2\":[21,20]\x7d" = some snapshot ∧
      (s.restore snapshot).2.sameContents ⟨0⟩ (s.restore snapshot).1 = true := by
  intro commands s
  let entries : List (Int64 × List Int64) := [(1, [10]), (2, [21, 20])]
  have emitted : (s.snapshot ⟨0⟩).Emits entries :=
    (s.snapshot ⟨0⟩).emits_entries.perm (by decide +kernel)
  have written : compactNumbers.write entries = some "\x7b\"1\":[10],\"2\":[21,20]\x7d" := by
    decide +kernel
  have carried : compactNumbers.Carries entries := by
    refine ⟨by simp [compactNumbers], fun text ht => ?_⟩
    rw [written] at ht
    cases ht
    decide +kernel
  obtain ⟨same, main, -⟩ := written_multimaps_read_back compactNumbers commands ⟨0⟩
  obtain ⟨-, -, back⟩ := main entries ((same entries).mpr emitted)
  obtain ⟨snapshot, -, read, equal, -⟩ := (back carried).2 _ written
  exact ⟨snapshot, read, equal⟩

end LiveCollections.Multimap
