import LiveCollections.Proofs.Multimap.Equality
import LiveCollections.Proofs.Multimap.Isolation

/-!
# Restoring snapshots

A snapshot is taken from a multimap, made from keys with sets some of which may be empty,
or read from entries; a clone of it is the same snapshot. However it was made, it names each
key once and no key without values, and a multimap that is restored from it has exactly its
pairs. The sets of the restored multimap are fresh, so that it is isolated from the multimap
that the snapshot was taken from, and from every other one.
-/

namespace LiveCollections.Multimap

variable {K V : Type}

-- ---------------------------------------------------------------------------
-- Sizes
-- ---------------------------------------------------------------------------

namespace Snapshot

variable {s : Snapshot K V}

theorem isEmpty_iff_keyCount : s.isEmpty = true ↔ s.keyCount = 0 := by
  simp [isEmpty, keyCount]

theorem keyCount_le_size (h : s.WellFormed) : s.keyCount ≤ s.size := by
  have bound : ∀ groups : List (K × ValueSet V), (∀ group ∈ groups, group.2.isEmpty = false) →
      groups.length ≤ valueCount groups := by
    intro groups nonempty
    induction groups with
    | nil => exact Nat.le_refl 0
    | cons group groups ih =>
      obtain ⟨first, rest⟩ := List.forall_mem_cons.mp nonempty
      have later := ih rest
      have positive : 0 < group.2.size := by
        simpa [ValueSet.size, ValueSet.isEmpty, List.length_pos_iff] using first
      simp only [List.length_cons, valueCount]
      omega
  exact bound s.groups h.nonempty

theorem size_eq_zero_iff (h : s.WellFormed) : s.size = 0 ↔ s.keyCount = 0 := by
  constructor
  · intro none
    have bound := keyCount_le_size h
    omega
  · intro none
    obtain ⟨groups⟩ := s
    obtain rfl := List.length_eq_zero_iff.mp none
    rfl

end Snapshot

-- ---------------------------------------------------------------------------
-- How a snapshot is made
-- ---------------------------------------------------------------------------

open Session (after)

variable [DecidableEq K] [DecidableEq V]

inductive Snapshot.Made : Snapshot K V → Prop
  /-- From a map, whose sets may be empty. -/
  | grouped {groups : List (K × ValueSet V)} (distinct : (groups.map Prod.fst).Nodup) :
    Made (.ofGroups groups)
  | listed (entries : List (K × List V)) : Made (.ofList entries)
  /-- From entries in the order in which a deserializer hands them over. -/
  | merged (entries : List (K × List V)) : Made (.ofEntries entries)
  /-- Of a multimap, at any time of a session. -/
  | taken (commands : List (Command K V)) (m : TableId) : Made ((after commands).store.snapshot m)

theorem Snapshot.Made.wellFormed {s : Snapshot K V} (h : s.Made) : s.WellFormed := by
  cases h with
  | grouped distinct => exact wellFormed_ofGroups distinct
  | listed entries => exact wellFormed_ofList entries
  | merged entries => exact wellFormed_ofEntries entries
  | taken commands m => exact Store.wellFormed_snapshot (tracked_after commands).wellFormed m

-- ---------------------------------------------------------------------------
-- There and back
-- ---------------------------------------------------------------------------

namespace Store

variable {s : Store K V} {snapshot : Snapshot K V}

omit [DecidableEq V] in
theorem mem_pairs_restore (h : s.WellFormed) (hs : snapshot.WellFormed) {key : K} {value : V} :
    (key, value) ∈ (s.restore snapshot).2.pairs (s.restore snapshot).1 ↔
      value ∈ snapshot.contents key := by
  obtain ⟨answer, effect⟩ := restore_effect h hs
  simp [mem_pairs effect.wellFormed, effect.contents, answer]

omit [DecidableEq V] in
theorem mem_pairs_restore_ne (h : s.WellFormed) (hs : snapshot.WellFormed) {m : TableId}
    (hm : m ≠ (s.restore snapshot).1) {pair : K × V} :
    pair ∈ (s.restore snapshot).2.pairs m ↔ pair ∈ s.pairs m := by
  obtain ⟨answer, effect⟩ := restore_effect h hs
  obtain ⟨key, value⟩ := pair
  simp [mem_pairs effect.wellFormed, mem_pairs h, effect.contents, answer ▸ hm]

theorem same_snapshot_restore (h : s.WellFormed) (hs : snapshot.WellFormed) :
    ((s.restore snapshot).2.snapshot (s.restore snapshot).1).same snapshot = true := by
  have wellFormed := wellFormed_restore h hs
  refine (Snapshot.same_eq_true_iff (wellFormed_snapshot wellFormed _) hs).mpr fun key value => ?_
  rw [mem_contents_snapshot wellFormed, mem_pairs_restore h hs]

theorem mem_pairs_restore_of_same (h : s.WellFormed) (hs : snapshot.WellFormed) {m : TableId}
    (same : snapshot.same (s.snapshot m) = true) (pair : K × V) :
    pair ∈ (s.restore snapshot).2.pairs (s.restore snapshot).1 ↔ pair ∈ s.pairs m := by
  obtain ⟨key, value⟩ := pair
  have agree := (Snapshot.same_eq_true_iff hs (wellFormed_snapshot h m)).mp same
  rw [mem_pairs_restore h hs, agree, mem_contents_snapshot h]

theorem sameContents_restore (h : s.WellFormed) (hs : snapshot.WellFormed) {m : TableId}
    (same : snapshot.same (s.snapshot m) = true) :
    (s.restore snapshot).2.sameContents m (s.restore snapshot).1 = true := by
  by_cases hm : m = (s.restore snapshot).1
  · simp [sameContents, ← hm]
  · refine (sameContents_eq_true_iff (wellFormed_restore h hs) _ _).mpr fun pair => ?_
    exact (mem_pairs_restore_ne h hs hm).trans (mem_pairs_restore_of_same h hs same pair).symm

theorem contentHash_restore [Hash.Hashed K] [Hash.Hashed V] (h : s.WellFormed)
    (hs : snapshot.WellFormed) {m : TableId} (same : snapshot.same (s.snapshot m) = true) :
    (s.restore snapshot).2.contentHash (s.restore snapshot).1 = s.contentHash m :=
  contentHash_congr (wellFormed_restore h hs) h (mem_pairs_restore_of_same h hs same)

end Store

-- ---------------------------------------------------------------------------
-- Restoring within a session
-- ---------------------------------------------------------------------------

namespace Session

theorem size_tables_after_le (commands more : List (Command K V)) :
    (after commands).store.tables.size ≤ (after (commands ++ more)).store.tables.size := by
  induction more using List.reverseRecOn with
  | nil => simp
  | append_singleton more c ih =>
    rw [← List.append_assoc, after_concat]
    exact Nat.le_trans ih (size_tables_step (tracked_after _).wellFormed c)

theorem SparedBy.untouched {commands others : List (Command K V)} {m : TableId}
    (hm : m.index < (after commands).store.tables.size)
    (spared : (after commands).SparedBy m others) :
    Untouched m (after commands) (after (commands ++ others)) := by
  rw [after_append]
  exact Untouched.run (tracked_after commands) hm spared

end Session

-- ---------------------------------------------------------------------------
-- The main result
-- ---------------------------------------------------------------------------

/-- Taking a snapshot and restoring one undo each other, and the restored multimap has nothing in
common with those that were there. -/
theorem restoring_is_inverse_and_isolated [Hash.Hashed K] [Hash.Hashed V]
    (commands : List (Command K V)) :
    let s := (after commands).store
    -- a multimap comes back from its snapshot
    (∀ m, s.reserialize m = s.restore (s.snapshot m) ∧
      (s.reserialize m).2.sameContents m (s.reserialize m).1 = true ∧
      (s.reserialize m).2.contentHash (s.reserialize m).1 = s.contentHash m) ∧
    ∀ snapshot : Snapshot K V, snapshot.Made → ∃ wellFormed : snapshot.WellFormed,
      -- a snapshot has no empty set, so it is empty just when it has no values or no keys
      (∀ group ∈ snapshot.groups, group.2.isEmpty = false) ∧
      (snapshot.isEmpty = true ↔ snapshot.size = 0) ∧
      (snapshot.size = 0 ↔ snapshot.keyCount = 0) ∧
      -- whenever it is restored, it comes back from the multimap that this makes
      ((s.restore snapshot).2.snapshot (s.restore snapshot).1).same snapshot = true ∧
      -- restoring it changes no multimap that is there
      (∀ m, m.index < s.tables.size →
        Untouched m (after commands) (after (commands ++ [.restore snapshot wellFormed]))) ∧
      ∀ more,
        let n := (s.restore snapshot).1
        let restored := commands ++ [.restore snapshot wellFormed] ++ more
        -- the restored multimap and its views have no set in common with another and its views
        (∀ m id, (after restored).Owns n id → (after restored).Owns m id → m = n) ∧
        -- and what goes through others never shows in it, nor the other way round
        ∀ m others, m = n ∨ m.index < s.tables.size → (after restored).SparedBy m others →
          Untouched m (after restored) (after (restored ++ others)) := by
  intro s
  have hs : s.WellFormed := (tracked_after commands).wellFormed
  refine ⟨fun m => ?_, fun snapshot made => ⟨made.wellFormed, ?_⟩⟩
  · have taken := Store.wellFormed_snapshot hs m
    have same := (Snapshot.same_eq_true_iff taken taken).mpr fun _ _ => Iff.rfl
    exact ⟨rfl, Store.sameContents_restore hs taken same, Store.contentHash_restore hs taken same⟩
  have wellFormed := made.wellFormed
  obtain ⟨answer, effect⟩ := Store.restore_effect hs wellFormed
  have grown : (after (commands ++ [.restore snapshot wellFormed])).store.tables.size =
      s.tables.size + 1 := by
    rw [Session.after_concat]
    exact effect.tables
  have empties : snapshot.isEmpty = true ↔ snapshot.size = 0 :=
    Snapshot.isEmpty_iff_keyCount.trans (Snapshot.size_eq_zero_iff wellFormed).symm
  refine ⟨wellFormed.nonempty, empties, Snapshot.size_eq_zero_iff wellFormed,
    Store.same_snapshot_restore hs wellFormed, fun m hm => ?_, fun more => ⟨?_, ?_⟩⟩
  · exact Session.SparedBy.untouched hm ⟨trivial, trivial⟩
  · intro m id hn hm
    exact (tracked_after _).owner_unique hm hn
  · intro m others hm spared
    have there : m.index < s.tables.size + 1 := by
      rcases hm with rfl | old
      · simp [answer]
      · exact Nat.lt_succ_of_lt old
    have kept := Session.size_tables_after_le (commands ++ [.restore snapshot wellFormed]) more
    rw [grown] at kept
    exact spared.untouched (Nat.lt_of_lt_of_le there kept)

/-- A source with a viewed key and an emptied one, which is cleared once it has been restored. -/
theorem cleared_source_leaves_its_copy :
    let commands : List (Command Int64 Int64) :=
      [.create, .change ⟨0⟩ (.extend [(1, 10), (2, 20), (3, 30)]), .get ⟨0⟩ 5, .get ⟨0⟩ 1,
        .change ⟨0⟩ (.replaceValues 2 [])]
    let snapshot := (after commands).store.snapshot ⟨0⟩
    let others : List (Command Int64 Int64) :=
      [.insertInto 0 11, .change ⟨0⟩ .clear, .dropView 1, .change ⟨0⟩ (.put 3 31)]
    snapshot.size = 2 ∧ ∃ wellFormed : snapshot.WellFormed,
      Untouched ⟨1⟩ (after (commands ++ [.restore snapshot wellFormed] ++ []))
        (after (commands ++ [.restore snapshot wellFormed] ++ [] ++ others)) := by
  intro commands snapshot others
  have made : snapshot.Made := .taken commands ⟨0⟩
  obtain ⟨-, main⟩ := restoring_is_inverse_and_isolated commands
  obtain ⟨wellFormed, -, -, -, -, -, isolated⟩ := main snapshot made
  have copy : ((after commands).store.restore snapshot).1 = ⟨1⟩ := by decide +kernel
  have spared : (after (commands ++ [.restore ((after commands).store.snapshot ⟨0⟩)
      (Snapshot.Made.taken commands ⟨0⟩).wellFormed] ++ [])).SparedBy ⟨1⟩ others := by
    decide +kernel
  exact ⟨by decide +kernel, wellFormed, (isolated []).2 ⟨1⟩ others (.inl copy.symm) spared⟩

end LiveCollections.Multimap
