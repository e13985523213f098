import LiveCollections.Proofs.Multimap.Session

/-!
# Views and the sets they hold

A view holds the set of its key from the moment it is taken until something discards
that set: removing the key from the multimap of the view, or clearing that multimap.
No sweep and no prune is among these, because a set that a view holds is in use; and
a set that was discarded is never found again, because a new slot always gets a
fresh set.

The invariant names the generation of its key that a view belongs to. A view is
attached while this is the generation that the key is in now, and two views hold one
set when they belong to one generation of one key.
-/

namespace LiveCollections.Multimap

variable {K V : Type} [DecidableEq K]

/-- The session keeps to what its history says about views. -/
structure Tracked (history : List (Command K V)) (s : Session K V) : Prop where
  wellFormed : s.store.WellFormed
  clock : s.clock = history.length
  held : s.store.held.Perm (s.views.map fun v => v.view.set)
  since : ∀ v ∈ s.views, v.since ≤ history.length
  home : ∀ v ∈ s.views, v.home.index < s.store.tables.size
  attached : ∀ v ∈ s.views, ∀ m key, s.store.slot? m key = some v.view.set ↔
    m = v.home ∧ key = v.view.key ∧ v.Current history
  shared : ∀ v ∈ s.views, ∀ w ∈ s.views, v.view.set = w.view.set ↔
    v.home = w.home ∧ v.view.key = w.view.key ∧ v.generation history = w.generation history

namespace Tracked

variable {history : List (Command K V)} {s : Session K V}

theorem empty : Tracked [] ({} : Session K V) where
  wellFormed := Store.wellFormed_empty
  clock := rfl
  held := .refl _
  since _ hv := nomatch hv
  home _ hv := nomatch hv
  attached _ hv := nomatch hv
  shared _ hv := nomatch hv

theorem mem_held (h : Tracked history s) {v : LiveView K} (hv : v ∈ s.views) :
    v.view.set ∈ s.store.held := h.held.mem_iff.mpr (List.mem_map.mpr ⟨v, hv, rfl⟩)

theorem slot?_eq (h : Tracked history s) {v : LiveView K} (hv : v ∈ s.views)
    (current : v.Current history) : s.store.slot? v.home v.view.key = some v.view.set :=
  (h.attached v hv _ _).mpr ⟨rfl, rfl, current⟩

theorem slot?_ne (h : Tracked history s) {v : LiveView K} (hv : v ∈ s.views)
    (stale : ¬ v.Current history) (m : TableId) (key : K) :
    s.store.slot? m key ≠ some v.view.set :=
  fun hs => stale ((h.attached v hv m key).mp hs).2.2

-- ---------------------------------------------------------------------------
-- What keeps the invariant
-- ---------------------------------------------------------------------------

/-- An effect may discard what the command that it is an effect of discards. -/
theorem effect (h : Tracked history s) {c : Command K V} {t : Store K V} {created : Nat}
    {edit : Edit K V}
    (e : Store.Effect s.store t created edit fun n key => c.discards n key = true) :
    Tracked (history ++ [c]) { s with store := t, clock := s.clock + 1 } where
  wellFormed := e.wellFormed
  clock := by simp [h.clock]
  held := e.held ▸ h.held
  since v hv := by
    rw [List.length_append]
    exact Nat.le_add_right_of_le (h.since v hv)
  home v hv := by
    rw [e.tables]
    exact Nat.lt_add_right _ (h.home v hv)
  attached v hv m key := by
    rw [e.slots _ (h.mem_held hv), h.attached v hv, LiveView.current_concat (h.since v hv)]
    constructor
    · rintro ⟨⟨rfl, rfl, current⟩, kept⟩
      exact ⟨rfl, rfl, current, by simpa using kept⟩
    · rintro ⟨rfl, rfl, current, kept⟩
      exact ⟨⟨rfl, rfl, current⟩, by simp [kept]⟩
  shared v hv w hw := by
    rw [LiveView.generation_concat (h.since v hv), LiveView.generation_concat (h.since w hw)]
    exact h.shared v hv w hw

theorem edits (h : Tracked history s) {c : Command K V} (hc : ∀ n key, c.discards n key = false)
    {t : Store K V} {created : Nat} {edit : Edit K V}
    (e : Store.Effect s.store t created edit Store.never) :
    Tracked (history ++ [c]) { s with store := t, clock := s.clock + 1 } :=
  h.effect (e.discarding fun n key => by simp [Store.never, hc])

theorem tick (h : Tracked history s) {c : Command K V} (hc : ∀ n key, c.discards n key = false) :
    Tracked (history ++ [c]) { s with clock := s.clock + 1 } :=
  h.edits hc (Store.Edits.refl h.wellFormed)

theorem add (h : Tracked history s) {v : LiveView K} (since : v.since ≤ history.length)
    (home : v.home.index < s.store.tables.size)
    (allocated : v.view.set.index < s.store.sets.size)
    (attached : ∀ m key, s.store.slot? m key = some v.view.set ↔
      m = v.home ∧ key = v.view.key ∧ v.Current history)
    (shared : ∀ w ∈ s.views, v.view.set = w.view.set ↔
      v.home = w.home ∧ v.view.key = w.view.key ∧ v.generation history = w.generation history) :
    Tracked history { s with store := s.store.acquire v.view.set, views := v :: s.views } where
  wellFormed :=
    { h.wellFormed with heldAllocated := List.forall_mem_cons.mpr ⟨allocated, h.wellFormed.heldAllocated⟩ }
  clock := h.clock
  held := h.held.cons _
  since := List.forall_mem_cons.mpr ⟨since, h.since⟩
  home := List.forall_mem_cons.mpr ⟨home, h.home⟩
  attached := List.forall_mem_cons.mpr ⟨attached, h.attached⟩
  shared := by
    refine List.forall_mem_cons.mpr ⟨List.forall_mem_cons.mpr ⟨by simp, shared⟩, ?_⟩
    refine fun w hw => List.forall_mem_cons.mpr ⟨?_, h.shared w hw⟩
    rw [eq_comm, shared w hw, eq_comm, @eq_comm _ v.view.key, @eq_comm _ (v.generation history)]

theorem copy (h : Tracked history s) {v : LiveView K} (hv : v ∈ s.views) :
    Tracked history { s with store := s.store.acquire v.view.set, views := v :: s.views } :=
  h.add (h.since v hv) (h.home v hv) (h.wellFormed.heldAllocated _ (h.mem_held hv))
    (h.attached v hv) (h.shared v hv)

theorem take (h : Tracked history s) {m : TableId} (hm : m.index < s.store.tables.size) {key : K}
    {id : SetId} (hk : s.store.slot? m key = some id) :
    Tracked history { s with
      store := s.store.acquire id, views := ⟨m, ⟨key, id⟩, history.length⟩ :: s.views } := by
  have generation : (⟨m, ⟨key, id⟩, history.length⟩ : LiveView K).generation history =
      Multimap.generation history m key := LiveView.current_of_since_eq rfl
  refine h.add (v := ⟨m, ⟨key, id⟩, history.length⟩) (Nat.le_refl _) hm (h.wellFormed.allocated hk)
    (fun n k => ?_) (fun w hw => ?_)
  · refine ⟨fun hs => ?_, ?_⟩
    · obtain ⟨rfl, rfl⟩ := h.wellFormed.apart hk hs
      exact ⟨rfl, rfl, generation⟩
    · rintro ⟨rfl, rfl, -⟩
      exact hk
  · have same : id = w.view.set ↔ s.store.slot? m key = some w.view.set := by simp [hk]
    rw [same, h.attached w hw, generation, LiveView.Current]
    constructor
    · rintro ⟨rfl, rfl, current⟩
      exact ⟨rfl, rfl, current.symm⟩
    · rintro ⟨hm, hk, current⟩
      have hm : m = w.home := hm
      have hk : key = w.view.key := hk
      subst hm hk
      exact ⟨rfl, rfl, current.symm⟩

theorem drop (h : Tracked history s) {i : Nat} {v : LiveView K} (hi : s.views[i]? = some v) :
    Tracked history
      { s with store := s.store.release v.view.set, views := s.views.eraseIdx i } := by
  obtain ⟨lt, rfl⟩ := List.getElem?_eq_some_iff.mp hi
  have live : ∀ {w}, w ∈ s.views.eraseIdx i → w ∈ s.views := List.mem_of_mem_eraseIdx
  have parted : s.store.held.Perm
      (s.views[i].view.set :: (s.views.eraseIdx i).map fun v => v.view.set) :=
    h.held.trans ((List.getElem_cons_eraseIdx_perm lt).symm.map fun v => v.view.set)
  refine ⟨{ h.wellFormed with heldAllocated := fun id hid => ?_ }, h.clock, ?_,
    fun w hw => h.since w (live hw), fun w hw => h.home w (live hw),
    fun w hw => h.attached w (live hw), fun w hw u hu => h.shared w (live hw) u (live hu)⟩
  · exact h.wellFormed.heldAllocated id (List.mem_of_mem_erase hid)
  · have erased := parted.erase s.views[i].view.set
    rwa [List.erase_cons_head] at erased

theorem write (h : Tracked history s) (id : SetId) (values : ValueSet V) :
    Tracked history { s with store := s.store.setValues id values } where
  wellFormed := Store.wellFormed_setValues h.wellFormed id values
  clock := h.clock
  held := h.held
  since := h.since
  home := h.home
  attached := h.attached
  shared := h.shared

-- ---------------------------------------------------------------------------
-- Steps and runs
-- ---------------------------------------------------------------------------

variable [DecidableEq V]

theorem absentView (h : Tracked history s) {c : Command K V} {i : Nat} (hc : c.view? = some i)
    (hi : s.views[i]? = none) : Tracked (history ++ [c]) (s.step c).2 := by
  rw [Session.step_of_absent_view hc hi]
  exact h.tick (Command.discards_of_view? hc)

theorem step (h : Tracked history s) (c : Command K V) :
    Tracked (history ++ [c]) (s.step c).2 := by
  cases c with
  | create => exact h.edits (fun _ _ => rfl) (Store.create_effect h.wellFormed).2
  | collect pairs => exact h.edits (fun _ _ => rfl) (Store.createFrom_effect h.wellFormed pairs).2
  | restore snapshot hs =>
    exact h.edits (fun _ _ => rfl) (Store.restore_effect h.wellFormed hs).2
  | change m c =>
    by_cases hm : m.index < s.store.tables.size
    · simp only [Session.step, Session.perform, if_pos hm]
      exact h.effect (Store.apply_effect h.wellFormed hm c)
    · simp only [Session.step, Session.perform, if_neg hm]
      exact h.effect (c := .change m c) (Store.absent_effect h.wellFormed hm c)
  | get m key =>
    by_cases hm : m.index < s.store.tables.size
    · simp only [Session.step, Session.perform, if_pos hm]
      obtain ⟨found, hk⟩ := Store.edits_slotFor h.wellFormed hm key
      have taken := (h.edits (c := .get m key) (fun _ _ => rfl) found).take (found.tables ▸ hm) hk
      rw [List.length_append, ← h.clock] at taken
      exact taken
    · simp only [Session.step, Session.perform, if_neg hm]
      exact h.tick fun _ _ => rfl
  | copyView i =>
    cases hi : s.views[i]? with
    | none => exact h.absentView rfl hi
    | some v =>
      have later := h.tick (c := .copyView i) fun _ _ => rfl
      simp only [Session.step, Session.perform, hi]
      exact later.copy (List.mem_of_getElem? hi)
  | dropView i =>
    cases hi : s.views[i]? with
    | none => exact h.absentView rfl hi
    | some v =>
      have later := h.tick (c := .dropView i) fun _ _ => rfl
      simp only [Session.step, Session.perform, hi]
      exact later.drop hi
  | insertInto i value =>
    cases hi : s.views[i]? with
    | none => exact h.absentView rfl hi
    | some v =>
      have later := h.tick (c := .insertInto i value) fun _ _ => rfl
      simp only [Session.step, Session.perform, hi]
      exact later.write v.view.set _
  | removeFrom i value =>
    cases hi : s.views[i]? with
    | none => exact h.absentView rfl hi
    | some v =>
      have later := h.tick (c := .removeFrom i value) fun _ _ => rfl
      simp only [Session.step, Session.perform, hi]
      exact later.write v.view.set _

end Tracked

theorem tracked_after [DecidableEq V] (commands : List (Command K V)) :
    Tracked commands (Session.after commands) :=
  run_invariant .empty (fun _ _ c h => h.step c) commands

-- ---------------------------------------------------------------------------
-- What is discarded stays discarded
-- ---------------------------------------------------------------------------

section Later

variable [DecidableEq V]

theorem Session.grown_step {s : Session K V} (h : s.store.WellFormed) (c : Command K V) :
    Store.Later s.store (s.step c).2.store ∧
      (s.step c).2.store.tables.size = s.store.tables.size + c.startsWith?.toList.length := by
  have same : Store.Later s.store s.store := .refl s.store
  have written : ∀ id values, Store.Later s.store (s.store.setValues id values) := fun id values =>
    ⟨Nat.le_of_eq (Store.size_sets_setValues ..).symm, .inl⟩
  cases c with
  | create =>
    have made := (Store.create_effect h).2
    exact ⟨made.later, made.tables⟩
  | collect pairs =>
    have made := (Store.createFrom_effect h pairs).2
    exact ⟨made.later, made.tables⟩
  | restore snapshot hs =>
    have made := (Store.restore_effect h hs).2
    exact ⟨made.later, made.tables⟩
  | change m c =>
    simp only [step, perform]
    split
    · rename_i hm
      have changed := Store.apply_effect h hm c
      exact ⟨changed.later, changed.tables⟩
    · exact ⟨same, rfl⟩
  | get m key =>
    simp only [step, perform]
    split
    · rename_i hm
      have found := (Store.edits_slotFor h hm key).1
      exact ⟨⟨found.later.sets, found.later.slots⟩, found.tables⟩
    · exact ⟨same, rfl⟩
  | copyView i | dropView i =>
    simp only [step, perform]
    split
    · exact ⟨⟨same.sets, same.slots⟩, rfl⟩
    · exact ⟨same, rfl⟩
  | insertInto i value | removeFrom i value =>
    simp only [step, perform]
    split
    · exact ⟨written _ _, rfl⟩
    · exact ⟨same, rfl⟩

theorem later_after (commands more : List (Command K V)) :
    Store.Later (Session.after commands).store (Session.after (commands ++ more)).store := by
  induction more using List.reverseRecOn with
  | nil =>
    rw [List.append_nil]
    exact .refl _
  | append_singleton more c ih =>
    rw [← List.append_assoc, Session.after_concat]
    exact ih.trans (Session.grown_step (tracked_after _).wellFormed c).1

end Later

-- ---------------------------------------------------------------------------
-- Attached views read and write the multimap
-- ---------------------------------------------------------------------------

namespace Store

variable {s : Store K V} {m : TableId} {v : ValueView K}

theorem viewed_of_slot? (h : s.slot? m v.key = some v.set) : s.viewed v = s.contents m v.key :=
  (contents_of_slot? h).symm

variable [DecidableEq V]

theorem insertInto_of_slot? (h : s.slot? m v.key = some v.set) (value : V) :
    s.insertInto v value = s.put m v.key value := by
  simp [put, update, updatePresent?, insertInto, h]

/-- The view keeps the set in use, so the removal through the multimap prunes nothing. -/
theorem removeFrom_of_slot? (h : s.slot? m v.key = some v.set) (held : v.set ∈ s.held) (value : V) :
    s.removeFrom v value = s.remove m v.key value := by
  have kept : (s.change v.set (removal value)).2.prune m v.key =
      (s.change v.set (removal value)).2 := by
    have hs : (s.change v.set (removal value)).2.slot? m v.key = some v.set := h
    have hu : (s.change v.set (removal value)).2.isUnused v.set = false :=
      isUnused_of_mem_held held
    simp [prune, hs, hu]
  simp [remove, removeFrom, h, kept]

end Store

-- ---------------------------------------------------------------------------
-- The main result
-- ---------------------------------------------------------------------------

open Session (after)

theorem LiveView.generation_eq_iff {v w : LiveView K} (hm : v.home = w.home)
    (hk : v.view.key = w.view.key) (history : List (Command K V)) :
    v.generation history = w.generation history ↔
      ¬ Discarded ((history.take (max v.since w.since)).drop (min v.since w.since))
        v.home v.view.key := by
  rw [LiveView.generation, LiveView.generation, ← hm, ← hk]
  rcases Nat.le_total v.since w.since with h | h
  · rw [Nat.max_eq_right h, Nat.min_eq_left h]
    exact generation_take_eq_iff history h _ _
  · rw [Nat.max_eq_left h, Nat.min_eq_right h, eq_comm]
    exact generation_take_eq_iff history h _ _

/-- A view that was taken at any time of a session has the set of its key, and reads and writes
as the multimap does, until the key is removed or the multimap is cleared; then never again. -/
theorem views_follow_their_keys [DecidableEq V] (commands : List (Command K V)) (v : LiveView K)
    (hv : v ∈ (after commands).views) :
    -- a view is attached, to its own key only, just as long as nothing discards the key
    (∀ m key, (after commands).store.slot? m key = some v.view.set ↔
      m = v.home ∧ key = v.view.key ∧
        ¬ Discarded (commands.drop v.since) v.home v.view.key) ∧
    -- tidying detaches no view
    (∀ n other m key, (((after commands).store.sweep n).slot? m key = some v.view.set ↔
        (after commands).store.slot? m key = some v.view.set) ∧
      (((after commands).store.prune n other).slot? m key = some v.view.set ↔
        (after commands).store.slot? m key = some v.view.set)) ∧
    -- a detached set is never attached again
    (Discarded (commands.drop v.since) v.home v.view.key → ∀ more m key,
      (after (commands ++ more)).store.slot? m key ≠ some v.view.set) ∧
    -- sharing
    (∀ w ∈ (after commands).views, v.view.shares w.view = true ↔
      v.home = w.home ∧ v.view.key = w.view.key ∧
        ¬ Discarded ((commands.take (max v.since w.since)).drop (min v.since w.since))
          v.home v.view.key) ∧
    -- reading and writing while attached
    (¬ Discarded (commands.drop v.since) v.home v.view.key →
      (after commands).store.viewed v.view = (after commands).store.contents v.home v.view.key ∧
      ∀ value,
        (after commands).store.insertInto v.view value =
          (after commands).store.put v.home v.view.key value ∧
        (after commands).store.removeFrom v.view value =
          (after commands).store.remove v.home v.view.key value) ∧
    -- the set is emptied when it is discarded
    (¬ Discarded (commands.drop v.since) v.home v.view.key → ∀ c : Change K V,
      c = .removeAll v.view.key ∨ c = .clear →
        (after (commands ++ [.change v.home c])).store.viewed v.view = .empty) ∧
    -- and no multimap changes it after that
    (Discarded (commands.drop v.since) v.home v.view.key → ∀ m c,
      (after (commands ++ [.change m c])).store.viewed v.view =
        (after commands).store.viewed v.view) := by
  have h := tracked_after commands
  have hs := h.wellFormed
  have held := h.mem_held hv
  have current := LiveView.current_iff (h.since v hv)
  refine ⟨fun m key => ?_, fun n other m key => ⟨?_, ?_⟩, fun gone more m key => ?_, fun w hw => ?_,
    fun kept => ?_, fun kept c hc => ?_, fun gone m c => ?_⟩
  · rw [h.attached v hv, current]
  · exact (Store.edits_sweep hs n).slot?_eq held m key
  · exact (Store.edits_prune hs n other).slot?_eq held m key
  · have stale : ¬ v.Current commands := fun e => current.mp e gone
    exact (later_after commands more).slot?_ne (hs.heldAllocated _ held) (h.slot?_ne hv stale) m key
  · rw [ValueView.shares, beq_iff_eq, h.shared v hv w hw]
    constructor
    · rintro ⟨hm, hk, same⟩
      exact ⟨hm, hk, (LiveView.generation_eq_iff hm hk commands).mp same⟩
    · rintro ⟨hm, hk, kept⟩
      exact ⟨hm, hk, (LiveView.generation_eq_iff hm hk commands).mpr kept⟩
  · have hk := h.slot?_eq hv (current.mpr kept)
    exact ⟨Store.viewed_of_slot? hk, fun value =>
      ⟨Store.insertInto_of_slot? hk value, Store.removeFrom_of_slot? hk held value⟩⟩
  · have hk := h.slot?_eq hv (current.mpr kept)
    have emptied := (Store.apply_effect hs (h.home v hv) c).attached _ held _ _ hk
    rw [Change.edit_of_discards (Change.discards_iff.mpr hc)] at emptied
    rw [Session.after_concat]
    simp only [Session.step, Session.perform, if_pos (h.home v hv)]
    exact emptied
  · have stale : ¬ v.Current commands := fun e => current.mp e gone
    rw [Session.after_concat]
    simp only [Session.step, Session.perform]
    split
    · rename_i hm
      exact (Store.apply_effect hs hm c).detached _ held (h.slot?_ne hv stale)
    · rfl

/-- A key that is removed while a view of it is live is given another set by the next view. -/
theorem second_view_follows_its_key :
    let commands : List (Command Nat Nat) :=
      [.create, .get ⟨0⟩ 7, .change ⟨0⟩ (.removeAll 7), .get ⟨0⟩ 7, .insertInto 0 3]
    (⟨⟨0⟩, ⟨7, ⟨1⟩⟩, 4⟩ : LiveView Nat) ∈ (after commands).views ∧
      (after commands).store.slot? ⟨0⟩ 7 = some ⟨1⟩ :=
  have live := .head _
  ⟨live, ((views_follow_their_keys _ _ live).1 ⟨0⟩ 7).mpr
    ⟨rfl, rfl, by simp [Discarded]⟩⟩

end LiveCollections.Multimap
