import LiveCollections.Proofs.Multimap.Attachment
import LiveCollections.Proofs.Multimap.Relation
import Mathlib.Logic.Function.Basic

/-!
# Sessions refine relations

An ideal session has a relation for each multimap and no tables. Its views name a
generation of a key. A view of the generation that the key is in reads and writes the
relation; a view of an earlier generation has a remnant, which the views of the same
generation share and nothing else can reach.

A session and the ideal session answer every command alike, and every reader of a
multimap reads its relation.
-/

namespace LiveCollections.Multimap

variable {K V : Type}

structure IdealView (K : Type) where
  home : TableId
  key : K
  generation : Nat
  deriving DecidableEq

structure Ideal (K V : Type) where
  tables : Nat := 0
  relation : TableId → Finset (K × V) := fun _ => ∅
  generation : TableId → K → Nat := fun _ _ => 0
  views : List (IdealView K) := []
  remnant : IdealView K → Finset V := fun _ => ∅

namespace Ideal

def add (a : Ideal K V) (r : Finset (K × V)) : Ideal K V :=
  { a with tables := a.tables + 1, relation := Function.update a.relation ⟨a.tables⟩ r }

theorem relation_add_self (a : Ideal K V) (r : Finset (K × V)) :
    (a.add r).relation ⟨a.tables⟩ = r := Function.update_self ..

theorem relation_add_ne (a : Ideal K V) (r : Finset (K × V)) {n : TableId} (h : n ≠ ⟨a.tables⟩) :
    (a.add r).relation n = a.relation n := Function.update_of_ne h ..

variable [DecidableEq K]

/-- Whether a view is one of the generation that its key is in. -/
def attached (a : Ideal K V) (v : IdealView K) : Bool := v.generation == a.generation v.home v.key

def tick (a : Ideal K V) (c : Command K V) : Ideal K V :=
  { a with generation := fun m key => a.generation m key + (c.discards m key).toNat }

/-- Gives a view other values, which are not those of its key. -/
def setRemnant (a : Ideal K V) (v : IdealView K) (values : Finset V) : Ideal K V :=
  { a with remnant := Function.update a.remnant v values }

theorem remnant_setRemnant_self (a : Ideal K V) (v : IdealView K) (values : Finset V) :
    (a.setRemnant v values).remnant v = values := Function.update_self ..

theorem remnant_setRemnant_ne (a : Ideal K V) {v w : IdealView K} (h : w ≠ v)
    (values : Finset V) : (a.setRemnant v values).remnant w = a.remnant w :=
  Function.update_of_ne h ..

variable [DecidableEq V]

def viewed (a : Ideal K V) (v : IdealView K) : Finset V :=
  if a.attached v then PairSet.valuesOf (a.relation v.home) v.key else a.remnant v

def change (a : Ideal K V) (m : TableId) (c : Change K V) : Answer V × Ideal K V :=
  let (answer, r) := c.onRelation (a.relation m)
  (answer, { a with relation := Function.update a.relation m r })

theorem relation_change_self (a : Ideal K V) (m : TableId) (c : Change K V) :
    (a.change m c).2.relation m = (c.onRelation (a.relation m)).2 := Function.update_self ..

theorem relation_change_ne (a : Ideal K V) {m n : TableId} (h : n ≠ m) (c : Change K V) :
    (a.change m c).2.relation n = a.relation n := Function.update_of_ne h ..

def insertInto (a : Ideal K V) (v : IdealView K) (value : V) : Answer V × Ideal K V :=
  if a.attached v then a.change v.home (.put v.key value)
  else (.flag (decide (value ∉ a.remnant v)), a.setRemnant v (insert value (a.remnant v)))

def removeFrom (a : Ideal K V) (v : IdealView K) (value : V) : Answer V × Ideal K V :=
  if a.attached v then a.change v.home (.remove v.key value)
  else (.flag (decide (value ∈ a.remnant v)), a.setRemnant v ((a.remnant v).erase value))

def perform (a : Ideal K V) : Command K V → Answer V × Ideal K V
  | .create => (.done, a.add ∅)
  | .collect pairs => (.done, a.add pairs.toFinset)
  | .restore snapshot _ => (.done, a.add snapshot.pairs.toFinset)
  | .change m c => if m.index < a.tables then a.change m c else (.done, a)
  | .get m key =>
    if m.index < a.tables then
      (.done, { a with views := ⟨m, key, a.generation m key⟩ :: a.views })
    else (.done, a)
  | .copyView i =>
    match a.views[i]? with
    | some v => (.done, { a with views := v :: a.views })
    | none => (.done, a)
  | .dropView i => (.done, { a with views := a.views.eraseIdx i })
  | .insertInto i value =>
    match a.views[i]? with
    | some v => a.insertInto v value
    | none => (.done, a)
  | .removeFrom i value =>
    match a.views[i]? with
    | some v => a.removeFrom v value
    | none => (.done, a)

def step (a : Ideal K V) (c : Command K V) : Answer V × Ideal K V :=
  let (answer, b) := a.perform c
  (answer, b.tick c)

def after (commands : List (Command K V)) : Ideal K V := (run step {} commands).2

def answersTo (commands : List (Command K V)) : List (Answer V) := (run step {} commands).1

theorem step_of_absent_view {a : Ideal K V} {c : Command K V} {i : Nat} (hc : c.view? = some i)
    (hi : a.views[i]? = none) : a.step c = (.done, a.tick c) := by
  cases c with
  | dropView j =>
    cases hc
    have short : a.views.eraseIdx i = a.views :=
      List.eraseIdx_of_length_le (List.getElem?_eq_none_iff.mp hi)
    simp only [step, perform, short]
  | _ => cases hc <;> simp only [step, perform, hi]

end Ideal

variable [DecidableEq K]

def LiveView.ideal (v : LiveView K) (history : List (Command K V)) : IdealView K :=
  ⟨v.home, v.view.key, v.generation history⟩

theorem LiveView.ideal_concat {v : LiveView K} {history : List (Command K V)}
    (h : v.since ≤ history.length) (c : Command K V) :
    v.ideal (history ++ [c]) = v.ideal history := by
  rw [ideal, ideal, generation_concat h]

structure Refines (history : List (Command K V)) (s : Session K V) (a : Ideal K V) : Prop where
  tracked : Tracked history s
  tables : a.tables = s.store.tables.size
  generation : a.generation = generation history
  views : a.views = s.views.map fun v => v.ideal history
  relation : ∀ m, s.store.Represents m (a.relation m)
  remnant : ∀ v ∈ s.views, ¬ v.Current history →
    a.remnant (v.ideal history) = (s.store.viewed v.view).toFinset
  /-- A generation that is not over has no remnant, so a set is empty when it is detached. -/
  unwritten : ∀ v : IdealView K, a.generation v.home v.key ≤ v.generation → a.remnant v = ∅

namespace Refines

variable {history : List (Command K V)} {s : Session K V} {a : Ideal K V}

theorem empty : Refines [] ({} : Session K V) {} where
  tracked := .empty
  tables := rfl
  generation := rfl
  views := rfl
  relation m key value := by
    have absent : ({} : Store K V).slot? m key = none := Store.slot?_of_size_le (Nat.zero_le _) key
    simp [Store.contents_of_slot?_eq_none absent]
  remnant _ hv := nomatch hv
  unwritten _ _ := rfl

theorem attached_iff (h : Refines history s a) (v : LiveView K) :
    a.attached (v.ideal history) = true ↔ v.Current history := by
  rw [Ideal.attached, beq_iff_eq, h.generation]
  rfl

theorem views_getElem? (h : Refines history s a) (i : Nat) :
    a.views[i]? = s.views[i]?.map fun v => v.ideal history := by
  rw [h.views, List.getElem?_map]

-- ---------------------------------------------------------------------------
-- What keeps the invariant
-- ---------------------------------------------------------------------------

/-- An effect is followed by the relations that have its edit, if it empties what it discards. -/
theorem effect (h : Refines history s a) {c : Command K V} {t : Store K V} {created : Nat}
    {edit : Edit K V}
    (e : Store.Effect s.store t created edit fun n key => c.discards n key = true)
    (emptied : ∀ n key values, c.discards n key = true → edit n key values = .empty)
    {b : Ideal K V} (hb : b = { a with tables := a.tables + created, relation := b.relation })
    (hr : ∀ n key value, (key, value) ∈ b.relation n ↔
      value ∈ edit n key (s.store.contents n key)) :
    Refines (history ++ [c]) { s with store := t, clock := s.clock + 1 } (b.tick c) where
  tracked := h.tracked.effect e
  tables := by
    rw [e.tables, ← h.tables]
    exact congrArg Ideal.tables hb
  generation := by
    have same : b.generation = a.generation := by rw [hb]
    rw [h.generation] at same
    funext m key
    rw [generation_concat, ← same]
    rfl
  views := by
    have same : b.views = a.views := by rw [hb]
    rw [h.views] at same
    exact same.trans
      (List.map_congr_left fun v hv => (LiveView.ideal_concat (h.tracked.since v hv) c).symm)
  relation n key value := by
    rw [e.contents]
    exact hr n key value
  remnant v hv stale := by
    have same : b.remnant = a.remnant := by rw [hb]
    have held := h.tracked.mem_held hv
    rw [LiveView.current_concat (h.tracked.since v hv)] at stale
    rw [LiveView.ideal_concat (h.tracked.since v hv)]
    refine (congrFun same _).trans ?_
    by_cases current : v.Current history
    · have discards : c.discards v.home v.view.key = true := by simpa [current] using stale
      have gone := e.attached _ held _ _ (h.tracked.slot?_eq hv current)
      rw [emptied _ _ _ discards] at gone
      rw [Store.viewed, gone, ValueSet.toFinset_empty]
      refine h.unwritten _ ?_
      rw [h.generation]
      exact Nat.le_of_eq current.symm
    · rw [Store.viewed, e.detached _ held (h.tracked.slot?_ne hv current)]
      exact h.remnant v hv current
  unwritten v hv := by
    have same : b.remnant = a.remnant := by rw [hb]
    have generation : b.generation = a.generation := by rw [hb]
    refine (congrFun same v).trans (h.unwritten v ?_)
    rw [← generation]
    exact Nat.le_trans (Nat.le_add_right ..) hv

theorem viewing (h : Refines history s a) {c : Command K V} (hc : ∀ n key, c.discards n key = false)
    {t : Session K V} (ht : Tracked (history ++ [c]) t)
    (tables : t.store.tables.size = s.store.tables.size)
    (contents : ∀ m key, t.store.contents m key = s.store.contents m key)
    (old : ∀ v ∈ t.views, ¬ v.Current (history ++ [c]) →
      v ∈ s.views ∧ t.store.viewed v.view = s.store.viewed v.view)
    {views : List (IdealView K)} (hv : views = t.views.map fun v => v.ideal (history ++ [c])) :
    Refines (history ++ [c]) t
      ({ a with views } |>.tick c) where
  tracked := ht
  tables := h.tables.trans tables.symm
  generation := by
    funext m key
    rw [generation_concat, ← h.generation]
    rfl
  views := hv
  relation m key value := by
    rw [contents]
    exact h.relation m key value
  remnant v hv stale := by
    obtain ⟨live, same⟩ := old v hv stale
    rw [LiveView.current_concat (h.tracked.since v live), hc, and_iff_left rfl] at stale
    rw [LiveView.ideal_concat (h.tracked.since v live), same]
    exact h.remnant v live stale
  unwritten v hv := h.unwritten v (Nat.le_trans (Nat.le_add_right ..) hv)

theorem add (h : Refines history s a) {c : Command K V} (hc : ∀ n key, c.discards n key = false)
    {t : Store K V} {edit : Edit K V} (e : Store.Effect s.store t 1 edit Store.never)
    (kept : ∀ n key values, n ≠ ⟨s.store.tables.size⟩ → edit n key values = values)
    {r : Finset (K × V)} (hr : ∀ key value, (key, value) ∈ r ↔
      value ∈ edit ⟨s.store.tables.size⟩ key .empty) :
    Refines (history ++ [c]) { s with store := t, clock := s.clock + 1 }
      ((a.add r).tick c) := by
  rw [← h.tables] at kept hr
  refine h.effect (e.discarding fun n key => by simp [Store.never, hc]) (fun n key _ hd => ?_) rfl
    fun n key value => ?_
  · rw [hc] at hd
    cases hd
  · by_cases hn : n = ⟨a.tables⟩
    · subst hn
      have absent := Store.slot?_of_size_le (m := ⟨a.tables⟩) (Nat.le_of_eq h.tables.symm) key
      rw [Store.contents_of_slot?_eq_none absent, Ideal.relation_add_self]
      exact hr key value
    · rw [kept n key _ hn, Ideal.relation_add_ne a r hn]
      exact h.relation n key value

theorem tick (h : Refines history s a) {c : Command K V}
    (hc : ∀ n key, c.discards n key = false) :
    Refines (history ++ [c]) { s with clock := s.clock + 1 } (a.tick c) := by
  refine h.viewing hc (h.tracked.tick hc) rfl (fun _ _ => rfl) (fun v hv _ => ⟨hv, rfl⟩) ?_
  rw [h.views]
  exact List.map_congr_left fun v hv => (LiveView.ideal_concat (h.tracked.since v hv) c).symm

/-- A write through a detached view reaches the views of its generation and nothing else. -/
theorem write (h : Refines history s a) {v : LiveView K} (hv : v ∈ s.views)
    (stale : ¬ v.Current history) (values : ValueSet V) :
    Refines history { s with store := s.store.setValues v.view.set values }
      (a.setRemnant (v.ideal history) values.toFinset) where
  tracked := h.tracked.write v.view.set values
  tables := h.tables
  generation := h.generation
  views := h.views
  relation m key value := by
    have detached := h.tracked.slot?_ne hv stale
    rw [Store.contents_setValues_of_detached detached]
    exact h.relation m key value
  remnant w hw stale' := by
    have same := h.tracked.shared w hw v hv
    by_cases e : w.ideal history = v.ideal history
    · obtain ⟨hm, hk, hg⟩ : w.home = v.home ∧ w.view.key = v.view.key ∧
          w.generation history = v.generation history := by simpa [LiveView.ideal] using e
      have allocated := h.tracked.wellFormed.heldAllocated _ (h.tracked.mem_held hv)
      rw [e, Ideal.remnant_setRemnant_self, Store.viewed, same.mpr ⟨hm, hk, hg⟩,
        Store.values_setValues_self s.store allocated]
    · have other : w.view.set ≠ v.view.set := fun hs => by
        obtain ⟨hm, hk, hg⟩ := same.mp hs
        exact e (by rw [LiveView.ideal, LiveView.ideal, hm, hk, hg])
      rw [Ideal.remnant_setRemnant_ne a e, Store.viewed, Store.values_setValues_ne s.store other]
      exact h.remnant w hw stale'
  unwritten u hu := by
    have other : u ≠ v.ideal history := by
      rintro rfl
      have hu : a.generation v.home v.view.key ≤ v.generation history := hu
      rw [h.generation] at hu
      exact stale (Nat.le_antisymm (v.generation_le history) hu)
    rw [Ideal.remnant_setRemnant_ne a other]
    exact h.unwritten u hu

theorem writeDetached (h : Refines history s a) {c : Command K V}
    (hc : ∀ n key, c.discards n key = false) {v : LiveView K} (hv : v ∈ s.views)
    (stale : ¬ v.Current history) (values : ValueSet V) :
    Refines (history ++ [c])
      { s with store := s.store.setValues v.view.set values, clock := s.clock + 1 }
      ((a.setRemnant (v.ideal history) values.toFinset).tick c) := by
  have since := h.tracked.since v hv
  have stale' : ¬ v.Current (history ++ [c]) := fun current =>
    stale ((LiveView.current_concat since c).mp current).1
  have written := (h.tick hc).write hv stale' values
  rwa [LiveView.ideal_concat since] at written

variable [DecidableEq V]

theorem changed (h : Refines history s a) {m : TableId} (d : Change K V) {c : Command K V}
    (hc : ∀ n key, c.discards n key = (n == m && d.discards key)) {t : Store K V}
    (e : Store.Effect s.store t 0 (d.edit m) fun n key => (n == m && d.discards key) = true) :
    Refines (history ++ [c]) { s with store := t, clock := s.clock + 1 }
      ((a.change m d).2.tick c) := by
  have e : Store.Effect s.store t 0 (d.edit m) fun n key => c.discards n key = true :=
    e.discarding fun n key => by rw [hc]
  refine h.effect e (fun n key values hd => ?_) rfl fun n key value => ?_
  · rw [hc, Bool.and_eq_true, beq_iff_eq] at hd
    obtain ⟨rfl, hd⟩ := hd
    exact Change.edit_of_discards hd values
  · by_cases hn : n = m
    · subst hn
      rw [Ideal.relation_change_self]
      exact Change.mem_onRelation (h.relation n) n d key value
    · rw [Ideal.relation_change_ne a hn, Change.edit_ne hn]
      exact h.relation n key value

theorem change (h : Refines history s a) {m : TableId} (hm : m.index < s.store.tables.size)
    (d : Change K V) {c : Command K V}
    (hc : ∀ n key, c.discards n key = (n == m && d.discards key)) :
    (s.store.apply m d).1 = (a.change m d).1 ∧
      Refines (history ++ [c]) { s with store := (s.store.apply m d).2, clock := s.clock + 1 }
        ((a.change m d).2.tick c) :=
  ⟨Store.apply_answer h.tracked.wellFormed hm (h.relation m) d,
    h.changed d hc (Store.apply_effect h.tracked.wellFormed hm d)⟩

-- ---------------------------------------------------------------------------
-- Steps and runs
-- ---------------------------------------------------------------------------

theorem insertInto (h : Refines history s a) {v : LiveView K} (hv : v ∈ s.views) (value : V)
    {c : Command K V} (hc : ∀ n key, c.discards n key = false) :
    Answer.flag (s.store.insertInto v.view value).1 = (a.insertInto (v.ideal history) value).1 ∧
      Refines (history ++ [c])
        { s with store := (s.store.insertInto v.view value).2, clock := s.clock + 1 }
        ((a.insertInto (v.ideal history) value).2.tick c) := by
  by_cases current : v.Current history
  · rw [Ideal.insertInto, if_pos ((h.attached_iff v).mpr current),
      Store.insertInto_of_slot? (h.tracked.slot?_eq hv current)]
    exact h.change (h.tracked.home v hv) (.put v.view.key value) fun n key => by
      simp [hc, Change.discards]
  · rw [Ideal.insertInto, if_neg fun e => current ((h.attached_iff v).mp e),
      h.remnant v hv current, ← ValueSet.toFinset_insert]
    exact ⟨by simp [Store.insertInto, Store.change, insertion, Store.viewed, ValueSet.contains],
      h.writeDetached hc hv current _⟩

theorem removeFrom (h : Refines history s a) {v : LiveView K} (hv : v ∈ s.views) (value : V)
    {c : Command K V} (hc : ∀ n key, c.discards n key = false) :
    Answer.flag (s.store.removeFrom v.view value).1 = (a.removeFrom (v.ideal history) value).1 ∧
      Refines (history ++ [c])
        { s with store := (s.store.removeFrom v.view value).2, clock := s.clock + 1 }
        ((a.removeFrom (v.ideal history) value).2.tick c) := by
  by_cases current : v.Current history
  · rw [Ideal.removeFrom, if_pos ((h.attached_iff v).mpr current),
      Store.removeFrom_of_slot? (h.tracked.slot?_eq hv current) (h.tracked.mem_held hv)]
    exact h.change (h.tracked.home v hv) (.remove v.view.key value) fun n key => by
      simp [hc, Change.discards]
  · rw [Ideal.removeFrom, if_neg fun e => current ((h.attached_iff v).mp e),
      h.remnant v hv current, ← ValueSet.toFinset_erase]
    exact ⟨by simp [Store.removeFrom, Store.change, removal, Store.viewed, ValueSet.contains],
      h.writeDetached hc hv current _⟩

omit [DecidableEq V] in
theorem changeAbsent (h : Refines history s a) {m : TableId}
    (hm : ¬ m.index < s.store.tables.size) (d : Change K V) :
    Refines (history ++ [.change m d]) { s with clock := s.clock + 1 } (a.tick (.change m d)) := by
  refine h.effect (c := .change m d) (Store.absent_effect h.tracked.wellFormed hm d)
    (fun n key values hd => ?_) rfl fun n key value => ?_
  · rw [Command.discards, Bool.and_eq_true, beq_iff_eq] at hd
    exact if_pos hd.1
  · have absent : n = m → s.store.contents n key = .empty := fun e =>
      Store.contents_of_slot?_eq_none (Store.slot?_of_size_le (e ▸ Nat.le_of_not_lt hm) key)
    rw [h.relation n key value]
    split
    · rw [absent ‹_›]
    · rfl

theorem get (h : Refines history s a) {m : TableId} (hm : m.index < s.store.tables.size) (key : K) :
    (s.step (.get m key)).1 = (a.step (.get m key)).1 ∧
      Refines (history ++ [.get m key]) (s.step (.get m key)).2 (a.step (.get m key)).2 := by
  have ha : m.index < a.tables := h.tables ▸ hm
  have tracked := h.tracked.step (.get m key)
  obtain ⟨found, -⟩ := Store.edits_slotFor h.tracked.wellFormed hm key
  simp only [Session.step, Session.perform, Ideal.step, Ideal.perform, if_pos hm, if_pos ha]
    at tracked ⊢
  refine ⟨trivial, h.viewing (c := .get m key) (fun _ _ => rfl) tracked found.tables found.contents
    (fun v hv stale => ?_) (congrArg₂ List.cons ?_ ?_)⟩
  · rcases List.mem_cons.mp hv with rfl | live
    · exact absurd (LiveView.current_of_since_eq (by simp [h.tracked.clock])) stale
    · rw [LiveView.current_concat (h.tracked.since v live)] at stale
      have stale : ¬ v.Current history := fun current => stale ⟨current, rfl⟩
      exact ⟨live, found.detached _ (h.tracked.mem_held live) (h.tracked.slot?_ne live stale)⟩
  · have now : (⟨m, (s.store.get m key).1, s.clock + 1⟩ : LiveView K).Current
        (history ++ [.get m key]) := LiveView.current_of_since_eq (by simp [h.tracked.clock])
    have generation := generation_concat history (.get m key) m key
    rw [← h.generation] at generation
    exact congrArg (IdealView.mk m key) (generation.symm.trans now.symm)
  · rw [h.views]
    exact List.map_congr_left fun v hv => (LiveView.ideal_concat (h.tracked.since v hv) _).symm

omit [DecidableEq V] in
theorem copyView (h : Refines history s a) {i : Nat} {v : LiveView K} (hi : s.views[i]? = some v) :
    Refines (history ++ [.copyView i])
      { store := s.store.acquire v.view.set, views := v :: s.views, clock := s.clock + 1 }
      ({ a with views := v.ideal history :: a.views } |>.tick (.copyView i)) := by
  have hv : v ∈ s.views := List.mem_of_getElem? hi
  have live : ∀ w ∈ v :: s.views, w ∈ s.views := List.forall_mem_cons.mpr ⟨hv, fun _ hw => hw⟩
  refine h.viewing (c := .copyView i) (fun _ _ => rfl) ((h.tracked.tick fun _ _ => rfl).copy hv) rfl
    (fun _ _ => rfl) (fun w hw _ => ⟨live w hw, rfl⟩) ?_
  have same : ∀ w ∈ v :: s.views, w.ideal history = w.ideal (history ++ [.copyView i]) :=
    fun w hw => (LiveView.ideal_concat (h.tracked.since w (live w hw)) _).symm
  rw [h.views]
  exact List.map_congr_left same

omit [DecidableEq V] in
theorem dropView (h : Refines history s a) {i : Nat} {v : LiveView K} (hi : s.views[i]? = some v) :
    Refines (history ++ [.dropView i])
      { store := s.store.release v.view.set, views := s.views.eraseIdx i, clock := s.clock + 1 }
      ({ a with views := a.views.eraseIdx i } |>.tick (.dropView i)) := by
  have live : ∀ w ∈ s.views.eraseIdx i, w ∈ s.views := fun _ => List.mem_of_mem_eraseIdx
  refine h.viewing (c := .dropView i) (fun _ _ => rfl) ((h.tracked.tick fun _ _ => rfl).drop hi) rfl
    (fun _ _ => rfl) (fun w hw _ => ⟨live w hw, rfl⟩) ?_
  rw [h.views, List.eraseIdx_map]
  exact List.map_congr_left fun w hw =>
    (LiveView.ideal_concat (h.tracked.since w (live w hw)) _).symm

theorem absentView (h : Refines history s a) {c : Command K V} {i : Nat} (hc : c.view? = some i)
    (hi : s.views[i]? = none) :
    (s.step c).1 = (a.step c).1 ∧ Refines (history ++ [c]) (s.step c).2 (a.step c).2 := by
  have ha : a.views[i]? = none := by rw [h.views_getElem?, hi, Option.map_none]
  rw [Session.step_of_absent_view hc hi, Ideal.step_of_absent_view hc ha]
  exact ⟨rfl, h.tick (Command.discards_of_view? hc)⟩

/-- A write through a view is a change of the multimap while the view is attached. -/
theorem step (h : Refines history s a) (c : Command K V) :
    (s.step c).1 = (a.step c).1 ∧ Refines (history ++ [c]) (s.step c).2 (a.step c).2 := by
  have hs := h.tracked.wellFormed
  cases c with
  | create =>
    refine ⟨rfl, h.add (c := .create) (fun _ _ => rfl) (Store.create_effect hs).2
      (fun _ _ _ _ => rfl) ?_⟩
    simp [Edit.unchanged]
  | collect pairs =>
    refine ⟨rfl, h.add (c := .collect pairs) (fun _ _ => rfl) (Store.createFrom_effect hs pairs).2
      (fun _ _ _ hn => if_neg hn) ?_⟩
    simp [ValueSet.mem_insertAll]
  | restore snapshot wellFormed =>
    refine ⟨rfl, h.add (c := .restore snapshot wellFormed) (fun _ _ => rfl)
      (Store.restore_effect hs wellFormed).2 (fun _ _ _ hn => if_neg hn) ?_⟩
    simp [Snapshot.mem_contents wellFormed]
  | change m d =>
    by_cases hm : m.index < s.store.tables.size
    · have ha : m.index < a.tables := h.tables ▸ hm
      simp only [Session.step, Session.perform, Ideal.step, Ideal.perform, if_pos hm, if_pos ha]
      exact h.change hm d fun _ _ => rfl
    · have ha : ¬ m.index < a.tables := h.tables ▸ hm
      simp only [Session.step, Session.perform, Ideal.step, Ideal.perform, if_neg hm, if_neg ha]
      exact ⟨trivial, h.changeAbsent hm d⟩
  | get m key =>
    by_cases hm : m.index < s.store.tables.size
    · exact h.get hm key
    · have ha : ¬ m.index < a.tables := h.tables ▸ hm
      simp only [Session.step, Session.perform, Ideal.step, Ideal.perform, if_neg hm, if_neg ha]
      exact ⟨trivial, h.tick (c := .get m key) fun _ _ => rfl⟩
  | copyView i =>
    cases hi : s.views[i]? with
    | none => exact h.absentView rfl hi
    | some v =>
      simp only [Session.step, Session.perform, Ideal.step, Ideal.perform, h.views_getElem?, hi,
        Option.map_some]
      exact ⟨trivial, h.copyView hi⟩
  | dropView i =>
    cases hi : s.views[i]? with
    | none => exact h.absentView rfl hi
    | some v =>
      simp only [Session.step, Session.perform, Ideal.step, Ideal.perform, hi]
      exact ⟨trivial, h.dropView hi⟩
  | insertInto i value =>
    cases hi : s.views[i]? with
    | none => exact h.absentView rfl hi
    | some v =>
      simp only [Session.step, Session.perform, Ideal.step, Ideal.perform, h.views_getElem?, hi,
        Option.map_some]
      exact h.insertInto (List.mem_of_getElem? hi) value (fun _ _ => rfl)
  | removeFrom i value =>
    cases hi : s.views[i]? with
    | none => exact h.absentView rfl hi
    | some v =>
      simp only [Session.step, Session.perform, Ideal.step, Ideal.perform, h.views_getElem?, hi,
        Option.map_some]
      exact h.removeFrom (List.mem_of_getElem? hi) value (fun _ _ => rfl)

theorem viewed_eq (h : Refines history s a) {v : LiveView K} (hv : v ∈ s.views) :
    (s.store.viewed v.view).toFinset = a.viewed (v.ideal history) := by
  by_cases current : v.Current history
  · rw [Ideal.viewed, if_pos ((h.attached_iff v).mpr current),
      Store.viewed_of_slot? (h.tracked.slot?_eq hv current)]
    exact ((h.relation v.home).valuesOf_eq v.view.key).symm
  · rw [Ideal.viewed, if_neg fun e => current ((h.attached_iff v).mp e), h.remnant v hv current]

end Refines

variable [DecidableEq V]

theorem refines_after (commands : List (Command K V)) :
    Session.answersTo commands = Ideal.answersTo commands ∧
      Refines commands (Session.after commands) (Ideal.after commands) :=
  run_simulates .empty (fun _ _ _ c h => h.step c) commands

/-- Every command is answered, and everything that can be read is read, as the relations say. The
snapshots that can be restored are those taken of a multimap, listed or merged. -/
theorem multimaps_are_relations (commands : List (Command K V)) :
    Session.answersTo commands = Ideal.answersTo commands ∧
    (∀ m, (Session.after commands).store.ReadsAs m ((Ideal.after commands).relation m)) ∧
    (Session.after commands).views.map
        (fun v => ((Session.after commands).store.viewed v.view).toFinset) =
      (Ideal.after commands).views.map (Ideal.after commands).viewed ∧
    (∀ m, ((Session.after commands).store.snapshot m).WellFormed) ∧
    ∀ entries : List (K × List V),
      (Snapshot.ofList entries).WellFormed ∧ (Snapshot.ofEntries entries).WellFormed := by
  obtain ⟨answers, h⟩ := refines_after commands
  have hs := h.tracked.wellFormed
  refine ⟨answers, fun m => (h.relation m).readsAs hs, ?_, Store.wellFormed_snapshot hs,
    fun entries => ⟨Snapshot.wellFormed_ofList entries, Snapshot.wellFormed_ofEntries entries⟩⟩
  rw [h.views, List.map_map]
  exact List.map_congr_left fun v hv => h.viewed_eq hv

end LiveCollections.Multimap
