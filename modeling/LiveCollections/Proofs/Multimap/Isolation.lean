import LiveCollections.Proofs.Multimap.Attachment

/-!
# What is done elsewhere

A multimap owns the sets in its slots and those that its views hold. No set has two
owners, so a command that goes through one multimap, or through a view that was taken
from it, writes to no set of another. It leaves the other as it was: its contents, which
views of it there are, what they read, and which of them are attached.

Whether a command goes through a multimap depends on the session that runs it, because
views are named by their place. A list of commands is therefore judged along its run.
-/

namespace LiveCollections.Multimap

variable {K V : Type} [DecidableEq K] {history : List (Command K V)} {s t u : Session K V}
  {m n : TableId}

/-- A set in a slot of the multimap, or one that a view of it holds. -/
def Session.Owns (s : Session K V) (m : TableId) (id : SetId) : Prop :=
  (∃ key, s.store.slot? m key = some id) ∨ ∃ v ∈ s.views, v.home = m ∧ v.view.set = id

theorem Tracked.owner_unique (h : Tracked history s) {id : SetId} (hm : s.Owns m id)
    (hn : s.Owns n id) : m = n := by
  rcases hm with ⟨key, hk⟩ | ⟨v, hv, rfl, rfl⟩
  · rcases hn with ⟨other, ho⟩ | ⟨w, hw, rfl, rfl⟩
    · exact (h.wellFormed.apart ho hk).1
    · exact ((h.attached w hw m key).mp hk).1
  · rcases hn with ⟨other, ho⟩ | ⟨w, hw, rfl, same⟩
    · exact ((h.attached v hv n other).mp ho).1.symm
    · exact ((h.shared v hv w hw).mp same.symm).1

/-- Everything that a multimap and its views show is as it was. -/
structure Untouched (m : TableId) (s t : Session K V) : Prop where
  contents : ∀ key, t.store.contents m key = s.store.contents m key
  views : (t.views.filter fun v => v.home = m) = s.views.filter fun v => v.home = m
  viewed : ∀ v ∈ s.views, v.home = m → t.store.viewed v.view = s.store.viewed v.view
  attached : ∀ v ∈ s.views, v.home = m → ∀ key,
    t.store.slot? m key = some v.view.set ↔ s.store.slot? m key = some v.view.set

namespace Untouched

theorem refl (m : TableId) (s : Session K V) : Untouched m s s :=
  ⟨fun _ => rfl, rfl, fun _ _ _ => rfl, fun _ _ _ _ => Iff.rfl⟩

theorem mem_views (h : Untouched m s t) {v : LiveView K} (hv : v ∈ s.views) (hm : v.home = m) :
    v ∈ t.views := by
  have kept : v ∈ t.views.filter fun v => v.home = m := by
    rw [h.views]
    exact List.mem_filter.mpr ⟨hv, by simpa using hm⟩
  exact (List.mem_filter.mp kept).1

theorem trans (h : Untouched m s t) (h' : Untouched m t u) : Untouched m s u where
  contents key := (h'.contents key).trans (h.contents key)
  views := h'.views.trans h.views
  viewed v hv hm := (h'.viewed v (h.mem_views hv hm) hm).trans (h.viewed v hv hm)
  attached v hv hm key :=
    (h'.attached v (h.mem_views hv hm) hm key).trans (h.attached v hv hm key)

/-- An effect elsewhere: a view reads the set of its own multimap, or one that no multimap has. -/
theorem of_effect (h : Tracked history s) {store : Store K V} {created : Nat} {edit : Edit K V}
    {discards : TableId → K → Prop} (effect : Store.Effect s.store store created edit discards)
    (same : ∀ key values, edit m key values = values) (kept : ∀ key, ¬ discards m key)
    (clock : Nat) : Untouched m s { s with store, clock } where
  contents key := by rw [effect.contents, same]
  views := rfl
  viewed v hv hm := by
    subst hm
    by_cases current : v.Current history
    · have attached := effect.attached _ (h.mem_held hv) _ _ (h.slot?_eq hv current)
      rwa [same] at attached
    · exact effect.detached _ (h.mem_held hv) (h.slot?_ne hv current)
  attached v hv _ key := by
    rw [effect.slots _ (h.mem_held hv), and_iff_left (kept key)]

theorem of_views {views : List (LiveView K)} {held : List SetId} {clock : Nat}
    (same : (views.filter fun v => v.home = m) = s.views.filter fun v => v.home = m) :
    Untouched m s { s with store := { s.store with held }, views, clock } where
  contents _ := rfl
  views := same
  viewed _ _ _ := rfl
  attached _ _ _ _ := Iff.rfl

theorem of_write (h : Tracked history s) {v : LiveView K} (hv : v ∈ s.views)
    (elsewhere : v.home ≠ m) (values : ValueSet V) (clock : Nat) :
    Untouched m s { s with store := s.store.setValues v.view.set values, clock } where
  contents key := Store.contents_setValues_ne
    (fun hs => elsewhere ((h.attached v hv m key).mp hs).1.symm) values
  views := rfl
  viewed w hw hm := by
    refine Store.values_setValues_ne s.store (fun same => elsewhere ?_) values
    exact ((h.shared w hw v hv).mp same).1.symm.trans hm
  attached _ _ _ _ := Iff.rfl

end Untouched

-- ---------------------------------------------------------------------------
-- Commands that go through other multimaps
-- ---------------------------------------------------------------------------

variable [DecidableEq V]

namespace Session

/-- The command does not go through `m`, neither by name nor through a view of it. -/
def Spares (s : Session K V) (m : TableId) : Command K V → Prop
  | .create | .collect _ | .restore .. => True
  | .change n _ | .get n _ => n ≠ m
  | .copyView i | .dropView i | .insertInto i _ | .removeFrom i _ =>
    ∀ v ∈ s.views[i]?, v.home ≠ m

def SparedBy (s : Session K V) (m : TableId) : List (Command K V) → Prop
  | [] => True
  | c :: cs => s.Spares m c ∧ (s.step c).2.SparedBy m cs

instance (s : Session K V) (m : TableId) (c : Command K V) : Decidable (s.Spares m c) :=
  match c with
  | .create | .collect _ | .restore .. => .isTrue trivial
  | .change n _ | .get n _ => inferInstanceAs (Decidable (n ≠ m))
  | .copyView i | .dropView i | .insertInto i _ | .removeFrom i _ =>
    inferInstanceAs (Decidable (∀ v ∈ s.views[i]?, v.home ≠ m))

instance decidableSparedBy : (s : Session K V) → (m : TableId) → (cs : List (Command K V)) →
    Decidable (s.SparedBy m cs)
  | _, _, [] => .isTrue trivial
  | s, m, c :: cs =>
    have := decidableSparedBy (s.step c).2 m cs
    inferInstanceAs (Decidable (s.Spares m c ∧ (s.step c).2.SparedBy m cs))

theorem size_tables_step (h : s.store.WellFormed) (c : Command K V) :
    s.store.tables.size ≤ (s.step c).2.store.tables.size := by
  rw [(grown_step h c).2]
  exact Nat.le_add_right ..

end Session

omit [DecidableEq K] [DecidableEq V] in
theorem filter_home_eraseIdx {views : List (LiveView K)} {i : Nat} {v : LiveView K}
    (hi : views[i]? = some v) (elsewhere : v.home ≠ m) :
    ((views.eraseIdx i).filter fun v => v.home = m) = views.filter fun v => v.home = m := by
  induction views generalizing i with
  | nil => rfl
  | cons w views ih =>
    cases i with
    | zero =>
      cases hi
      simp [elsewhere]
    | succ i =>
      rw [List.eraseIdx_cons_succ, List.filter_cons, List.filter_cons, ih hi]

namespace Untouched

theorem absentView {c : Command K V} {i : Nat} (hc : c.view? = some i) (hi : s.views[i]? = none) :
    Untouched m s (s.step c).2 := by
  rw [Session.step_of_absent_view hc hi]
  exact of_views rfl

theorem step (h : Tracked history s) (hm : m.index < s.store.tables.size) {c : Command K V}
    (spared : s.Spares m c) : Untouched m s (s.step c).2 := by
  have hs := h.wellFormed
  -- a new multimap gets the first free place, which is not that of `m`
  have old : m ≠ ⟨s.store.tables.size⟩ := by
    rintro rfl
    exact Nat.lt_irrefl _ hm
  cases c with
  | create => exact of_effect h (Store.create_effect hs).2 (fun _ _ => rfl) (fun _ => id) _
  | collect pairs =>
    exact of_effect h (Store.createFrom_effect hs pairs).2 (fun _ _ => if_neg old) (fun _ => id) _
  | restore snapshot wellFormed =>
    exact of_effect h (Store.restore_effect hs wellFormed).2 (fun _ _ => if_neg old) (fun _ => id) _
  | change n c =>
    have other : m ≠ n := Ne.symm spared
    simp only [Session.step, Session.perform]
    split
    · rename_i hn
      refine of_effect h (Store.apply_effect hs hn c) (fun key values => ?_) (fun key => ?_) _
      · exact Change.edit_ne other c key values
      · simp [other]
    · exact of_views rfl
  | get n key =>
    simp only [Session.step, Session.perform]
    split
    · rename_i hn
      have found := of_effect h (m := m) (Store.edits_slotFor hs hn key).1 (fun _ _ => rfl)
        (fun _ => id) s.clock
      refine found.trans (of_views ?_)
      simp [show n ≠ m from spared]
    · exact of_views rfl
  | copyView i =>
    cases hi : s.views[i]? with
    | none => exact absentView rfl hi
    | some v =>
      simp only [Session.step, Session.perform, hi]
      exact of_views (by simp [spared v hi])
  | dropView i =>
    cases hi : s.views[i]? with
    | none => exact absentView rfl hi
    | some v =>
      simp only [Session.step, Session.perform, hi]
      exact of_views (filter_home_eraseIdx hi (spared v hi))
  | insertInto i value | removeFrom i value =>
    cases hi : s.views[i]? with
    | none => exact absentView rfl hi
    | some v =>
      simp only [Session.step, Session.perform, hi]
      exact of_write h (List.mem_of_getElem? hi) (spared v hi) _ _

theorem run (h : Tracked history s) (hm : m.index < s.store.tables.size) {cs : List (Command K V)}
    (spared : s.SparedBy m cs) : Untouched m s (run Session.step s cs).2 := by
  induction cs generalizing history s with
  | nil => exact refl m s
  | cons c cs ih =>
    have grown := Session.size_tables_step h.wellFormed c
    exact (step h hm spared.1).trans (ih (h.step c) (Nat.lt_of_lt_of_le hm grown) spared.2)

end Untouched

end LiveCollections.Multimap
