import LiveCollections.Proofs.Multimap.Equality
import LiveCollections.Proofs.Multimap.Refinement
import Mathlib.Data.List.ReduceOption

/-!
# Maintenance is invisible

Dropping the unused sets of a table changes how large the table is, and so when it will be
swept again and what that sweep will find. None of it can be noticed. A session that is
tidied at any moment refines the ideal session that it refined before, with the same
history, and whatever refines one ideal session answers alike from then on.

This is why an operation need not hold the table from its first look to its last. What a
removal does after it has taken the value out is maintenance, which may come as late as it
likes, or never; and the section that creates the set of a key does what the other section
does where the key has come to have a set.
-/

namespace LiveCollections.Multimap

variable {K V : Type} [DecidableEq K]

-- ---------------------------------------------------------------------------
-- Upkeep
-- ---------------------------------------------------------------------------

/-- What may be done to a table between two operations. -/
inductive Upkeep (K : Type)
  | prune (m : TableId) (key : K)
  | sweep (m : TableId)
  | threshold (m : TableId) (sweepAt : Nat)

namespace Store

variable {s : Store K V}

def tend (s : Store K V) : Upkeep K → Store K V
  | .prune m key => s.prune m key
  | .sweep m => s.sweep m
  | .threshold m sweepAt => s.setTable m { s.table m with sweepAt }

theorem tidied_tend (h : s.WellFormed) (u : Upkeep K) : Tidied s (s.tend u) := by
  cases u with
  | prune m key => exact tidied_prune h m key
  | sweep m => exact tidied_sweep s m
  | threshold m sweepAt => exact (Tidied.refl s).threshold m sweepAt

end Store

section Tidying

variable {history : List (Command K V)} {s : Session K V} {a : Ideal K V} {t : Store K V}

theorem Tracked.tidied (h : Tracked history s) (tidy : Store.Tidied s.store t) :
    Tracked history { s with store := t } where
  wellFormed := tidy.wellFormed h.wellFormed
  clock := h.clock
  held := tidy.held ▸ h.held
  since := h.since
  home v hv := by
    rw [tidy.tables]
    exact h.home v hv
  attached v hv m key := by
    rw [(tidy.edits h.wellFormed).slot?_eq (h.mem_held hv)]
    exact h.attached v hv m key
  shared := h.shared

theorem Refines.tidied (h : Refines history s a) (tidy : Store.Tidied s.store t) :
    Refines history { s with store := t } a where
  tracked := h.tracked.tidied tidy
  tables := h.tables.trans tidy.tables.symm
  generation := h.generation
  views := h.views
  relation m key value := by
    rw [(tidy.edits h.tracked.wellFormed).contents]
    exact h.relation m key value
  remnant v hv stale := by
    rw [Store.viewed, tidy.values]
    exact h.remnant v hv stale
  unwritten := h.unwritten

end Tidying

-- ---------------------------------------------------------------------------
-- Sections
-- ---------------------------------------------------------------------------

namespace Store

def getPresent? (s : Store K V) (m : TableId) (key : K) : Option (ValueView K × Store K V) :=
  (s.slot? m key).map fun id => (⟨key, id⟩, s.acquire id)

/-- The section that may create a set, where another section would have found one. -/
structure FindsPresent (s : Store K V) (m : TableId) (key : K) (id : SetId) : Prop where
  slotFor : s.slotFor m key = (id, s)
  update : ∀ {α : Type} (f : ValueSet V → α × ValueSet V),
    s.updatePresent? m key f = some (s.updateCreating m key f)
  get : s.getPresent? m key = some (s.get m key)

variable {s : Store K V} {m : TableId} {key : K}

theorem findsPresent {id : SetId} (h : s.slot? m key = some id) : s.FindsPresent m key id := by
  have found : s.slotFor m key = (id, s) := by rw [slotFor, h]
  refine ⟨found, fun f => ?_, ?_⟩
  · rw [updatePresent?, h, updateCreating, found]
    rfl
  · rw [getPresent?, h, Store.get, found]
    rfl

theorem updateCreating_eq_update {α : Type} (f : ValueSet V → α × ValueSet V) :
    s.updateCreating m key f = s.update m key f := by
  unfold update
  cases h : s.slot? m key with
  | some id => rw [(findsPresent h).update f, Option.getD_some]
  | none => rw [updatePresent?_eq_none_iff.mpr h, Option.getD_none]

end Store

variable [DecidableEq V]

-- ---------------------------------------------------------------------------
-- Sessions with upkeep
-- ---------------------------------------------------------------------------

/-- What may come next where operations are cut into sections. -/
inductive Happening (K V : Type)
  | command (c : Command K V)
  /-- A removal whose prune is left to come later, or not at all. -/
  | removal (m : TableId) (key : K) (value : V)
  | upkeep (u : Upkeep K)

def Happening.command? : Happening K V → Option (Command K V)
  | .command c => some c
  | .removal m key value => some (.change m (.remove key value))
  | .upkeep _ => none

def Session.live (s : Session K V) : Happening K V → Option (Answer V) × Session K V
  | .command c => (s.step c).map some id
  | .removal m key value =>
    if m.index < s.store.tables.size then
      let (removed, store) := s.store.strike m key value
      (some (.flag removed), { s with store, clock := s.clock + 1 })
    else (some .done, { s with clock := s.clock + 1 })
  | .upkeep u => (none, { s with store := s.store.tend u })

def Session.lived (happenings : List (Happening K V)) : Session K V :=
  (run Session.live {} happenings).2

def asked (happenings : List (Happening K V)) : List (Command K V) :=
  happenings.filterMap Happening.command?

namespace Refines

variable {history : List (Command K V)} {s t : Session K V} {a : Ideal K V}

theorem removal (h : Refines history s a) (m : TableId) (key : K) (value : V) :
    let c : Command K V := .change m (.remove key value)
    (s.live (.removal m key value)).1 = some (a.step c).1 ∧
      Refines (history ++ [c]) (s.live (.removal m key value)).2 (a.step c).2 := by
  by_cases hm : m.index < s.store.tables.size
  · have ha : m.index < a.tables := h.tables ▸ hm
    obtain ⟨answer, effect⟩ := Store.strike_effect h.tracked.wellFormed m key value
    rw [(h.relation m).contains_eq] at answer
    simp only [Session.live, Ideal.step, Ideal.perform, if_pos hm, if_pos ha, answer]
    refine ⟨rfl, h.changed (.remove key value) (fun _ _ => rfl) (effect.discarding fun n k => ?_)⟩
    simp [Store.never, Change.discards]
  · have ha : ¬ m.index < a.tables := h.tables ▸ hm
    simp only [Session.live, Ideal.step, Ideal.perform, if_neg hm, if_neg ha]
    exact ⟨trivial, h.changeAbsent hm (.remove key value)⟩

theorem live (h : Refines history s a) (x : Happening K V) :
    match x.command? with
    | some c =>
      (s.live x).1 = some (a.step c).1 ∧ Refines (history ++ [c]) (s.live x).2 (a.step c).2
    | none => (s.live x).1 = none ∧ Refines history (s.live x).2 a := by
  cases x with
  | command c =>
    obtain ⟨answer, after⟩ := h.step c
    exact ⟨congrArg some answer, after⟩
  | removal m key value => exact h.removal m key value
  | upkeep u => exact ⟨rfl, h.tidied (Store.tidied_tend h.tracked.wellFormed u)⟩

theorem run_live (h : Refines history s a) (happenings : List (Happening K V)) :
    let ideal := run Ideal.step a (asked happenings)
    (run Session.live s happenings).1.reduceOption = ideal.1 ∧
      Refines (history ++ asked happenings) (run Session.live s happenings).2 ideal.2 := by
  induction happenings generalizing history s a with
  | nil =>
    rw [asked, List.filterMap_nil, List.append_nil]
    exact ⟨rfl, h⟩
  | cons x happenings ih =>
    have first := h.live x
    unfold asked
    rw [run_cons, List.filterMap_cons]
    cases hx : x.command? with
    | some c =>
      rw [hx] at first
      obtain ⟨answer, after⟩ := first
      obtain ⟨answers, last⟩ := ih after
      rw [List.append_assoc] at last
      rw [answer, List.reduceOption_cons_of_some, run_cons]
      exact ⟨congrArg _ answers, last⟩
    | none =>
      rw [hx] at first
      obtain ⟨answer, after⟩ := first
      rw [answer, List.reduceOption_cons_of_none]
      exact ih after

end Refines

-- ---------------------------------------------------------------------------
-- Sessions that nobody can tell apart
-- ---------------------------------------------------------------------------

variable [Hash.Hashed K] [Hash.Hashed V]

def Session.shown (s : Session K V) (v : LiveView K) : TableId × K × Bool × Finset V :=
  (v.home, v.view.key, s.store.slot? v.home v.view.key == some v.view.set,
    (s.store.viewed v.view).toFinset)

structure Session.Alike (s t : Session K V) : Prop where
  tables : s.store.tables.size = t.store.tables.size
  reads : ∀ m, ∃ r, s.store.ReadsAs m r ∧ t.store.ReadsAs m r
  snapshots : ∀ m, (s.store.snapshot m).same (t.store.snapshot m) = true
  equality : ∀ m n, s.store.sameContents m n = t.store.sameContents m n
  hashes : ∀ m, s.store.contentHash m = t.store.contentHash m
  views : s.views.map s.shown = t.views.map t.shown
  /-- The same of the live views share storage. -/
  shares : s.views.map (fun v => s.views.map fun w => v.view.shares w.view) =
    t.views.map fun v => t.views.map fun w => v.view.shares w.view

namespace Refines

variable {history : List (Command K V)} {s t : Session K V} {a : Ideal K V}

omit [Hash.Hashed K] [Hash.Hashed V] in
theorem shown_eq (h : Refines history s a) : s.views.map s.shown =
    a.views.map fun v => (v.home, v.key, a.attached v, a.viewed v) := by
  rw [h.views, List.map_map]
  refine List.map_congr_left fun v hv => ?_
  have attached : (s.store.slot? v.home v.view.key == some v.view.set) =
      a.attached (v.ideal history) := by
    rw [Bool.eq_iff_iff, beq_iff_eq, h.attached_iff, h.tracked.attached v hv]
    simp
  rw [Session.shown, attached, h.viewed_eq hv]
  rfl

omit [DecidableEq V] [Hash.Hashed K] [Hash.Hashed V] in
theorem shares_eq (h : Refines history s a) :
    s.views.map (fun v => s.views.map fun w => v.view.shares w.view) =
      a.views.map fun v => a.views.map fun w => decide (v = w) := by
  rw [h.views, List.map_map]
  refine List.map_congr_left fun v hv => ?_
  rw [Function.comp, List.map_map]
  refine List.map_congr_left fun w hw => ?_
  rw [Function.comp, ValueView.shares, Bool.eq_iff_iff, beq_iff_eq, decide_eq_true_iff,
    h.tracked.shared v hv w hw, LiveView.ideal, LiveView.ideal, IdealView.mk.injEq]

omit [DecidableEq V] [Hash.Hashed K] [Hash.Hashed V] in
theorem mem_pairs_iff (h : Refines history s a) (h' : Refines history t a) (m : TableId)
    (pair : K × V) : pair ∈ s.store.pairs m ↔ pair ∈ t.store.pairs m := by
  rw [(h.relation m).mem_pairs h.tracked.wellFormed,
    (h'.relation m).mem_pairs h'.tracked.wellFormed]

theorem alike (h : Refines history s a) (h' : Refines history t a) : s.Alike t where
  tables := h.tables.symm.trans h'.tables
  reads m := ⟨a.relation m, (h.relation m).readsAs h.tracked.wellFormed,
    (h'.relation m).readsAs h'.tracked.wellFormed⟩
  snapshots m := by
    have hs := h.tracked.wellFormed
    have ht := h'.tracked.wellFormed
    refine (Snapshot.same_eq_true_iff (Store.wellFormed_snapshot hs m)
      (Store.wellFormed_snapshot ht m)).mpr fun key value => ?_
    rw [Store.mem_contents_snapshot hs, Store.mem_contents_snapshot ht]
    exact h.mem_pairs_iff h' m (key, value)
  equality m n := by
    rw [Bool.eq_iff_iff, Store.sameContents_eq_true_iff h.tracked.wellFormed,
      Store.sameContents_eq_true_iff h'.tracked.wellFormed]
    refine forall_congr' fun pair => ?_
    rw [h.mem_pairs_iff h' m, h.mem_pairs_iff h' n]
  hashes m := Store.contentHash_congr h.tracked.wellFormed h'.tracked.wellFormed
    (h.mem_pairs_iff h' m)
  views := h.shown_eq.trans h'.shown_eq.symm
  shares := h.shares_eq.trans h'.shares_eq.symm

end Refines

-- ---------------------------------------------------------------------------
-- The main result
-- ---------------------------------------------------------------------------

namespace Session

/-- From then on both are answered alike, and read alike in the end. -/
def SameFuture (s t : Session K V) (xs ys : List (Happening K V)) : Prop :=
  (run live s xs).1.reduceOption = (run live t ys).1.reduceOption ∧
    (run live s xs).2.Alike (run live t ys).2

structure Upkept (s : Session K V) : Prop where
  /-- The sets keep their values, the keys their values, and the views their sets. -/
  tended : ∀ u, (∀ id, (s.store.tend u).values id = s.store.values id) ∧
    (∀ m key, (s.store.tend u).contents m key = s.store.contents m key) ∧
    ∀ v ∈ s.views, ∀ m key,
      (s.store.tend u).slot? m key = some v.view.set ↔ s.store.slot? m key = some v.view.set
  unnoticed : ∀ u more, SameFuture { s with store := s.store.tend u } s more more
  present : ∀ {m key id}, s.store.slot? m key = some id → s.store.FindsPresent m key id
  /-- An update that has found no set goes on as if it had not looked, whatever has come between. -/
  late : ∀ {α : Type} m key (f : ValueSet V → α × ValueSet V),
    s.store.updateCreating m key f = s.store.update m key f
  /-- Beside taking the value out a removal does nothing but a prune. -/
  removal : ∀ m key value, s.store.remove m key value =
    let (removed, t) := s.store.strike m key value
    (removed, if removed && (t.contents m key).isEmpty then t.prune m key else t)
  delayed : ∀ m key value between more, SameFuture s s
    (.removal m key value :: between ++ .upkeep (.prune m key) :: more)
    (.command (.change m (.remove key value)) :: between ++ more)
  /-- Only what the callers have asked for counts. -/
  amount : ∀ xs ys, asked xs = asked ys → SameFuture s s xs ys

end Session

theorem Refines.sameFuture {history : List (Command K V)} {s t : Session K V} {a : Ideal K V}
    (h : Refines history s a) (h' : Refines history t a) {xs ys : List (Happening K V)}
    (same : asked xs = asked ys) : s.SameFuture t xs ys := by
  obtain ⟨answers, last⟩ := h.run_live xs
  obtain ⟨answers', last'⟩ := h'.run_live ys
  rw [same] at answers last
  exact ⟨answers.trans answers'.symm, last.alike last'⟩

theorem Refines.upkept {history : List (Command K V)} {s : Session K V} {a : Ideal K V}
    (h : Refines history s a) : s.Upkept where
  tended u := by
    have tidy := Store.tidied_tend h.tracked.wellFormed u
    have edits := tidy.edits h.tracked.wellFormed
    exact ⟨tidy.values, edits.contents, fun v hv => edits.slot?_eq (h.tracked.mem_held hv)⟩
  unnoticed u more :=
    (h.tidied (Store.tidied_tend h.tracked.wellFormed u)).sameFuture h rfl
  present := Store.findsPresent
  late _ _ f := Store.updateCreating_eq_update f
  removal := s.store.remove_eq_strike
  delayed m key value between more := h.sameFuture h (by
    simp only [asked, List.cons_append, List.filterMap_cons, List.filterMap_append,
      Happening.command?])
  amount _ _ same := h.sameFuture h same

/-- Wherever upkeep has been done and prunes have been left out, the callers are answered as if each
of their commands were one step and nothing else had happened; and so they will be. -/
theorem maintenance_is_invisible (happenings : List (Happening K V)) :
    let s := Session.lived happenings
    (run Session.live {} happenings).1.reduceOption = Session.answersTo (asked happenings) ∧
      s.Alike (Session.after (asked happenings)) ∧ s.Upkept := by
  obtain ⟨answers, refines⟩ := Refines.empty.run_live happenings
  obtain ⟨answers', refines'⟩ := refines_after (asked happenings)
  exact ⟨answers.trans answers'.symm, refines.alike refines', refines.upkept⟩

/-- The prune comes after the emptied key has been given a view, which it does not detach. -/
theorem prune_may_find_a_view :
    let happenings : List (Happening Int64 Int64) :=
      [.command .create, .command (.change ⟨0⟩ (.put 1 10)), .removal ⟨0⟩ 1 10,
        .command (.get ⟨0⟩ 1), .upkeep (.prune ⟨0⟩ 1), .command (.insertInto 0 11)]
    (run Session.live {} happenings).1.reduceOption = Session.answersTo (asked happenings) ∧
      (Session.lived happenings).store.pairs ⟨0⟩ = [(1, 11)] := by
  intro happenings
  exact ⟨(maintenance_is_invisible happenings).1, by decide +kernel⟩

end LiveCollections.Multimap
