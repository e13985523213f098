import LiveCollections.Multimap.Parallel
import LiveCollections.Proofs.Multimap.Attachment
import LiveCollections.Proofs.Multimap.Reading

/-!
# Puts under any schedule

A section of a put either finds no set and changes nothing, or inserts and answers whether
the value was new at that moment. It does not matter which of the two sections inserts, nor
what other threads did between them: the section that creates the set does the same where
another thread has created it meanwhile.

What is reported is therefore the same under every schedule that lets the threads finish.
The invariant is about all reports so far, in no order: the multimap holds what it held at
first and every pair that was reported, and of the reports of a pair that is new one says
so, and of the reports of any other pair none.
-/

namespace LiveCollections.Multimap

variable {K V : Type}

-- ---------------------------------------------------------------------------
-- Sections
-- ---------------------------------------------------------------------------

namespace Thread

variable [DecidableEq K] [DecidableEq V]
variable {s : Store K V} {m : TableId} {t : Thread K V} {key : K} {value : V} {rest : List (K × V)}

theorem step_creating (hp : t.pending = (key, value) :: rest) (missed : t.missed = true) :
    t.step s m = (t.answered (s.updateCreating m key (insertion value)).1,
      (s.updateCreating m key (insertion value)).2) := by
  simp [step, hp, missed]

theorem step_present (hp : t.pending = (key, value) :: rest) (missed : t.missed = false)
    {r : Bool × Store K V} (hr : s.updatePresent? m key (insertion value) = some r) :
    t.step s m = (t.answered r.1, r.2) := by
  simp [step, hp, missed, hr]

theorem step_absent (hp : t.pending = (key, value) :: rest) (missed : t.missed = false)
    (hr : s.updatePresent? m key (insertion value) = none) :
    t.step s m = ({ t with missed := true }, s) := by
  simp [step, hp, missed, hr]

theorem step_done (hp : t.pending = []) : t.step s m = (t, s) := by
  simp [step, hp]

/-- A section inserts the first of the pending pairs, or at most notes that its key has no set. -/
theorem step_cases (h : s.WellFormed) (hm : m.index < s.tables.size) (t : Thread K V) :
    (∃ missed, t.step s m = ({ t with missed := missed }, s)) ∨
    ∃ key value rest after, t.pending = (key, value) :: rest ∧
      t.step s m = (t.answered (!(s.contents m key).contains value), after) ∧
      Store.Edits s after (.under m key (·.insert value)) := by
  by_cases none : t.pending = []
  · exact .inl ⟨t.missed, step_done none⟩
  obtain ⟨⟨key, value⟩, rest, hp⟩ := List.exists_cons_of_ne_nil none
  cases missed : t.missed with
  | true =>
    obtain ⟨answer, effect⟩ := Store.updateCreating_effect h hm key (insertion value)
    have answered := step_creating (s := s) (m := m) hp missed
    rw [answer] at answered
    exact .inr ⟨key, value, rest, _, hp, answered, effect⟩
  | false =>
    cases hr : s.updatePresent? m key (insertion value) with
    | none => exact .inl ⟨true, step_absent hp missed hr⟩
    | some r =>
      obtain ⟨answer, effect⟩ := Store.updatePresent?_effect h hr
      have answered := step_present hp missed hr
      rw [answer] at answered
      exact .inr ⟨key, value, rest, _, hp, answered, effect⟩

end Thread

-- ---------------------------------------------------------------------------
-- Reports
-- ---------------------------------------------------------------------------

def Thread.reports (pairs : List (K × V)) (t : Thread K V) : List ((K × V) × Bool) :=
  pairs.zip t.answers.reverse

def reports (lists : List (List (K × V))) (threads : List (Thread K V)) :
    List ((K × V) × Bool) := (List.zipWith Thread.reports lists threads).flatten

def Thread.Works (pairs : List (K × V)) (t : Thread K V) : Prop :=
  ∃ finished, pairs = finished ++ t.pending ∧ finished.length = t.answers.length

theorem Thread.Works.answered {pairs rest : List (K × V)} {t : Thread K V} {pair : K × V}
    (h : t.Works pairs) (hp : t.pending = pair :: rest) (answer : Bool) :
    (t.answered answer).Works pairs ∧
      (t.answered answer).reports pairs = t.reports pairs ++ [(pair, answer)] := by
  obtain ⟨finished, rfl, count⟩ := h
  have lengths : finished.length = t.answers.reverse.length := by rw [List.length_reverse, count]
  constructor
  · exact ⟨finished ++ [pair], by simp [Thread.answered, hp], by simp [Thread.answered, count]⟩
  · have before : (finished ++ pair :: rest).zip t.answers.reverse =
        finished.zip t.answers.reverse := by
      have zipped : (finished ++ pair :: rest).zip (t.answers.reverse ++ []) =
          finished.zip t.answers.reverse ++ (pair :: rest).zip [] := List.zip_append lengths
      simpa using zipped
    simp only [Thread.reports, Thread.answered, hp, List.reverse_cons, before]
    rw [List.zip_append lengths]
    simp

theorem reports_cons (pairs : List (K × V)) (lists : List (List (K × V))) (t : Thread K V)
    (threads : List (Thread K V)) :
    reports (pairs :: lists) (t :: threads) = t.reports pairs ++ reports lists threads := rfl

theorem works_set {lists : List (List (K × V))} {threads : List (Thread K V)}
    (h : List.Forall₂ Thread.Works lists threads) {i : Nat} {t : Thread K V}
    (ht : threads[i]? = some t) :
    ∃ pairs, t.Works pairs ∧ ∀ u more, Thread.Works pairs u →
      u.reports pairs = t.reports pairs ++ more →
      List.Forall₂ Thread.Works lists (threads.set i u) ∧
        (reports lists (threads.set i u)).Perm (more ++ reports lists threads) := by
  induction h generalizing i with
  | nil => cases ht
  | @cons pairs first lists threads works rest ih =>
    cases i with
    | zero =>
      cases ht
      refine ⟨pairs, works, fun u more hu hr => ⟨.cons hu rest, ?_⟩⟩
      rw [List.set_cons_zero, reports_cons, reports_cons, hr, List.append_assoc]
      exact List.perm_append_comm_assoc ..
    | succ i =>
      obtain ⟨others, working, set⟩ := ih ht
      refine ⟨others, working, fun u more hu hr => ?_⟩
      obtain ⟨work, perm⟩ := set u more hu hr
      refine ⟨.cons works work, ?_⟩
      rw [List.set_cons_succ, reports_cons, reports_cons]
      exact (perm.append_left _).trans (List.perm_append_comm_assoc ..)

def starting (lists : List (List (K × V))) : List (Thread K V) :=
  lists.map fun pairs => { pending := pairs }

theorem works_starting (lists : List (List (K × V))) :
    List.Forall₂ Thread.Works lists (starting lists) := by
  induction lists with
  | nil => exact .nil
  | cons pairs lists ih => exact .cons ⟨[], rfl, rfl⟩ ih

theorem reports_starting (lists : List (List (K × V))) : reports lists (starting lists) = [] := by
  induction lists with
  | nil => rfl
  | cons pairs lists ih =>
    have first : Thread.reports pairs ({ pending := pairs } : Thread K V) = [] := List.zip_nil_right
    rw [starting, List.map_cons, reports_cons, first]
    exact ih

variable {lists : List (List (K × V))} {threads : List (Thread K V)}

theorem Thread.Works.length_answers {pairs : List (K × V)} {t : Thread K V} (h : t.Works pairs)
    (done : t.pending = []) : t.answers.length = pairs.length := by
  obtain ⟨finished, rfl, count⟩ := h
  rw [done, List.append_nil, count]

theorem all_answered (h : List.Forall₂ Thread.Works lists threads)
    (done : ∀ t ∈ threads, t.pending = []) :
    List.Forall₂ (fun pairs t => t.answers.length = pairs.length) lists threads := by
  induction h with
  | nil => exact .nil
  | cons works rest ih =>
    obtain ⟨first, others⟩ := List.forall_mem_cons.mp done
    exact .cons (works.length_answers first) (ih others)

theorem map_fst_reports
    (h : List.Forall₂ (fun pairs t => t.answers.length = pairs.length) lists threads) :
    (reports lists threads).map Prod.fst = lists.flatten := by
  induction h with
  | nil => rfl
  | @cons pairs t _ _ same rest ih =>
    have first : (t.reports pairs).map Prod.fst = pairs :=
      List.map_fst_zip (by rw [List.length_reverse, same])
    rw [reports_cons, List.map_append, first, ih, List.flatten_cons]

theorem count_answers
    (h : List.Forall₂ (fun pairs t => t.answers.length = pairs.length) lists threads) :
    (threads.flatMap Thread.answers).count true = ((reports lists threads).map Prod.snd).count true := by
  induction h with
  | nil => rfl
  | @cons pairs t _ _ same rest ih =>
    have first : (t.reports pairs).map Prod.snd = t.answers.reverse :=
      List.map_snd_zip (by rw [List.length_reverse, same])
    rw [reports_cons, List.map_append, List.count_append, first, List.count_reverse, ← ih,
      List.flatMap_cons, List.count_append]

-- ---------------------------------------------------------------------------
-- What is left to do
-- ---------------------------------------------------------------------------

/-- As many sections as the thread can still need. -/
def Thread.sections (t : Thread K V) : Nat := 2 * t.pending.length - t.missed.toNat

theorem Thread.pending_of_sections {t : Thread K V} (h : t.sections = 0) : t.pending = [] := by
  have most : t.missed.toNat ≤ 1 := Bool.toNat_le _
  unfold sections at h
  exact List.length_eq_zero_iff.mp (by omega)

theorem Thread.sections_answered (t : Thread K V) (answer : Bool) :
    (t.answered answer).sections = 2 * (t.pending.length - 1) := by
  rw [sections, answered, List.length_tail, Bool.toNat_false, Nat.sub_zero]

theorem le_count_inTurn {i : Nat} {pairs : List (K × V)} (h : lists[i]? = some pairs) :
    2 * pairs.length ≤ (inTurn lists).count i := by
  have listed : (pairs, i) ∈ lists.zipIdx := List.mem_zipIdx_iff_getElem?.mpr h
  have own : (List.replicate (2 * pairs.length) i).Sublist (inTurn lists) := by
    unfold inTurn
    rw [List.flatMap]
    exact List.sublist_flatten_of_mem (List.mem_map_of_mem listed)
  calc 2 * pairs.length = (List.replicate (2 * pairs.length) i).count i :=
        List.count_replicate_self.symm
    _ ≤ (inTurn lists).count i := own.count_le i

variable [DecidableEq K] [DecidableEq V]

-- ---------------------------------------------------------------------------
-- What reports say
-- ---------------------------------------------------------------------------

/-- The multimap has the pairs that it had at the start and those reported. One report of each new
pair says that it is new, and no report of another pair. -/
structure Tally (start s : Store K V) (m : TableId) (reported : List ((K × V) × Bool)) : Prop where
  contents : ∀ key value, value ∈ s.contents m key ↔
    value ∈ start.contents m key ∨ (key, value) ∈ reported.map Prod.fst
  answers : ∀ key value, reported.count ((key, value), true) =
    if value ∈ start.contents m key ∨ (key, value) ∉ reported.map Prod.fst then 0 else 1

namespace Tally

variable {start s : Store K V} {m : TableId} {reported others : List ((K × V) × Bool)}

theorem nil (start : Store K V) (m : TableId) : Tally start start m [] where
  contents := by simp
  answers := by simp

theorem perm (h : Tally start s m reported) (hp : reported.Perm others) :
    Tally start s m others where
  contents key value := by
    rw [h.contents, (hp.map Prod.fst).mem_iff]
  answers key value := by
    simp only [← hp.count_eq, h.answers, (hp.map Prod.fst).mem_iff]

theorem report (h : Tally start s m reported) {t : Store K V} {key : K} {value : V}
    (inserted : Store.Edits s t (.under m key (·.insert value))) :
    Tally start t m (((key, value), !(s.contents m key).contains value) :: reported) where
  contents k v := by
    rw [inserted.contents, List.map_cons, List.mem_cons]
    unfold Edit.under
    by_cases hk : k = key
    · subst hk
      simp [h.contents, or_left_comm]
    · simp [hk, h.contents]
  answers k v := by
    have before := h.answers k v
    have known := h.contents k v
    by_cases same : (k, v) = (key, value)
    · cases same
      by_cases present : value ∈ s.contents m key
      · -- it was there at the start, or an earlier report says that it is new
        have answer : (s.contents m key).contains value = true :=
          ValueSet.contains_eq_true_iff.mpr present
        rw [answer, Bool.not_true, List.count_cons_of_ne (by simp), before]
        rcases known.mp present with old | reported
        · simp [old]
        · simp [reported]
      · obtain ⟨fresh, unreported⟩ := not_or.mp fun h => present (known.mpr h)
        have answer : (s.contents m key).contains value = false := by
          simpa [ValueSet.contains] using present
        rw [answer, Bool.not_false, List.count_cons_self, before]
        simp [fresh, unreported]
    · have other : ((key, value), !(s.contents m key).contains value) ≠ ((k, v), true) :=
        fun e => same (congrArg Prod.fst e).symm
      rw [List.count_cons_of_ne other, before]
      simp only [List.map_cons, List.mem_cons, same, false_or]

end Tally

theorem count_true_eq_card {answered : List ((K × V) × Bool)} {fresh : Finset (K × V)}
    (h : ∀ pair, answered.count (pair, true) = if pair ∈ fresh then 1 else 0) :
    (answered.map Prod.snd).count true = fresh.card := by
  have news : (answered.filter Prod.snd).Perm (fresh.toList.map fun pair => (pair, true)) := by
    refine List.perm_iff_count.mpr fun (pair, new) => ?_
    cases new with
    | false => rw [List.count_eq_zero.mpr (by simp), List.count_eq_zero.mpr (by simp)]
    | true =>
      rw [List.count_filter rfl, h, List.count_map_of_injective _ _ (Prod.mk_left_injective true),
        fresh.nodup_toList.count]
      simp
  calc (answered.map Prod.snd).count true = (answered.filter Prod.snd).length := by
        rw [List.count, List.countP_map, List.countP_eq_length_filter]
        simp [Function.comp_def]
    _ = fresh.card := by rw [news.length_eq, List.length_map, Finset.length_toList]

-- ---------------------------------------------------------------------------
-- Turns
-- ---------------------------------------------------------------------------

def takeTurn (m : TableId) (state : List (Thread K V) × Store K V) (turn : Nat) :
    List (Thread K V) × Store K V :=
  match state.1[turn]? with
  | none => state
  | some t => (state.1.set turn (t.step state.2 m).1, (t.step state.2 m).2)

theorem runSchedule_eq_foldl (m : TableId) (turns : List Nat)
    (state : List (Thread K V) × Store K V) :
    runSchedule m turns state = turns.foldl (takeTurn m) state := by
  induction turns generalizing state with
  | nil => rfl
  | cons turn turns ih =>
    rw [List.foldl_cons, ← ih, runSchedule, takeTurn]
    cases state.1[turn]? <;> rfl

theorem takeTurn_some {m : TableId} {state : List (Thread K V) × Store K V} {turn : Nat}
    {t : Thread K V} (ht : state.1[turn]? = some t) :
    takeTurn m state turn = (state.1.set turn (t.step state.2 m).1, (t.step state.2 m).2) := by
  rw [takeTurn, ht]

theorem takeTurn_none {m : TableId} {state : List (Thread K V) × Store K V} {turn : Nat}
    (ht : state.1[turn]? = none) : takeTurn m state turn = state := by
  rw [takeTurn, ht]

theorem takeTurn_self {m : TableId} {state : List (Thread K V) × Store K V} {turn : Nat}
    {t : Thread K V} (ht : state.1[turn]? = some t) :
    (takeTurn m state turn).1[turn]? = some (t.step state.2 m).1 := by
  obtain ⟨lt, -⟩ := List.getElem?_eq_some_iff.mp ht
  rw [takeTurn_some ht, List.getElem?_set_self lt]

theorem takeTurn_ne (m : TableId) (state : List (Thread K V) × Store K V) {turn i : Nat}
    (h : turn ≠ i) : (takeTurn m state turn).1[i]? = state.1[i]? := by
  cases ht : state.1[turn]? with
  | none => rw [takeTurn_none ht]
  | some t => rw [takeTurn_some ht, List.getElem?_set_ne h]

theorem Thread.sections_step (t : Thread K V) (s : Store K V) (m : TableId) :
    (t.step s m).1.sections ≤ t.sections - 1 := by
  cases hp : t.pending with
  | nil => simp [step_done hp, sections, hp]
  | cons pair rest =>
    obtain ⟨key, value⟩ := pair
    cases missed : t.missed with
    | true =>
      rw [step_creating hp missed, sections_answered, sections, hp, missed, List.length_cons,
        Bool.toNat_true]
      omega
    | false =>
      cases hr : s.updatePresent? m key (insertion value) with
      | none =>
        rw [step_absent hp missed hr]
        simp [sections, hp, missed]
      | some r =>
        rw [step_present hp missed hr, sections_answered, sections, hp, missed, List.length_cons,
          Bool.toNat_false]
        omega

theorem sections_run (m : TableId) (schedule : List Nat)
    {state : List (Thread K V) × Store K V} {i : Nat} {t : Thread K V} (ht : state.1[i]? = some t) :
    ∃ u, (runSchedule m schedule state).1[i]? = some u ∧
      u.sections ≤ t.sections - schedule.count i := by
  simp only [runSchedule_eq_foldl]
  induction schedule generalizing state t with
  | nil => exact ⟨t, ht, Nat.le_refl _⟩
  | cons turn schedule ih =>
    by_cases own : turn = i
    · subst own
      obtain ⟨u, hu, fewer⟩ := ih (takeTurn_self ht)
      have one := t.sections_step state.2 m
      refine ⟨u, hu, ?_⟩
      rw [List.count_cons_self]
      omega
    · obtain ⟨u, hu, fewer⟩ := ih ((takeTurn_ne m state own).trans ht)
      refine ⟨u, hu, ?_⟩
      rwa [List.count_cons_of_ne own]

-- ---------------------------------------------------------------------------
-- Every schedule
-- ---------------------------------------------------------------------------

def missing (s : Store K V) (m : TableId) (lists : List (List (K × V))) : Finset (K × V) :=
  lists.flatten.toFinset \ (s.pairs m).toFinset

theorem mem_missing {s : Store K V} {m : TableId} {lists : List (List (K × V))} {pair : K × V} :
    pair ∈ missing s m lists ↔ pair ∈ lists.flatten ∧ pair ∉ s.pairs m := by
  rw [missing, Finset.mem_sdiff, List.mem_toFinset, List.mem_toFinset]

structure Interleaved (start : Store K V) (m : TableId) (lists : List (List (K × V)))
    (state : List (Thread K V) × Store K V) : Prop where
  kept : ∃ edit, Store.Edits start state.2 edit ∧
    ∀ n, n ≠ m → ∀ key values, edit n key values = values
  works : List.Forall₂ Thread.Works lists state.1
  tally : Tally start state.2 m (reports lists state.1)

namespace Interleaved

variable {start : Store K V} {m : TableId} {lists : List (List (K × V))}
  {state : List (Thread K V) × Store K V}

theorem init (h : start.WellFormed) (m : TableId) (lists : List (List (K × V))) :
    Interleaved start m lists (starting lists, start) where
  kept := ⟨.unchanged, .refl h, fun _ _ _ _ => rfl⟩
  works := works_starting lists
  tally := reports_starting lists ▸ .nil start m

theorem takeTurn (h : Interleaved start m lists state) (hm : m.index < start.tables.size)
    (turn : Nat) : Interleaved start m lists (takeTurn m state turn) := by
  obtain ⟨edit, kept, elsewhere⟩ := h.kept
  cases ht : state.1[turn]? with
  | none =>
    rw [takeTurn_none ht]
    exact h
  | some t =>
    obtain ⟨pairs, works, set⟩ := works_set h.works ht
    rw [takeTurn_some ht]
    rcases Thread.step_cases kept.wellFormed (Nat.lt_of_lt_of_eq hm kept.tables.symm) t with
      ⟨missed, waits⟩ | ⟨key, value, rest, after, hp, inserts, effect⟩
    · rw [waits]
      obtain ⟨works, same⟩ := set { t with missed := missed } [] works (List.append_nil _).symm
      exact ⟨⟨edit, kept, elsewhere⟩, works, h.tally.perm same.symm⟩
    · rw [inserts]
      obtain ⟨works, one⟩ := works.answered hp (!(state.2.contents m key).contains value)
      obtain ⟨works, more⟩ := set _ _ works one
      refine ⟨⟨_, kept.then effect, fun n hn k values => ?_⟩, works,
        (h.tally.report effect).perm more.symm⟩
      rw [elsewhere n hn, Edit.under, if_neg fun here => hn here.1]

theorem run (h : Interleaved start m lists state) (hm : m.index < start.tables.size)
    (schedule : List Nat) : Interleaved start m lists (runSchedule m schedule state) := by
  rw [runSchedule_eq_foldl]
  induction schedule generalizing state with
  | nil => exact h
  | cons turn schedule ih => exact ih (h.takeTurn hm turn)

theorem done {schedule : List Nat} {s : Store K V}
    (h : Interleaved start m lists (runSchedule m schedule (starting lists, s)))
    (enough : ∀ i pairs, lists[i]? = some pairs → 2 * pairs.length ≤ schedule.count i) :
    ∀ t ∈ (runSchedule m schedule (starting lists, s)).1, t.pending = [] := by
  intro t ht
  obtain ⟨i, hi, rfl⟩ := List.mem_iff_getElem.mp ht
  have given : i < lists.length := h.works.length_eq ▸ hi
  have first : (starting lists, s).1[i]? = some { pending := lists[i] } := by
    simp [starting, given]
  obtain ⟨u, hu, fewer⟩ := sections_run m schedule first
  obtain rfl : _ = u := Option.some.inj ((List.getElem?_eq_getElem hi).symm.trans hu)
  have turns := enough i _ (List.getElem?_eq_getElem given)
  have left := fewer.trans (Nat.le_of_eq (Nat.sub_eq_zero_of_le turns))
  exact Thread.pending_of_sections (Nat.le_zero.mp left)

theorem mem_pairs (h : Interleaved start m lists state) (hs : start.WellFormed)
    (done : ∀ t ∈ state.1, t.pending = []) (pair : K × V) :
    pair ∈ state.2.pairs m ↔ pair ∈ start.pairs m ∨ pair ∈ lists.flatten := by
  obtain ⟨_, kept, -⟩ := h.kept
  obtain ⟨key, value⟩ := pair
  rw [Store.mem_pairs kept.wellFormed, h.tally.contents, Store.mem_pairs hs,
    map_fst_reports (all_answered h.works done)]

theorem count_reports (h : Interleaved start m lists state) (hs : start.WellFormed)
    (done : ∀ t ∈ state.1, t.pending = []) (pair : K × V) :
    (reports lists state.1).count (pair, true) = if pair ∈ missing start m lists then 1 else 0 := by
  obtain ⟨key, value⟩ := pair
  have absent : ¬ (key, value) ∈ missing start m lists ↔
      value ∈ start.contents m key ∨ (key, value) ∉ lists.flatten := by
    rw [mem_missing, not_and_or, not_not, Store.mem_pairs hs, or_comm]
  rw [h.tally.answers, map_fst_reports (all_answered h.works done)]
  simp only [← absent, ite_not]

theorem count_new (h : Interleaved start m lists state) (hs : start.WellFormed)
    (done : ∀ t ∈ state.1, t.pending = []) :
    (state.1.flatMap Thread.answers).count true = (missing start m lists).card := by
  rw [count_answers (all_answered h.works done)]
  exact count_true_eq_card (h.count_reports hs done)

end Interleaved

-- ---------------------------------------------------------------------------
-- The main result
-- ---------------------------------------------------------------------------

open Session (after)

/-- However the threads are scheduled, the multimap ends up with every pair that any of them put,
and each pair that it did not have is reported as new by one put. -/
theorem parallel_puts_lose_nothing (commands : List (Command K V)) (m : TableId)
    (present : m.index < (after commands).store.tables.size) (lists : List (List (K × V)))
    (schedule : List Nat) :
    let start := (after commands).store
    let threads := (runSchedule m schedule (starting lists, start)).1
    let store := (runSchedule m schedule (starting lists, start)).2
    -- two turns for each pair are enough for all threads to be done, in whatever order they come
    ((∀ i pairs, lists[i]? = some pairs → 2 * pairs.length ≤ schedule.count i) →
      ∀ t ∈ threads, t.pending = []) ∧
    -- when all are done, the multimap has all that was there and all that was put
    ((∀ t ∈ threads, t.pending = []) →
      (∀ pair, pair ∈ store.pairs m ↔ pair ∈ start.pairs m ∨ pair ∈ lists.flatten) ∧
      -- each put is answered, and of the puts of each missing pair one is told that it is new
      List.Forall₂ (fun pairs t => t.answers.length = pairs.length) lists threads ∧
      (∀ pair, (reports lists threads).count (pair, true) =
        if pair ∈ missing start m lists then 1 else 0) ∧
      (threads.flatMap Thread.answers).count true = (missing start m lists).card) ∧
    -- at no time does a view lose its place, or another multimap change
    (∀ v ∈ (after commands).views, ∀ n key,
      store.slot? n key = some v.view.set ↔ start.slot? n key = some v.view.set) ∧
    (∀ n, n ≠ m → ∀ key, store.contents n key = start.contents n key) ∧
    -- in particular when the threads take turns
    (start.parallelPut m lists).1 = (missing start m lists).card := by
  intro start threads store
  have tracked := tracked_after commands
  have hs : start.WellFormed := tracked.wellFormed
  have every := (Interleaved.init hs m lists).run present
  have h := every schedule
  obtain ⟨edit, kept, elsewhere⟩ := h.kept
  refine ⟨h.done, fun done => ⟨h.mem_pairs hs done, all_answered h.works done,
    h.count_reports hs done, h.count_new hs done⟩, fun v hv n key => ?_, fun n hn key => ?_, ?_⟩
  · exact kept.slot?_eq (tracked.mem_held hv) n key
  · rw [kept.contents, elsewhere n hn]
  · have turns := every (inTurn lists)
    exact turns.count_new hs (turns.done fun i pairs given => le_count_inTurn given)

/-- Both threads find no set under 8 before either creates one. -/
theorem two_threads_miss_one_key :
    let start := (after [.create, .get ⟨0⟩ 7] : Session Nat Nat).store
    let lists := [[(8, 2), (7, 1)], [(8, 2)]]
    let (threads, store) := runSchedule ⟨0⟩ [0, 1, 0, 1, 0] (starting lists, start)
    threads.map Thread.answers = [[true, true], [false]] ∧ (8, 2) ∈ store.pairs ⟨0⟩ ∧
      (start.parallelPut ⟨0⟩ lists).1 = 2 := by
  have h := parallel_puts_lose_nothing ([.create, .get ⟨0⟩ 7] : List (Command Nat Nat)) ⟨0⟩
    (by decide) [[(8, 2), (7, 1)], [(8, 2)]] [0, 1, 0, 1, 0]
  exact ⟨rfl, ((h.2.1 (by decide)).1 (8, 2)).mpr (by decide), h.2.2.2.2⟩

end LiveCollections.Multimap
