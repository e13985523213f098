import LiveCollections.Proofs.Multimap.Isolation
import LiveCollections.Proofs.Multimap.Resizing

/-!
# What sweeps leave and what they cost

A slot is in use while its set has a value or a live view holds it. Slots fall out of use
with no trace in the table, and stay in it until a sweep. Still a table never has more than
twice as many slots as have been in use at one time, or sixteen; and a sweep looks at no
more than twice as many slots as have been created since the one before it.

Both are read off the course that a run takes the table through. The bound is kept turn by
turn. For the cost a table owes what a sweep could take beyond its creations: nothing after
a sweep, two more after each creation, and all its slots when the sweep is due.
-/

namespace LiveCollections

namespace Event

def examined : Event → Nat
  | .unusedSwept examined _ => examined
  | .valueSetCreated | .valueSetDetached _ | .multimapCleared _ | .contractViolated _ => 0

def totalExamined : List Event → Nat
  | [] => 0
  | event :: events => event.examined + totalExamined events

def creations (events : List Event) : Nat := events.count .valueSetCreated

@[simp] theorem creations_append (events more : List Event) :
    creations (events ++ more) = creations events + creations more := List.count_append ..

@[simp] theorem totalExamined_append (events more : List Event) :
    totalExamined (events ++ more) = totalExamined events + totalExamined more := by
  induction events with
  | nil => simp [totalExamined]
  | cons event events ih => simp [totalExamined, ih, Nat.add_assoc]

theorem totalExamined_of_quiet {events : List Event}
    (quiet : ∀ event ∈ events, event.resizes = false) : totalExamined events = 0 := by
  induction events with
  | nil => rfl
  | cons event events ih =>
    obtain ⟨first, rest⟩ := List.forall_mem_cons.mp quiet
    have none : event.examined = 0 := by
      cases event with
      | unusedSwept => cases first
      | _ => rfl
    simp [totalExamined, none, ih rest]

end Event

namespace Multimap

variable {K V : Type}

open Event (creations totalExamined)

-- ---------------------------------------------------------------------------
-- Bounds along a course
-- ---------------------------------------------------------------------------

section Courses

variable {used : Nat} {t u last : Table K} {events later : List Event}

structure Table.Bounded (used : Nat) (t : Table K) : Prop where
  slots : t.slots.length ≤ max sweepFloor (2 * used)
  threshold : t.sweepAt ≤ max sweepFloor (2 * used)

theorem Turn.bounded (turn : Turn used t events u) (h : t.Bounded used) : u.Bounded used := by
  obtain ⟨slots, threshold⟩ := h
  cases turn with
  | dropped fewer same quiet => exact ⟨Nat.le_trans fewer slots, same ▸ threshold⟩
  | created room more same =>
    refine ⟨?_, same ▸ threshold⟩
    simp only [more]
    exact Nat.le_trans room threshold
  | swept full fewer inUse next => exact ⟨by omega, by omega⟩

theorem Course.bounded (course : Course used t events u) (h : t.Bounded used) : u.Bounded used := by
  induction course with
  | done t => exact h
  | step turn _ ih => exact ih (turn.bounded h)

/-- Creating a slot takes the table below its threshold, and only a table that starts above its
threshold is ever above it. -/
theorem Turn.within (turn : Turn used t events u)
    (h : t.slots.length ≤ t.sweepAt ∨ .valueSetCreated ∈ events) :
    u.slots.length ≤ u.sweepAt := by
  cases turn with
  | dropped fewer same quiet =>
    rcases h with within | created
    · simp only [same]
      exact Nat.le_trans fewer within
    · cases quiet _ created
  | created room more same =>
    simp only [more, same]
    exact room
  | swept full fewer inUse next => omega

theorem Course.within (course : Course used t events u)
    (h : t.slots.length ≤ t.sweepAt ∨ .valueSetCreated ∈ events) :
    u.slots.length ≤ u.sweepAt := by
  induction course with
  | done t => simpa using h
  | step turn _ ih =>
    rw [List.mem_append, ← or_assoc] at h
    exact ih (h.imp_left turn.within)

theorem Turn.length_le (turn : Turn used t events u) :
    u.slots.length ≤ t.slots.length + creations events := by
  cases turn with
  | dropped fewer same quiet => omega
  | created room more same => simp [more, creations]
  | swept full fewer inUse next => omega

theorem Course.length_le (course : Course used t events u) :
    u.slots.length ≤ t.slots.length + creations events := by
  induction course with
  | done t => exact Nat.le_add_right ..
  | step turn _ ih =>
    have first := turn.length_le
    simp only [Event.creations_append]
    omega

/-- What the sweep of a table could cost beyond the creations that it waits for. -/
def Table.owed (t : Table K) : Nat := min t.slots.length (2 * t.slots.length - t.sweepAt)

theorem Turn.cost_le (turn : Turn used t events u) :
    totalExamined events + u.owed ≤ t.owed + 2 * creations events := by
  unfold Table.owed
  cases turn with
  | dropped fewer same quiet =>
    simp only [Event.totalExamined_of_quiet quiet, same]
    omega
  | created room more same =>
    simp [totalExamined, Event.examined, creations, more, same]
    omega
  | swept full fewer inUse next =>
    simp only [totalExamined, Event.examined, next]
    omega

theorem Course.cost_le (course : Course used t events u) :
    totalExamined events + u.owed ≤ t.owed + 2 * creations events := by
  induction course with
  | done t => simp [totalExamined]
  | step turn _ ih =>
    have first := turn.cost_le
    simp only [Event.totalExamined_append, Event.creations_append]
    omega

theorem Turn.of_swept {n dropped : Nat} (turn : Turn used t events u)
    (h : .unusedSwept n dropped ∈ events) :
    events = [.unusedSwept n dropped] ∧ t.slots.length = n ∧ t.owed = n ∧ u.owed = 0 := by
  unfold Table.owed
  cases turn with
  | dropped fewer same quiet => cases quiet _ h
  | created room more same => simp at h
  | swept full fewer inUse next =>
    obtain ⟨rfl, rfl⟩ : n = t.slots.length ∧ dropped = t.slots.length - u.slots.length := by
      simpa using h
    exact ⟨rfl, rfl, by omega, by omega⟩

/-- Where a sweep is told the course is at a table that is due, and goes on from one that owes
nothing. -/
theorem Course.at_sweep {n dropped : Nat} {before : List Event}
    (course : Course used t (before ++ .unusedSwept n dropped :: later) last) :
    ∃ u v : Table K, Course used t before u ∧ u.slots.length = n ∧ u.owed = n ∧
      v.owed = 0 ∧ Course used v later last := by
  generalize joined : before ++ .unusedSwept n dropped :: later = events at course
  induction course generalizing before with
  | done t => simp at joined
  | @step t next last first more turn rest ih =>
    rcases List.append_eq_append_iff.mp joined with ⟨through, rfl, split⟩ | ⟨beyond, rfl, split⟩
    · cases through with
      | nil =>
        obtain ⟨u, v, past, rest⟩ := @ih [] split
        rw [List.append_nil] at turn
        exact ⟨u, v, by simpa using Course.step turn past, rest⟩
      | cons event through =>
        obtain ⟨rfl, rfl⟩ := List.cons_eq_cons.mp split
        have told : .unusedSwept n dropped ∈ before ++ .unusedSwept n dropped :: through := by simp
        obtain ⟨alone, length, due, settled⟩ := turn.of_swept told
        obtain ⟨rfl, rfl⟩ : before = [] ∧ through = [] := by
          cases before <;> simp_all
        exact ⟨t, next, .done t, length, due, settled, rest⟩
    · obtain ⟨u, v, past, rest⟩ := ih split.symm
      exact ⟨u, v, .step turn past, rest⟩

structure SweepsPaid (start : Nat) (events : List Event) : Prop where
  /-- A sweep looks at no more slots than there were and have come. -/
  first : ∀ before n dropped later, events = before ++ .unusedSwept n dropped :: later →
    n ≤ start + creations before
  /-- Of two sweeps the later one looks at no more than twice what was created in between. -/
  next : ∀ before n dropped between n' dropped' later,
    events = before ++ .unusedSwept n dropped :: (between ++ .unusedSwept n' dropped' :: later) →
      n' ≤ 2 * creations between
  total : totalExamined events ≤ start + 2 * creations events

theorem Course.sweepsPaid (course : Course used t events last) :
    SweepsPaid t.slots.length events where
  first before n dropped later he := by
    subst he
    obtain ⟨u, v, past, length, -⟩ := course.at_sweep
    exact length ▸ past.length_le
  next before n dropped between n' dropped' later he := by
    subst he
    obtain ⟨-, v, -, -, -, settled, rest⟩ := course.at_sweep
    obtain ⟨u, -, between, -, due, -⟩ := rest.at_sweep
    have cost := between.cost_le
    omega
  total := by
    have cost := course.cost_le
    have owed : t.owed ≤ t.slots.length := Nat.min_le_left ..
    omega

end Courses

-- ---------------------------------------------------------------------------
-- What a session reports of one multimap
-- ---------------------------------------------------------------------------

variable [DecidableEq K]

namespace Session

/-- The multimap whose table a command may change. Writing through a view changes a set only. -/
def target? (s : Session K V) : Command K V → Option TableId
  | .create | .collect _ | .restore .. => some ⟨s.store.tables.size⟩
  | .change m _ | .get m _ => some m
  | .copyView _ | .dropView _ | .insertInto .. | .removeFrom .. => none

/-- How many slots of a multimap have a value or are held by a live view. -/
def inUse (s : Session K V) (m : TableId) : Nat :=
  (s.store.table m).slots.countP fun slot =>
    !(s.store.values slot.2).isEmpty || s.views.any fun v => v.view.set == slot.2

theorem inUse_eq {history : List (Command K V)} {s : Session K V} (h : Tracked history s)
    (m : TableId) : s.inUse m = (s.store.usedSlots m).length := by
  have viewed : ∀ id, (s.views.any fun v => v.view.set == id) = s.store.held.contains id := by
    intro id
    rw [Bool.eq_iff_iff]
    simp [h.held.mem_iff]
  simp [inUse, Store.usedSlots, List.countP_eq_length_filter, Store.isUnused, viewed]

variable [DecidableEq V]

def reports (s : Session K V) (m : TableId) (c : Command K V) : List Event :=
  if s.target? c = some m then (s.step c).2.store.log.drop s.store.log.length else []

def ledger (s : Session K V) (m : TableId) : List (Command K V) → List Event
  | [] => []
  | c :: cs => s.reports m c ++ (s.step c).2.ledger m cs

/-- The most slots of a multimap that are in use at one time, from now on and while commands
run. -/
def peak (s : Session K V) (m : TableId) : List (Command K V) → Nat
  | [] => s.inUse m
  | c :: cs => max (s.inUse m) ((s.step c).2.peak m cs)

theorem inUse_le_peak (s : Session K V) (m : TableId) (cs : List (Command K V)) :
    s.inUse m ≤ s.peak m cs := by
  cases cs with
  | nil => exact Nat.le_refl _
  | cons c cs => exact Nat.le_max_left ..

end Session

-- ---------------------------------------------------------------------------
-- The course of a session
-- ---------------------------------------------------------------------------

variable [DecidableEq V]

theorem Store.resizes_apply {s : Store K V} (h : s.WellFormed) {m : TableId}
    (hm : m.index < s.tables.size) (c : Change K V) :
    Resizes (max (s.usedSlots m).length ((s.apply m c).2.usedSlots m).length) m s
      (s.apply m c).2 := by
  have before : (s.usedSlots m).length ≤
      max (s.usedSlots m).length ((s.apply m c).2.usedSlots m).length := Nat.le_max_left ..
  cases c with
  | put key value => exact (resizes_update hm key (insertion value)).mono before
  | putAll key values => exact (resizes_putAll hm key values).mono before
  | remove key value => exact resizes_remove s m key value
  | removeAll key => exact resizes_removeAll s m key
  | replaceValue key old new => exact resizes_updatePresent? s m key (exchange old new) false
  | replaceValues key values =>
    exact (resizes_update hm key fun current => (current, ValueSet.ofList values)).mono before
  | extend pairs => exact (resizes_putEach h hm pairs).mono (Nat.le_max_right ..)
  | clear => exact resizes_clear s m

namespace Session

variable {history : List (Command K V)} {s : Session K V} {m : TableId} {c : Command K V}

theorem resizes_step (h : Tracked history s) (hm : s.target? c = some m)
    (hc : ∀ snapshot wellFormed, c ≠ .restore snapshot wellFormed) :
    Store.Resizes (max (s.inUse m) ((s.step c).2.inUse m)) m s.store (s.step c).2.store := by
  have hs := h.wellFormed
  simp only [inUse_eq h, inUse_eq (h.step c)]
  cases c with
  | create => exact Store.resizes_create s.store m
  | collect pairs =>
    cases hm
    exact (Store.resizes_createFrom hs pairs).mono (Nat.le_max_right ..)
  | restore snapshot wellFormed => exact absurd rfl (hc snapshot wellFormed)
  | change n c =>
    cases hm
    simp only [step, perform]
    split
    · rename_i there
      exact Store.resizes_apply hs there c
    · exact .refl _ m s.store
  | get n key =>
    cases hm
    simp only [step, perform]
    split
    · rename_i there
      refine .mono ?_ (Nat.le_max_left ..)
      exact (Store.resizes_slotFor there key).trans (.of_tables rfl fun _ => rfl)
    · exact .refl _ m s.store
  | copyView | dropView | insertInto | removeFrom => cases hm

theorem table_step_of_target?_ne (h : Tracked history s) (hm : s.target? c ≠ some m) :
    (s.step c).2.store.table m = s.store.table m := by
  have elsewhere : ∀ n, s.target? c = some n → m ≠ n := by
    rintro n hn rfl
    exact hm hn
  by_cases hc : ∃ snapshot wellFormed, c = .restore snapshot wellFormed
  · obtain ⟨snapshot, wellFormed, rfl⟩ := hc
    simp [step, perform, Store.table_restore, elsewhere _ rfl]
  · have hc : ∀ snapshot wellFormed, c ≠ .restore snapshot wellFormed := fun _ _ e => hc ⟨_, _, e⟩
    cases target : s.target? c with
    | some n => exact (resizes_step h target hc).others m (elsewhere n target)
    | none =>
      cases c with
      | copyView i | dropView i | insertInto i value | removeFrom i value =>
        simp only [step, perform]
        split <;> rfl
      | _ => cases target

theorem course_step (h : Tracked history s)
    (hm : m.index < s.store.tables.size ∨ ∀ snapshot wellFormed, c ≠ .restore snapshot wellFormed) :
    Course (max (s.inUse m) ((s.step c).2.inUse m)) (s.store.table m) (s.reports m c)
      ((s.step c).2.store.table m) := by
  unfold reports
  split
  · rename_i target
    refine (resizes_step h target fun snapshot wellFormed he => ?_).course
    rcases hm with there | other
    · subst he
      cases target
      exact Nat.lt_irrefl _ there
    · exact other snapshot wellFormed he
  · rename_i target
    rw [table_step_of_target?_ne h target]
    exact .done _

theorem course_run (h : Tracked history s) (hm : m.index < s.store.tables.size)
    (cs : List (Command K V)) :
    Course (s.peak m cs) (s.store.table m) (s.ledger m cs) ((run step s cs).2.store.table m) := by
  induction cs generalizing history s with
  | nil => exact .done _
  | cons c cs ih =>
    have first : Course (s.peak m (c :: cs)) _ _ _ :=
      (course_step (c := c) h (.inl hm)).mono (max_le_max_left _ (inUse_le_peak ..))
    have grown := size_tables_step h.wellFormed c
    have rest := ih (h.step c) (Nat.lt_of_lt_of_le hm grown)
    exact first.trans (rest.mono (Nat.le_max_right ..))

theorem reports_of_absent (h : Tracked history s)
    (hm : (s.step c).2.store.tables.size ≤ m.index) : s.reports m c = [] := by
  unfold reports
  split
  · rename_i target
    have kept := size_tables_step h.wellFormed c
    have absent : ¬ m.index < s.store.tables.size := by omega
    cases c with
    | create | collect pairs | restore snapshot wellFormed =>
      cases target
      rw [(grown_step h.wellFormed _).2] at hm
      exact absurd hm (by simp [Command.startsWith?])
    | change n c | get n key =>
      cases target
      simp [step, perform, absent]
    | copyView | dropView | insertInto | removeFrom => cases target
  · rfl

end Session

omit [DecidableEq K] [DecidableEq V] in
theorem Store.length_usedSlots_restore (s : Store K V) {snapshot : Snapshot K V}
    (hs : snapshot.WellFormed) :
    ((s.restore snapshot).2.usedSlots ⟨s.tables.size⟩).length = snapshot.keyCount := by
  have used : ∀ slot ∈ freshSlots s.sets.size snapshot.groups,
      (!(s.restore snapshot).2.isUnused slot.2) = true := fun slot hslot => by
    simp [isUnused, nonempty_restore s hs slot hslot]
  rw [usedSlots, table_restore, if_pos rfl, List.filter_eq_self.mpr used]
  simp [freshSlots, Snapshot.keyCount]

namespace Session

variable {history : List (Command K V)} {s : Session K V} {m : TableId} {c : Command K V}

theorem course_of_made (h : Tracked history s) {n : Nat} (made : c.startsWith? = some n)
    (hm : m = ⟨s.store.tables.size⟩) :
    ∃ start : Table K, start.slots.length = n ∧ start.sweepAt = sweepFloor ∧
      start.slots.length ≤ (s.step c).2.inUse m ∧
      Course (max (s.inUse m) ((s.step c).2.inUse m)) start (s.reports m c)
        ((s.step c).2.store.table m) := by
  subst hm
  have none : s.store.table ⟨s.store.tables.size⟩ = {} := Store.table_of_size_le (Nat.le_refl _)
  have fresh : (∀ snapshot wellFormed, c ≠ .restore snapshot wellFormed) →
      Course _ {} (s.reports ⟨s.store.tables.size⟩ c) _ :=
    fun hc => none ▸ course_step h (.inr hc)
  cases c with
  | create | collect pairs =>
    cases made
    exact ⟨{}, rfl, rfl, Nat.zero_le _, fresh nofun⟩
  | restore snapshot wellFormed =>
    cases made
    have quiet : s.reports ⟨s.store.tables.size⟩ (.restore snapshot wellFormed) = [] := by
      simp [reports, target?, step, perform, Store.restore_eq]
    have inUse := Store.length_usedSlots_restore s.store wellFormed
    have table := s.store.table_restore snapshot ⟨s.store.tables.size⟩
    rw [if_pos rfl] at table
    refine ⟨(s.store.restore snapshot).2.table ⟨s.store.tables.size⟩, ?_, ?_, ?_, ?_⟩
    · simp [table, Store.freshSlots, Snapshot.keyCount]
    · simp [table]
    · rw [inUse_eq (h.step _)]
      simp [step, perform, inUse, table, Store.freshSlots, Snapshot.keyCount]
    · rw [quiet]
      exact .done _
  | change | get | copyView | dropView | insertInto | removeFrom => cases made

theorem getElem?_startsWith_cons (h : s.store.WellFormed)
    (hm : (s.step c).2.store.tables.size ≤ m.index) (cs : List (Command K V)) :
    ((c :: cs).filterMap Command.startsWith?)[m.index - s.store.tables.size]? =
      (cs.filterMap Command.startsWith?)[m.index - (s.step c).2.store.tables.size]? := by
  have size := (grown_step h c).2
  cases made : c.startsWith? with
  | none => simp [made, size]
  | some n =>
    have later : m.index - s.store.tables.size =
        m.index - (s.step c).2.store.tables.size + 1 := by
      simp only [made, Option.toList_some, List.length_singleton] at size
      omega
    simp [made, later]

theorem course_of_absent (h : Tracked history s) (hm : s.store.tables.size ≤ m.index)
    (cs : List (Command K V)) :
    ∃ start : Table K,
      start.slots.length =
        ((cs.filterMap Command.startsWith?)[m.index - s.store.tables.size]?).getD 0 ∧
      start.sweepAt = sweepFloor ∧ start.slots.length ≤ s.peak m cs ∧
      Course (s.peak m cs) start (s.ledger m cs) ((run step s cs).2.store.table m) := by
  have none : s.store.table m = {} := Store.table_of_size_le hm
  induction cs generalizing history s with
  | nil => exact ⟨s.store.table m, by simp [none], by simp [none], by simp [none], .done _⟩
  | cons c cs ih =>
    have size := (grown_step h.wellFormed c).2
    have le : (s.step c).2.peak m cs ≤ s.peak m (c :: cs) := Nat.le_max_right ..
    by_cases absent : (s.step c).2.store.tables.size ≤ m.index
    · obtain ⟨start, length, floor, bound, course⟩ :=
        ih (h.step c) absent (Store.table_of_size_le absent)
      refine ⟨start, ?_, floor, Nat.le_trans bound le, ?_⟩
      · rw [length, getElem?_startsWith_cons h.wellFormed absent]
      · rw [ledger, reports_of_absent h absent]
        exact course.mono le
    · have rest := (course_run (h.step c) (Nat.lt_of_not_le absent) cs).mono le
      obtain ⟨n, made⟩ : ∃ n, c.startsWith? = some n := by
        cases made : c.startsWith? with
        | none => exact absurd hm (by simpa [made, size] using absent)
        | some n => exact ⟨n, rfl⟩
      have here : m.index = s.store.tables.size := by
        simp only [made, Option.toList_some, List.length_singleton] at size
        omega
      obtain ⟨start, length, floor, bound, first⟩ :=
        course_of_made (m := m) h made (congrArg TableId.mk here)
      have peak : (s.step c).2.inUse m ≤ (s.step c).2.peak m cs := inUse_le_peak ..
      refine ⟨start, by simp [made, here, length], floor, Nat.le_trans bound (peak.trans le), ?_⟩
      exact (first.mono (max_le_max_left _ peak)).trans rest

end Session

-- ---------------------------------------------------------------------------
-- The main results
-- ---------------------------------------------------------------------------

open Session (after)

def madeWith (commands : List (Command K V)) (m : TableId) : Nat :=
  ((commands.filterMap Command.startsWith?)[m.index]?).getD 0

theorem course_after (commands : List (Command K V)) (m : TableId) :
    ∃ start : Table K, start.slots.length = madeWith commands m ∧ start.sweepAt = sweepFloor ∧
      start.slots.length ≤ ({} : Session K V).peak m commands ∧
      Course (({} : Session K V).peak m commands) start (({} : Session K V).ledger m commands)
        ((after commands).store.table m) :=
  Session.course_of_absent .empty (Nat.zero_le _) commands

/-- A table has at most sixteen slots, or twice as many as were ever in use at one time. -/
theorem unused_slots_never_accumulate (commands : List (Command K V)) (m : TableId) :
    let table := (after commands).store.table m
    -- unused slots at most double the table
    table.slots.length ≤ max sweepFloor (2 * ({} : Session K V).peak m commands) ∧
    -- a multimap may start above its threshold, but not stay there when a key is created
    (.valueSetCreated ∈ ({} : Session K V).ledger m commands →
      table.slots.length ≤ table.sweepAt) := by
  obtain ⟨start, -, floor, bound, course⟩ := course_after commands m
  have bounded : start.Bounded (({} : Session K V).peak m commands) := by
    constructor <;> omega
  exact ⟨(course.bounded bounded).slots, fun created => course.within (.inr created)⟩

/-- Sixteen keys that are viewed and not kept are swept when the next one is viewed. -/
theorem viewing_absent_keys_leaves_one_slot :
    let commands : List (Command Nat Nat) :=
      .create :: (List.range 17).flatMap fun key => [.get ⟨0⟩ key, .dropView 0]
    let table := (after commands).store.table ⟨0⟩
    .valueSetCreated ∈ ({} : Session Nat Nat).ledger ⟨0⟩ commands ∧
      .unusedSwept 16 16 ∈ ({} : Session Nat Nat).ledger ⟨0⟩ commands ∧
      table.slots.length = 1 ∧ table.slots.length ≤ table.sweepAt := by
  intro commands table
  have created : .valueSetCreated ∈ ({} : Session Nat Nat).ledger ⟨0⟩ commands := by
    decide +kernel
  exact ⟨created, by decide +kernel, by decide +kernel,
    (unused_slots_never_accumulate commands ⟨0⟩).2 created⟩

/-- A sweep looks at no more than two slots for each that was created since the sweep before it,
and the first one at no more than there have been. -/
theorem sweeps_are_paid_for_by_creations (commands more : List (Command K V)) (m : TableId) :
    -- all creations and sweeps are in the ledger, from the slots on that a multimap starts with
    (∃ start : Table K, start.slots.length = madeWith commands m ∧ start.sweepAt = sweepFloor ∧
      Course (({} : Session K V).peak m commands) start (({} : Session K V).ledger m commands)
        ((after commands).store.table m)) ∧
    -- the sweeps are paid for over all that happens to it
    SweepsPaid (madeWith commands m) (({} : Session K V).ledger m commands) ∧
    -- and from any moment on, once it is there
    (m.index < (after commands).store.tables.size →
      SweepsPaid ((after commands).store.table m).slots.length ((after commands).ledger m more)) := by
  obtain ⟨start, length, floor, -, course⟩ := course_after commands m
  exact ⟨⟨start, length, floor, course⟩, length ▸ course.sweepsPaid,
    fun there => (Session.course_run (tracked_after commands) there more).sweepsPaid⟩

/-- Sweeps that free nothing come each time the keys have doubled. -/
theorem thirty_three_keys_are_swept_twice :
    let commands : List (Command Nat Nat) := [.create]
    let more : List (Command Nat Nat) :=
      [.change ⟨0⟩ (.extend ((List.range 33).map fun key => (key, key)))]
    0 < (after commands).store.tables.size ∧
      (after commands).ledger ⟨0⟩ more =
        List.replicate 16 .valueSetCreated ++ .unusedSwept 16 0 ::
          (List.replicate 16 .valueSetCreated ++ .unusedSwept 32 0 :: [.valueSetCreated]) ∧
      SweepsPaid 0 ((after commands).ledger ⟨0⟩ more) := by
  intro commands more
  have there : 0 < (after commands).store.tables.size := by decide +kernel
  have empty : ((after commands).store.table ⟨0⟩).slots.length = 0 := by decide +kernel
  have paid := (sweeps_are_paid_for_by_creations commands more ⟨0⟩).2.2 there
  exact ⟨there, by decide +kernel, empty ▸ paid⟩

end Multimap

end LiveCollections
