import LiveCollections.Proofs.Multimap.Creation
import LiveCollections.Proofs.Run

/-!
# Sessions

A session is a run of commands on any number of multimaps and any number of live
views. It keeps a store and the views that are live, and notes for each view the
multimap that it was taken from and how many commands had run by then. A copy of a
view keeps the note of the view it was copied from.

A command that names a multimap or a view that does not exist does nothing.

Only two changes discard the set of a key: removing the key and clearing the
multimap. How often that has happened to a key is its generation.
-/

namespace LiveCollections.Multimap

variable {K V : Type}

inductive Change (K V : Type)
  | put (key : K) (value : V)
  | putAll (key : K) (values : List V)
  | remove (key : K) (value : V)
  | removeAll (key : K)
  | replaceValue (key : K) (old new : V)
  | replaceValues (key : K) (values : List V)
  | extend (pairs : List (K × V))
  | clear

inductive Command (K V : Type)
  | create
  | collect (pairs : List (K × V))
  | restore (snapshot : Snapshot K V) (wellFormed : snapshot.WellFormed)
  | change (m : TableId) (change : Change K V)
  | get (m : TableId) (key : K)
  /-- Views are named by their place among the live ones, the latest first. -/
  | copyView (view : Nat)
  | dropView (view : Nat)
  | insertInto (view : Nat) (value : V)
  | removeFrom (view : Nat) (value : V)

inductive Answer (V : Type)
  | done
  | flag (flag : Bool)
  | values (values : Finset V)
  deriving DecidableEq

structure LiveView (K : Type) where
  home : TableId
  view : ValueView K
  since : Nat

structure Session (K V : Type) where
  store : Store K V := {}
  views : List (LiveView K) := []
  clock : Nat := 0

variable [DecidableEq K]

section Runs

variable [DecidableEq V]

def Store.apply (s : Store K V) (m : TableId) : Change K V → Answer V × Store K V
  | .put key value => (s.put m key value).map .flag id
  | .putAll key values => (s.putAll m key values).map .flag id
  | .remove key value => (s.remove m key value).map .flag id
  | .removeAll key => (s.removeAll m key).map (.values ∘ ValueSet.toFinset) id
  | .replaceValue key old new => (s.replaceValue m key old new).map .flag id
  | .replaceValues key values =>
    (s.replaceValues m key values).map (.values ∘ ValueSet.toFinset) id
  | .extend pairs => (.done, (s.putEach m pairs).2)
  | .clear => (.done, s.clear m)

namespace Session

/-- What a command does, the passing of time apart. -/
def perform (s : Session K V) : Command K V → Answer V × Session K V
  | .create => (.done, { s with store := s.store.create.2 })
  | .collect pairs => (.done, { s with store := (s.store.createFrom pairs).2 })
  | .restore snapshot _ => (.done, { s with store := (s.store.restore snapshot).2 })
  | .change m change =>
    if m.index < s.store.tables.size then
      let (answer, store) := s.store.apply m change
      (answer, { s with store })
    else (.done, s)
  | .get m key =>
    if m.index < s.store.tables.size then
      let (view, store) := s.store.get m key
      (.done, { s with store, views := ⟨m, view, s.clock + 1⟩ :: s.views })
    else (.done, s)
  | .copyView view =>
    match s.views[view]? with
    | some v => (.done, { s with store := (s.store.copyView v.view).2, views := v :: s.views })
    | none => (.done, s)
  | .dropView view =>
    match s.views[view]? with
    | some v =>
      (.done, { s with store := s.store.dropView v.view, views := s.views.eraseIdx view })
    | none => (.done, s)
  | .insertInto view value =>
    match s.views[view]? with
    | some v =>
      let (isNew, store) := s.store.insertInto v.view value
      (.flag isNew, { s with store })
    | none => (.done, s)
  | .removeFrom view value =>
    match s.views[view]? with
    | some v =>
      let (removed, store) := s.store.removeFrom v.view value
      (.flag removed, { s with store })
    | none => (.done, s)

def step (s : Session K V) (c : Command K V) : Answer V × Session K V :=
  let (answer, t) := s.perform c
  (answer, { t with clock := t.clock + 1 })

def after (commands : List (Command K V)) : Session K V := (run step {} commands).2

def answersTo (commands : List (Command K V)) : List (Answer V) := (run step {} commands).1

theorem after_append (commands more : List (Command K V)) :
    after (commands ++ more) = (run step (after commands) more).2 := by
  unfold after
  rw [run_append]

theorem after_concat (cs : List (Command K V)) (c : Command K V) :
    after (cs ++ [c]) = ((after cs).step c).2 := by
  rw [after, run_concat]
  rfl

end Session

end Runs

def Command.view? : Command K V → Option Nat
  | .copyView i | .dropView i | .insertInto i _ | .removeFrom i _ => some i
  | _ => none

theorem Session.step_of_absent_view [DecidableEq V] {s : Session K V} {c : Command K V} {i : Nat}
    (hc : c.view? = some i) (hi : s.views[i]? = none) :
    s.step c = (.done, { s with clock := s.clock + 1 }) := by
  cases c <;> cases hc <;> simp [step, perform, hi]

/-- How many slots the multimap that a command makes starts with. Pairs are collected into one
that starts with none. -/
def Command.startsWith? : Command K V → Option Nat
  | .create | .collect _ => some 0
  | .restore snapshot _ => some snapshot.keyCount
  | _ => none

-- ---------------------------------------------------------------------------
-- Generations
-- ---------------------------------------------------------------------------

def Change.discards : Change K V → K → Bool
  | .removeAll key, other => other == key
  | .clear, _ => true
  | _, _ => false

def Command.discards : Command K V → TableId → K → Bool
  | .change m c, n, key => n == m && c.discards key
  | _, _, _ => false

theorem Command.discards_of_view? {c : Command K V} {i : Nat}
    (hc : c.view? = some i) (n : TableId) (key : K) : c.discards n key = false := by
  cases c with
  | change => cases hc
  | _ => rfl

def Discarded (commands : List (Command K V)) (m : TableId) (key : K) : Prop :=
  .change m (.removeAll key) ∈ commands ∨ .change m .clear ∈ commands

theorem Change.discards_iff {c : Change K V} {key : K} :
    c.discards key = true ↔ c = .removeAll key ∨ c = .clear := by
  cases c with
  | removeAll other => simp [discards, @eq_comm _ key]
  | _ => simp [discards]

theorem not_discarded_iff {commands : List (Command K V)} {m : TableId} {key : K} :
    ¬ Discarded commands m key ↔ ∀ c ∈ commands, c.discards m key = false := by
  constructor
  · intro h c hc
    refine Bool.eq_false_iff.mpr fun hd => h ?_
    cases c with
    | change n c =>
      rw [Command.discards, Bool.and_eq_true, beq_iff_eq, Change.discards_iff] at hd
      obtain ⟨rfl, rfl | rfl⟩ := hd
      · exact .inl hc
      · exact .inr hc
    | _ => cases hd
  · rintro h (hc | hc)
    · simpa [Command.discards, Change.discards] using h _ hc
    · simpa [Command.discards, Change.discards] using h _ hc

/-- How often the set of a key has been discarded. -/
def generation (history : List (Command K V)) (m : TableId) (key : K) : Nat :=
  history.countP fun c => c.discards m key

theorem generation_concat (history : List (Command K V)) (c : Command K V) (m : TableId)
    (key : K) : generation (history ++ [c]) m key =
      generation history m key + (c.discards m key).toNat := by
  cases h : c.discards m key <;> simp [generation, h]

theorem generation_take_le (history : List (Command K V)) (n : Nat) (m : TableId) (key : K) :
    generation (history.take n) m key ≤ generation history m key :=
  (List.take_sublist n history).countP_le

/-- Between two moments the generation stays as it is just when nothing discards. -/
theorem generation_take_eq_iff (history : List (Command K V)) {i j : Nat} (h : i ≤ j)
    (m : TableId) (key : K) :
    generation (history.take i) m key = generation (history.take j) m key ↔
      ¬ Discarded ((history.take j).drop i) m key := by
  rw [not_discarded_iff]
  have split : generation (history.take j) m key =
      generation (history.take i) m key +
        ((history.take j).drop i).countP fun c => c.discards m key := by
    have joined := List.take_append_drop i (history.take j)
    rw [List.take_take, Nat.min_eq_left h] at joined
    rw [generation, generation, ← List.countP_append, joined]
  rw [split]
  constructor
  · intro he
    have none : ((history.take j).drop i).countP (fun c => c.discards m key) = 0 := by omega
    simpa using List.countP_eq_zero.mp none
  · intro he
    have none : ((history.take j).drop i).countP (fun c => c.discards m key) = 0 :=
      List.countP_eq_zero.mpr (by simpa using he)
    rw [none, Nat.add_zero]

namespace LiveView

def generation (v : LiveView K) (history : List (Command K V)) : Nat :=
  Multimap.generation (history.take v.since) v.home v.view.key

/-- Since the view was taken, nothing has discarded the set of its key. -/
def Current (v : LiveView K) (history : List (Command K V)) : Prop :=
  v.generation history = Multimap.generation history v.home v.view.key

theorem generation_le (v : LiveView K) (history : List (Command K V)) :
    v.generation history ≤ Multimap.generation history v.home v.view.key :=
  generation_take_le ..

theorem generation_concat {v : LiveView K} {history : List (Command K V)}
    (h : v.since ≤ history.length) (c : Command K V) :
    v.generation (history ++ [c]) = v.generation history := by
  rw [generation, List.take_append_of_le_length h, ← generation]

theorem current_of_since_eq {v : LiveView K} {history : List (Command K V)}
    (h : v.since = history.length) : v.Current history := by
  rw [Current, generation, h, List.take_length]

theorem current_concat {v : LiveView K} {history : List (Command K V)}
    (h : v.since ≤ history.length) (c : Command K V) :
    v.Current (history ++ [c]) ↔
      v.Current history ∧ c.discards v.home v.view.key = false := by
  have le := v.generation_le history
  rw [Current, Current, generation_concat h, Multimap.generation_concat]
  cases c.discards v.home v.view.key <;> simp
  omega

theorem current_iff {v : LiveView K} {history : List (Command K V)}
    (h : v.since ≤ history.length) :
    v.Current history ↔ ¬ Discarded (history.drop v.since) v.home v.view.key := by
  have split := generation_take_eq_iff history h v.home v.view.key
  rwa [List.take_length] at split

end LiveView

-- ---------------------------------------------------------------------------
-- The effect of a change
-- ---------------------------------------------------------------------------

variable [DecidableEq V]

def Change.edit (m : TableId) : Change K V → Edit K V
  | .put key value => .under m key (·.insert value)
  | .putAll key values => .under m key (·.insertAll values)
  | .remove key value => .under m key (·.erase value)
  | .removeAll key => .under m key fun _ => .empty
  | .replaceValue key old new => .under m key fun values => (exchange old new values).2
  | .replaceValues key values => .under m key fun _ => .ofList values
  | .extend pairs => fun n key values =>
    if n = m then values.insertAll ((pairs.filter (·.1 = key)).map Prod.snd) else values
  | .clear => fun n _ values => if n = m then .empty else values

theorem Change.edit_ne {m n : TableId} (h : n ≠ m) (c : Change K V) (key : K)
    (values : ValueSet V) : c.edit m n key values = values := by
  cases c <;> simp [Change.edit, Edit.under, h]

theorem Change.edit_of_discards {m : TableId} {c : Change K V} {key : K}
    (h : c.discards key = true) (values : ValueSet V) : c.edit m m key values = .empty := by
  cases c <;> simp_all [Change.edit, Change.discards, Edit.under]

theorem Store.apply_effect {s : Store K V} (h : s.WellFormed) {m : TableId}
    (hm : m.index < s.tables.size) (c : Change K V) :
    Effect s (s.apply m c).2 0 (c.edit m) fun n key => (n == m && c.discards key) = true := by
  have keeps : ∀ {t : Store K V} {edit : Edit K V} (d : Change K V),
      (∀ key, d.discards key = false) → Edits s t edit →
      Effect s t 0 edit fun n key => (n == m && d.discards key) = true := by
    intro t edit d hd effect
    refine effect.discarding fun n key => ?_
    simp [hd, never]
  cases c with
  | put key value => exact keeps _ (fun _ => rfl) (put_effect h hm key value).2
  | putAll key values => exact keeps _ (fun _ => rfl) (putAll_effect h hm key values).2
  | remove key value => exact keeps _ (fun _ => rfl) (remove_effect h m key value).2
  | replaceValue key old new =>
    exact keeps _ (fun _ => rfl) (replaceValue_effect h m key old new).2
  | replaceValues key values =>
    exact keeps _ (fun _ => rfl) (replaceValues_effect h hm key values).2
  | extend pairs => exact keeps _ (fun _ => rfl) (putEach_effect h hm pairs)
  | removeAll key =>
    refine (removeAll_effect h m key).2.discarding fun n other => ?_
    simp [Change.discards]
  | clear =>
    refine (clear_effect h m).discarding fun n other => ?_
    simp [Change.discards]

omit [DecidableEq V] in
theorem Store.absent_effect {s : Store K V} (h : s.WellFormed) {m : TableId}
    (hm : ¬ m.index < s.tables.size) (c : Change K V) :
    Effect s s 0 (fun n _ values => if n = m then .empty else values)
      fun n key => (n == m && c.discards key) = true := by
  refine { (Edits.refl h).congr fun n key => ?_ with
    slots := fun id _ n key => ⟨fun hs => ⟨hs, ?_⟩, fun hs => hs.1⟩ }
  · split
    · rename_i e
      exact contents_of_slot?_eq_none (slot?_of_size_le (e ▸ Nat.le_of_not_lt hm) key)
    · rfl
  · rw [Bool.and_eq_true, beq_iff_eq]
    rintro ⟨rfl, -⟩
    exact hm (index_lt_of_slot? hs)

end LiveCollections.Multimap
