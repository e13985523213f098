import LiveCollections.Proofs.Multimap.Attachment
import Mathlib.Logic.Function.Iterate

/-!
# Walks that write

A walk visits the values of a view one by one and lets an action change the store at
each of them. What it has still to visit is a copy that was made when it started. So how
many turns it takes, and what it visits in which of them, depends on nothing that the
action does.

What becomes of the store is told turn by turn. A walk that puts an image of each value
has put the images of the values that it has visited, at any turn, and no reader and no
view can tell that it has done anything else: neither the set that the first put may have
to create nor the sweep that may come before shows in any other key, and a view is as
attached as it was.
-/

namespace LiveCollections.Multimap

open Session (after)

variable {K V : Type}

structure Walk (K V : Type) where
  store : Store K V
  left : List V
  visited : List V

namespace Walk

def start (s : Store K V) (v : ValueView K) : Walk K V := ⟨s, (s.viewed v).elements, []⟩

def turn (action : V → Store K V → Store K V) (w : Walk K V) : Walk K V :=
  match w.left with
  | [] => w
  | value :: left => ⟨action value w.store, left, w.visited ++ [value]⟩

@[simp] theorem turn_nil (action : V → Store K V → Store K V) (s : Store K V) (visited : List V) :
    turn action ⟨s, [], visited⟩ = ⟨s, [], visited⟩ := rfl

@[simp] theorem turn_cons (action : V → Store K V → Store K V) (s : Store K V) (value : V)
    (left visited : List V) : turn action ⟨s, value :: left, visited⟩ =
      ⟨action value s, left, visited ++ [value]⟩ := rfl

theorem turns_eq (action : V → Store K V → Store K V) (n : Nat) (w : Walk K V) :
    (turn action)^[n] w =
      ⟨(w.left.take n).foldl (fun s value => action value s) w.store, w.left.drop n,
        w.visited ++ w.left.take n⟩ := by
  induction n generalizing w with
  | zero => simp
  | succ n ih =>
    obtain ⟨store, left, visited⟩ := w
    rw [Function.iterate_succ_apply, ih]
    cases left with
    | nil => simp
    | cons value left => simp

theorem turns_visited (action : V → Store K V → Store K V) (n : Nat) (s : Store K V)
    (v : ValueView K) :
    ((turn action)^[n] (start s v)).visited = (s.viewed v).elements.take n := by
  rw [turns_eq]
  rfl

theorem turns_left_eq_nil_iff (action : V → Store K V → Store K V) (n : Nat) (s : Store K V)
    (v : ValueView K) :
    ((turn action)^[n] (start s v)).left = [] ↔ (s.viewed v).size ≤ n := by
  rw [turns_eq]
  exact List.drop_eq_nil_iff

end Walk

theorem Store.forEach_eq_turns (s : Store K V) (v : ValueView K)
    (action : V → Store K V → Store K V) :
    (Walk.turn action)^[(s.viewed v).size] (.start s v) =
      ⟨(s.forEach v action).2, [], (s.forEach v action).1⟩ := by
  rw [Walk.turns_eq]
  simp [Walk.start, Store.forEach, ValueSet.size]

-- ---------------------------------------------------------------------------
-- Walks that put
-- ---------------------------------------------------------------------------

variable [DecidableEq K] [DecidableEq V] {s : Store K V} {m : TableId} {key : K} {f : V → V}

def putting (m : TableId) (key : K) (f : V → V) (value : V) (s : Store K V) : Store K V :=
  (s.put m key (f value)).2

/-- All that has happened to the store since `s` is that the images of the visited values
were put under the key. -/
def Walk.HasPut (s : Store K V) (m : TableId) (key : K) (f : V → V) (w : Walk K V) : Prop :=
  s.Edits w.store (.under m key (·.insertAll (w.visited.map f)))

namespace Walk.HasPut

theorem start (h : s.WellFormed) (v : ValueView K) : HasPut s m key f (.start s v) := by
  refine (Store.Edits.refl h).congr fun n other => ?_
  unfold Edit.under
  split <;> rfl

theorem turn {w : Walk K V} (h : HasPut s m key f w) (hm : m.index < s.tables.size) :
    HasPut s m key f (w.turn (putting m key f)) := by
  obtain ⟨store, left, visited⟩ := w
  cases left with
  | nil => exact h
  | cons value left =>
    have hm' : m.index < store.tables.size := Nat.lt_of_lt_of_eq hm h.tables.symm
    have put := (Store.put_effect h.wellFormed hm' key (f value)).2
    refine (h.then put).congr fun n other => ?_
    rw [turn_cons, List.map_append, List.map_singleton]
    simp only [Edit.under, ValueSet.insertAll_concat]
    split <;> rfl

theorem turns (h : s.WellFormed) (hm : m.index < s.tables.size) (key : K) (f : V → V)
    (v : ValueView K) (n : Nat) : HasPut s m key f ((Walk.turn (putting m key f))^[n] (.start s v)) := by
  induction n with
  | zero => exact start h v
  | succ n ih =>
    rw [Function.iterate_succ_apply']
    exact ih.turn hm

variable {w : Walk K V}

theorem mem_contents (h : HasPut s m key f w) {x : V} :
    x ∈ w.store.contents m key ↔ x ∈ s.contents m key ∨ ∃ y ∈ w.visited, f y = x := by
  rw [h.contents, Edit.under, if_pos ⟨rfl, rfl⟩, ValueSet.mem_insertAll, List.mem_map, or_comm]

theorem contents_ne (h : HasPut s m key f w) {n : TableId} {other : K}
    (hn : ¬ (n = m ∧ other = key)) : w.store.contents n other = s.contents n other := by
  rw [h.contents, Edit.under, if_neg hn]

theorem mem_viewed (h : HasPut s m key f w) {v : ValueView K} (held : v.set ∈ s.held)
    (hv : s.slot? m key = some v.set) {x : V} :
    x ∈ w.store.viewed v ↔ x ∈ s.viewed v ∨ ∃ y ∈ w.visited, f y = x := by
  have ht := (h.slot?_eq held m key).mpr hv
  rw [Store.viewed, Store.viewed, ← Store.contents_of_slot? ht, ← Store.contents_of_slot? hv]
  exact h.mem_contents

theorem viewed_ne (h : HasPut s m key f w) {v : ValueView K} (held : v.set ∈ s.held)
    (hv : s.slot? m key ≠ some v.set) : w.store.viewed v = s.viewed v := by
  by_cases hs : ∃ n other, s.slot? n other = some v.set
  · obtain ⟨n, other, hs⟩ := hs
    have elsewhere : ¬ (n = m ∧ other = key) := by
      rintro ⟨rfl, rfl⟩
      exact hv hs
    have same := h.attached _ held n other hs
    rwa [Edit.under, if_neg elsewhere] at same
  · exact h.detached _ held fun n other ho => hs ⟨n, other, ho⟩

end Walk.HasPut

theorem Session.run_puts {s : Session K V} (h : s.store.WellFormed)
    (hm : m.index < s.store.tables.size) (key : K) (f : V → V) (values : List V) :
    (run step s (values.map fun value => .change m (.put key (f value)))).2 =
      { s with
        store := values.foldl (fun s value => putting m key f value s) s.store
        clock := s.clock + values.length } := by
  induction values generalizing s with
  | nil => rfl
  | cons value values ih =>
    have put := (Store.put_effect h hm key (f value)).2
    have first : (s.step (.change m (.put key (f value)))).2 =
        { s with store := putting m key f value s.store, clock := s.clock + 1 } := by
      simp only [step, perform, if_pos hm]
      rfl
    rw [List.map_cons, run_cons, first, ih put.wellFormed (put.tables ▸ hm), List.length_cons,
      Nat.add_right_comm, Nat.add_assoc]
    rfl

/-- A walk whose action puts under the key of the view, in any multimap, comes to an end and visits
nothing that the action has put. -/
theorem walks_visit_what_was_there (commands : List (Command K V)) (v : LiveView K)
    (hv : v ∈ (after commands).views) (m : TableId)
    (hm : m.index < (after commands).store.tables.size) (f : V → V) :
    let s := (after commands).store
    let (visited, t) := s.forEachPut v.view m f
    -- the walk ends, having visited what the view had at the call, each value once
    (Walk.turn (putting m v.view.key f))^[(s.viewed v.view).size] (.start s v.view) =
      ⟨t, [], visited⟩ ∧
    (visited.Nodup ∧ ∀ x, x ∈ visited ↔ x ∈ s.viewed v.view) ∧
    -- on its way, a turn visits one value, and the images of the visited values have been put
    (∀ n, let w := (Walk.turn (putting m v.view.key f))^[n] (.start s v.view)
      w.visited = visited.take n ∧ (w.left = [] ↔ (s.viewed v.view).size ≤ n) ∧
      ∀ x, x ∈ w.store.contents m v.view.key ↔
        x ∈ s.contents m v.view.key ∨ ∃ y ∈ w.visited, f y = x) ∧
    -- in the end the key has gained the images of all of them, and no other key has changed
    (∀ x, x ∈ t.contents m v.view.key ↔
      x ∈ s.contents m v.view.key ∨ ∃ y ∈ s.viewed v.view, f y = x) ∧
    (∀ n key, ¬ (n = m ∧ key = v.view.key) → t.contents n key = s.contents n key) ∧
    -- the view, if it has the set of the key, reads what was visited and the images of that
    (s.slot? m v.view.key = some v.view.set →
      ∀ x, x ∈ t.viewed v.view ↔ x ∈ visited ∨ ∃ y ∈ visited, f y = x) ∧
    -- every view stays attached, or detached, and reads on as before unless it has that set
    (∀ w ∈ (after commands).views,
      (∀ n key, t.slot? n key = some w.view.set ↔ s.slot? n key = some w.view.set) ∧
      (s.slot? m v.view.key = some w.view.set → ∀ x, x ∈ t.viewed w.view ↔
        x ∈ s.viewed w.view ∨ ∃ y ∈ s.viewed v.view, f y = x) ∧
      (s.slot? m v.view.key ≠ some w.view.set → t.viewed w.view = s.viewed w.view)) ∧
    -- the walk is a session of puts
    let puts := visited.map fun x => .change m (.put v.view.key (f x))
    t = (after (commands ++ puts)).store ∧ (after (commands ++ puts)).views = (after commands).views
    := by
  intro s
  have tracked := tracked_after commands
  have hs := tracked.wellFormed
  have along := Walk.HasPut.turns hs hm v.view.key f v.view
  have whole := Store.forEach_eq_turns s v.view (putting m v.view.key f)
  have last := along (s.viewed v.view).size
  rw [whole] at last
  have ran := Session.run_puts hs hm v.view.key f (s.viewed v.view).elements
  refine ⟨whole, ⟨(s.viewed v.view).nodup, fun _ => Iff.rfl⟩, fun n => ⟨?_, ?_, fun _ => ?_⟩,
    fun _ => last.mem_contents, fun _ _ => last.contents_ne,
    fun attached _ => last.mem_viewed (tracked.mem_held hv) attached, fun w hw => ?_, ?_⟩
  · exact Walk.turns_visited _ n s v.view
  · exact Walk.turns_left_eq_nil_iff _ n s v.view
  · exact (along n).mem_contents
  · have held := tracked.mem_held hw
    exact ⟨last.slot?_eq held, fun attached _ => last.mem_viewed held attached,
      last.viewed_ne held⟩
  · intro puts
    rw [Session.after_append]
    exact ⟨(congrArg (·.store) ran).symm, congrArg (·.views) ran⟩

/-- A walk whose action feeds the set that is walked over: the three that it puts is not visited. -/
theorem walks_do_not_chase_what_they_put :
    let commands : List (Command Nat Nat) :=
      [.create, .get ⟨0⟩ 7, .insertInto 0 1, .insertInto 0 2]
    let s := (after commands).store
    let v : ValueView Nat := ⟨7, ⟨0⟩⟩
    3 ∈ (s.forEachPut v ⟨0⟩ (· + 1)).2.viewed v ∧ 3 ∉ (s.forEachPut v ⟨0⟩ (· + 1)).1 := by
  intro commands s v
  have live : (⟨⟨0⟩, v, 2⟩ : LiveView Nat) ∈ (after commands).views := .head _
  have walked := walks_visit_what_was_there commands _ live ⟨0⟩ (by decide) (· + 1)
  obtain ⟨-, ⟨-, visited⟩, -, -, -, reads, -⟩ := walked
  have two : 2 ∈ s.viewed v := by decide
  refine ⟨(reads rfl 3).mpr (.inr ⟨2, (visited 2).mpr two, rfl⟩), fun three => ?_⟩
  exact absurd ((visited 3).mp three) (by decide)

end LiveCollections.Multimap
