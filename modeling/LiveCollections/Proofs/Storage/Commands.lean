import LiveCollections.Proofs.Storage.Reference

/-!
# Commands to a collection

Views of a map hold its storage and go through the same operations, so a command does
not say through which view it is given: removing a key from a map, from its key set or
through the view of that key is one command, and so is overwriting a value where there
is one.

A strategy is faithful on storages with some property when it finds keys by their class
there and every operation keeps the property. Collections with a faithful strategy
answer every command as the finite map does.
-/

namespace LiveCollections

variable {κ σ K V : Type}

inductive CollectionCommand (K V : Type)
  | insert (key : K) (value : V)
  | extend (entries : List (K × V))
  | remove (key : K)
  | replace (key : K) (value : V)
  | clear
  /-- Goes on with a copy. -/
  | copy

inductive CollectionAnswer (K V : Type)
  | inserted (answer : Except Fault (Option V)) (events : List Event)
  | extended (answer : Except Fault Unit) (events : List Event)
  | removed (entry : Option (K × V))
  | replaced (previous : Option V)
  | cleared
  | copied

def Storage.perform [IndexStrategy σ K] (s : Storage σ K V) :
    CollectionCommand K V → CollectionAnswer K V × Storage σ K V
  | .insert key value =>
    let outcome := s.upsert key value
    (.inserted outcome.answer outcome.events, outcome.after)
  | .extend entries =>
    let outcome := s.upsertAll entries
    (.extended outcome.answer outcome.events, outcome.after)
  | .remove key => (s.removeKey key).map .removed id
  | .replace key value => (s.replaceValue key value).map .replaced id
  | .clear => (.cleared, s.clear)
  | .copy => (.copied, s.copy)

variable [DecidableEq κ] {classOf : K → κ}

/-- No command makes a finite map fail or report anything. -/
def Reference.perform (classOf : K → κ) (m : Reference κ K V) :
    CollectionCommand K V → CollectionAnswer K V × Reference κ K V
  | .insert key value =>
    let (previous, after) := m.upsert classOf key value
    (.inserted (.ok previous) [], after)
  | .extend entries => (.extended (.ok ()) [], m.upsertAll classOf entries)
  | .remove key => (m.removeKey classOf key).map .removed id
  | .replace key value => (m.replaceValue classOf key value).map .replaced id
  | .clear => (.cleared, ∅)
  | .copy => (.copied, m)

/-- Where the property holds the strategy finds keys by their class, and it goes on to hold. -/
structure Faithful [IndexStrategy σ K] (classOf : K → κ) (I : Storage σ K V → Prop) : Prop where
  locates : ∀ {s}, I s → s.Locates classOf
  upsert : ∀ {s} key value, I s → I (s.upsert key value).after
  removeKey : ∀ {s} key, I s → I (s.removeKey key).2
  replaceValue : ∀ {s} key value, I s → I (s.replaceValue key value).2
  clear : ∀ {s}, I s → I s.clear
  copy : ∀ {s}, I s → I s.copy

theorem Faithful.perform [IndexStrategy σ K] {I : Storage σ K V → Prop} (f : Faithful classOf I)
    {s : Storage σ K V} {m : Reference κ K V} (hs : I s) (h : s.Represents classOf m)
    (c : CollectionCommand K V) :
    (s.perform c).1 = (m.perform classOf c).1 ∧ I (s.perform c).2 ∧
      (s.perform c).2.Represents classOf (m.perform classOf c).2 := by
  cases c with
  | insert key value =>
    obtain ⟨answer, events, after⟩ := h.upsert (f.locates hs) key value
    exact ⟨congrArg₂ _ answer events, f.upsert key value hs, after⟩
  | extend entries =>
    obtain ⟨answer, events, kept, after⟩ := h.upsertAll f.locates f.upsert hs entries
    exact ⟨congrArg₂ _ answer events, kept, after⟩
  | remove key =>
    obtain ⟨answer, after⟩ := h.removeKey (f.locates hs) key
    exact ⟨congrArg _ answer, f.removeKey key hs, after⟩
  | replace key value =>
    obtain ⟨answer, after⟩ := h.replaceValue (f.locates hs) key value
    exact ⟨congrArg _ answer, f.replaceValue key value hs, after⟩
  | clear => exact ⟨rfl, f.clear hs, .clear s⟩
  | copy => exact ⟨rfl, f.copy hs, h.copy⟩

end LiveCollections
