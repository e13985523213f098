/-!
# Value sets

A finite set of values: a list that names each of its elements once. The order of
the list carries no meaning, so two value sets are the same when they have as
many elements and each of one is in the other.
-/

namespace LiveCollections

variable {V : Type}

structure ValueSet (V : Type) where
  elements : List V
  nodup : elements.Nodup

namespace ValueSet

def empty : ValueSet V := ⟨[], .nil⟩

instance : Inhabited (ValueSet V) := ⟨empty⟩

instance : Membership V (ValueSet V) := ⟨fun s v => v ∈ s.elements⟩

def size (s : ValueSet V) : Nat := s.elements.length

def isEmpty (s : ValueSet V) : Bool := s.elements.isEmpty

@[simp] theorem not_mem_empty {v : V} : v ∉ (empty : ValueSet V) := List.not_mem_nil

variable [DecidableEq V]

instance (s : ValueSet V) (v : V) : Decidable (v ∈ s) :=
  inferInstanceAs (Decidable (v ∈ s.elements))

def contains (s : ValueSet V) (v : V) : Bool := decide (v ∈ s)

def insert (s : ValueSet V) (v : V) : ValueSet V :=
  if present : v ∈ s.elements then s
  else ⟨v :: s.elements, List.nodup_cons.mpr ⟨present, s.nodup⟩⟩

def erase (s : ValueSet V) (v : V) : ValueSet V := ⟨s.elements.erase v, s.nodup.erase v⟩

def insertAll (s : ValueSet V) (vs : List V) : ValueSet V := vs.foldl insert s

def ofList (vs : List V) : ValueSet V := empty.insertAll vs

/-- Equality of contents, whatever the order of the elements. -/
def same (s t : ValueSet V) : Bool := s.size == t.size && s.elements.all t.contains

@[simp] theorem mem_insert {s : ValueSet V} {v w : V} : w ∈ s.insert v ↔ w = v ∨ w ∈ s := by
  unfold insert
  split
  · rename_i present
    exact ⟨.inr, fun h => h.elim (fun e => e ▸ present) id⟩
  · exact List.mem_cons

@[simp] theorem mem_erase {s : ValueSet V} {v w : V} : w ∈ s.erase v ↔ w ≠ v ∧ w ∈ s :=
  s.nodup.mem_erase_iff

theorem mem_insertAll {s : ValueSet V} {vs : List V} {w : V} :
    w ∈ s.insertAll vs ↔ w ∈ vs ∨ w ∈ s := by
  induction vs generalizing s with
  | nil => simp [insertAll]
  | cons v vs ih =>
    have step : s.insertAll (v :: vs) = (s.insert v).insertAll vs := rfl
    rw [step, ih, mem_insert, List.mem_cons]
    exact ⟨fun h => by rcases h with h | h | h <;> simp [h],
      fun h => by rcases h with (h | h) | h <;> simp [h]⟩

end ValueSet

end LiveCollections
