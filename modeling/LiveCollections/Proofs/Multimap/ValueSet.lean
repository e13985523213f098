import LiveCollections.Multimap.ValueSet
import Mathlib.Data.Finset.Card

/-!
# Value sets as finite sets

A value set is read as the finite set of its elements; each operation on value
sets is the operation of that name on finite sets.
-/

namespace LiveCollections.ValueSet

variable {V : Type}

theorem ext {s t : ValueSet V} (h : s.elements = t.elements) : s = t := by
  cases s
  cases t
  cases h
  rfl

theorem isEmpty_iff {s : ValueSet V} : s.isEmpty = true ↔ s = empty := by
  refine ⟨fun h => ext (List.isEmpty_iff.mp h), ?_⟩
  rintro rfl
  rfl

theorem isEmpty_eq_false_iff {s : ValueSet V} : s.isEmpty = false ↔ ∃ v, v ∈ s := by
  rw [isEmpty, List.isEmpty_eq_false_iff_exists_mem]
  rfl

@[simp] theorem isEmpty_empty : (empty : ValueSet V).isEmpty = true := rfl

def toFinset (s : ValueSet V) : Finset V := ⟨s.elements, s.nodup⟩

@[simp] theorem mem_toFinset {s : ValueSet V} {v : V} : v ∈ s.toFinset ↔ v ∈ s := Iff.rfl

@[simp] theorem toFinset_empty : (empty : ValueSet V).toFinset = ∅ := rfl

theorem perm_of_mem_iff {s t : ValueSet V} (h : ∀ v, v ∈ s ↔ v ∈ t) : s.elements.Perm t.elements :=
  (List.perm_ext_iff_of_nodup s.nodup t.nodup).mpr h

variable [DecidableEq V]

@[simp] theorem contains_eq_true_iff {s : ValueSet V} {v : V} : s.contains v = true ↔ v ∈ s :=
  decide_eq_true_iff

@[simp] theorem erase_empty (v : V) : (empty : ValueSet V).erase v = empty := rfl

@[simp] theorem contains_empty (v : V) : (empty : ValueSet V).contains v = false := by
  simp [contains]

@[simp] theorem mem_ofList {vs : List V} {v : V} : v ∈ ofList vs ↔ v ∈ vs := by
  simp [ofList, mem_insertAll]

theorem insertAll_concat (s : ValueSet V) (vs : List V) (v : V) :
    s.insertAll (vs ++ [v]) = (s.insertAll vs).insert v := List.foldl_append

@[simp] theorem toFinset_insert (s : ValueSet V) (v : V) :
    (s.insert v).toFinset = Insert.insert v s.toFinset := by
  ext
  simp

@[simp] theorem toFinset_erase (s : ValueSet V) (v : V) :
    (s.erase v).toFinset = s.toFinset.erase v := by
  ext
  simp

theorem same_eq_true_iff {s t : ValueSet V} : s.same t = true ↔ ∀ v, v ∈ s ↔ v ∈ t := by
  rw [same, Bool.and_eq_true, beq_iff_eq, List.all_eq_true]
  simp only [contains_eq_true_iff]
  constructor
  · rintro ⟨size, inside⟩ v
    have part : s.elements.Subperm t.elements := List.subperm_of_subset s.nodup inside
    have whole := part.perm_of_length_le (Nat.le_of_eq size.symm)
    exact whole.mem_iff
  · intro h
    exact ⟨(perm_of_mem_iff h).length_eq, fun v hv => (h v).mp hv⟩

end LiveCollections.ValueSet
