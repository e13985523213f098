import LiveCollections.Storage.Basic

/-!
# The pairs of a storage

A storage is paired while it holds as many values as keys. Every positional edit
keeps it paired, and is one list operation on `pairs`; an insertion past the end
leaves the pairs as they were.
-/

namespace LiveCollections.Storage

variable {σ K V : Type}

def Paired (s : Storage σ K V) : Prop := s.keys.length = s.values.length

instance (s : Storage σ K V) : Decidable s.Paired :=
  inferInstanceAs (Decidable (s.keys.length = s.values.length))

theorem paired_withCapacity (capacity : Nat) (strategy : σ) :
    (withCapacity capacity strategy : Storage σ K V).Paired := rfl

theorem paired_clear (s : Storage σ K V) : s.clear.Paired := rfl

theorem Paired.length_pairs {s : Storage σ K V} (h : s.Paired) : s.pairs.length = s.size := by
  rw [pairs, List.length_zip, size]
  exact Nat.min_eq_left (Nat.le_of_eq h)

theorem entryAt?_eq_getElem? (s : Storage σ K V) (index : Nat) :
    s.entryAt? index = s.pairs[index]? := by
  simp only [entryAt?, keyAt?, valueAt?, pairs, List.zip]
  rw [List.getElem?_zipWith]
  cases s.keys[index]? <;> cases s.values[index]? <;> rfl

@[simp] theorem keys_growIfFull (s : Storage σ K V) : s.growIfFull.keys = s.keys := by
  unfold growIfFull
  split <;> rfl

@[simp] theorem values_growIfFull (s : Storage σ K V) : s.growIfFull.values = s.values := by
  unfold growIfFull
  split <;> rfl

private theorem zip_insertIdx_of_length_eq {keys : List K} {values : List V}
    (h : keys.length = values.length) (index : Nat) (key : K) (value : V) :
    (keys.insertIdx index key).zip (values.insertIdx index value) =
      (keys.zip values).insertIdx index (key, value) := by
  induction index generalizing keys values with
  | zero => simp
  | succ index ih =>
    cases keys with
    | nil => cases values with
      | nil => simp
      | cons => simp at h
    | cons k keys => cases values with
      | nil => simp at h
      | cons v values => simpa using ih (by simpa using h)

private theorem zip_eraseIdx (keys : List K) (values : List V) (index : Nat) :
    (keys.eraseIdx index).zip (values.eraseIdx index) = (keys.zip values).eraseIdx index := by
  induction index generalizing keys values with
  | zero => cases keys <;> cases values <;> simp
  | succ index ih =>
    cases keys with
    | nil => simp
    | cons k keys => cases values with
      | nil => simp
      | cons v values => simpa using ih keys values

private theorem zip_set_right (keys : List K) (values : List V) (index : Nat) (value : V) :
    keys.zip (values.set index value) =
      (keys.zip values).modify index fun pair => (pair.1, value) := by
  induction index generalizing keys values with
  | zero => cases keys <;> cases values <;> simp
  | succ index ih =>
    cases keys with
    | nil => simp
    | cons k keys => cases values with
      | nil => simp
      | cons v values => simpa using ih keys values

theorem Paired.insertAt {s : Storage σ K V} (h : s.Paired) (index : Nat) (key : K) (value : V) :
    (s.insertAt index key value).after.Paired := by
  have hl : s.keys.length = s.values.length := h
  unfold Storage.insertAt
  split <;> simp [Paired, List.length_insertIdx, hl]

theorem pairs_insertAt {s : Storage σ K V} (h : s.Paired) {index : Nat} (hi : index ≤ s.size)
    (key : K) (value : V) :
    (s.insertAt index key value).after.pairs = s.pairs.insertIdx index (key, value) := by
  simp [Storage.insertAt, hi, pairs, zip_insertIdx_of_length_eq h]

theorem pairs_insertAt_of_size_lt {s : Storage σ K V} {index : Nat} (hi : s.size < index)
    (key : K) (value : V) : (s.insertAt index key value).after.pairs = s.pairs := by
  simp [Storage.insertAt, Nat.not_le.mpr hi, pairs]

theorem pairs_removeAt (s : Storage σ K V) (index : Nat) :
    (s.removeAt index).2.pairs = s.pairs.eraseIdx index := by
  unfold removeAt
  split
  · rename_i absent
    rw [entryAt?_eq_getElem?, List.getElem?_eq_none_iff] at absent
    exact (List.eraseIdx_of_length_le absent).symm
  · exact zip_eraseIdx s.keys s.values index

theorem pairs_replaceValueAt (s : Storage σ K V) (index : Nat) (value : V) :
    (s.replaceValueAt index value).2.pairs =
      s.pairs.modify index fun pair => (pair.1, value) := by
  have changed := zip_set_right s.keys s.values index value
  unfold replaceValueAt
  split
  · rename_i absent
    rw [valueAt?, List.getElem?_eq_none_iff] at absent
    rwa [List.set_eq_of_length_le absent] at changed
  · exact changed

theorem Paired.removeAt {s : Storage σ K V} (h : s.Paired) (index : Nat) :
    (s.removeAt index).2.Paired := by
  have hl : s.keys.length = s.values.length := h
  unfold Storage.removeAt
  split
  · exact h
  · simp [Paired, List.length_eraseIdx, hl]

theorem Paired.replaceValueAt {s : Storage σ K V} (h : s.Paired) (index : Nat) (value : V) :
    (s.replaceValueAt index value).2.Paired := by
  unfold Storage.replaceValueAt
  split
  · exact h
  · simpa [Paired] using h

end LiveCollections.Storage
