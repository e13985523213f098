import LiveCollections.Proofs.Run
import LiveCollections.Proofs.Storage.Operations

/-!
# The room of a storage

A storage asks for room where an insertion meets it full, whether or not the insertion then
faults, and asks for as many entries as it holds, four at least. A growth moves the entries
that are there. They are paid for in advance: an entry past half of the room has brought in
two, which is what it takes to move it and one of the first half when the room is full.

Keys and values are kept in arrays of their own, and the room of the storage is what both of
them have. Values without a size, such as those of a set, need no room.
-/

namespace LiveCollections

variable {σ K V : Type}

namespace Storage

-- ---------------------------------------------------------------------------
-- One operation
-- ---------------------------------------------------------------------------

section Steps

variable {s t : Storage σ K V} {place? : Option Nat}

theorem capacity_growIfFull (fits : s.size ≤ s.capacity) :
    s.growIfFull.capacity = if s.size = s.capacity then s.size + max s.size 4 else s.capacity := by
  unfold growIfFull
  rcases Nat.lt_or_eq_of_le fits with room | full
  · rw [if_pos room, if_neg (Nat.ne_of_lt room)]
  · rw [if_neg (Nat.not_lt_of_le (Nat.le_of_eq full.symm)), if_pos full]
    rfl

namespace Resized

theorem capacity_eq (h : s.Resized t place?) (fits : s.size ≤ s.capacity) :
    t.capacity = if place?.isSome ∧ s.size = s.capacity then s.size + max s.size 4
      else s.capacity := by
  cases h with
  | inserted _ _ room | faulted _ _ room => simpa [capacity_growIfFull fits] using room
  | kept _ room => simpa using room

theorem fits (h : s.Resized t place?) (fits : s.size ≤ s.capacity) : t.size ≤ t.capacity := by
  have capacity := h.capacity_eq fits
  cases h with
  | inserted _ size _ | faulted _ size _ =>
    simp only [Option.isSome_some, true_and] at capacity
    split at capacity <;> omega
  | kept size room => omega

theorem capacity_le (h : s.Resized t place?) (fits : s.size ≤ s.capacity) :
    t.capacity ≤ max s.capacity (max (2 * s.size) (s.size + 4)) := by
  have capacity := h.capacity_eq fits
  split at capacity <;> omega

end Resized

/-- How many entries are past half of the room, counted twice. -/
def surplus (s : Storage σ K V) : Nat := 2 * s.size - s.capacity

/-- The entries that a growth moves are taken from the surplus, which only insertions raise. -/
theorem Resized.cost_le (h : s.Resized t place?) (fits : s.size ≤ s.capacity) :
    (if t.capacity = s.capacity then 0 else s.size) + t.surplus ≤
      s.surplus + 2 * (if s.size < t.size then 1 else 0) := by
  have capacity := h.capacity_eq fits
  unfold surplus
  cases h with
  | inserted _ size _ =>
    simp only [Option.isSome_some, true_and] at capacity
    have more : s.size < t.size := size ▸ Nat.lt_succ_self _
    rw [if_pos more]
    split at capacity <;> split <;> omega
  | faulted _ size _ =>
    simp only [Option.isSome_some, true_and] at capacity
    have same : ¬ s.size < t.size := Nat.not_lt_of_le (Nat.le_of_eq size)
    rw [if_neg same]
    split at capacity <;> split <;> omega
  | kept size room =>
    rw [if_pos room]
    omega

end Steps

-- ---------------------------------------------------------------------------
-- Runs
-- ---------------------------------------------------------------------------

section Runs

variable [IndexStrategy σ K]

def peak (s : Storage σ K V) : List (StorageCommand K V) → Nat
  | [] => s.size
  | c :: cs => max s.size ((s.operate c).2.peak cs)

/-- How many operations leave an entry more than there was; an insertion that faults does not. -/
def insertions (s : Storage σ K V) : List (StorageCommand K V) → Nat
  | [] => 0
  | c :: cs => (if s.size < (s.operate c).2.size then 1 else 0) + (s.operate c).2.insertions cs

/-- How many entries are there whenever the room changes, added up. -/
def moved (s : Storage σ K V) : List (StorageCommand K V) → Nat
  | [] => 0
  | c :: cs =>
    (if (s.operate c).2.capacity = s.capacity then 0 else s.size) + (s.operate c).2.moved cs

variable {s : Storage σ K V} {commands : List (StorageCommand K V)}

theorem fits_run (fits : s.size ≤ s.capacity) (keeps : ∀ c ∈ commands, c.keepsRoom = true) :
    (run operate s commands).2.size ≤ (run operate s commands).2.capacity := by
  induction commands generalizing s with
  | nil => exact fits
  | cons c cs ih =>
    obtain ⟨first, rest⟩ := List.forall_mem_cons.mp keeps
    exact ih ((s.resized_operate first).fits fits) rest

theorem capacity_run_le (fits : s.size ≤ s.capacity)
    (keeps : ∀ c ∈ commands, c.keepsRoom = true) :
    (run operate s commands).2.capacity ≤
      max s.capacity (max (2 * s.peak commands) (s.peak commands + 4)) := by
  induction commands generalizing s with
  | nil => exact Nat.le_max_left _ _
  | cons c cs ih =>
    obtain ⟨first, rest⟩ := List.forall_mem_cons.mp keeps
    have resized := s.resized_operate first
    have step := resized.capacity_le fits
    have others := ih (resized.fits fits) rest
    simp only [run_cons, peak]
    omega

theorem moved_le (fits : s.size ≤ s.capacity) (keeps : ∀ c ∈ commands, c.keepsRoom = true) :
    s.moved commands + (run operate s commands).2.surplus ≤
      s.surplus + 2 * s.insertions commands := by
  induction commands generalizing s with
  | nil => simp [moved, run]
  | cons c cs ih =>
    obtain ⟨first, rest⟩ := List.forall_mem_cons.mp keeps
    have resized := s.resized_operate first
    have step := resized.cost_le fits
    have others := ih (resized.fits fits) rest
    simp only [run_cons, moved, insertions]
    omega

end Runs

end Storage

-- ---------------------------------------------------------------------------
-- The rooms of the two arrays
-- ---------------------------------------------------------------------------

def reserved (room length more : Nat) : Nat := if more ≤ room - length then room else length + more

structure Rooms where
  keys : Nat
  /-- Values without a size are never short of room. -/
  values : Option Nat
  deriving DecidableEq

namespace Rooms

def withCapacity (capacity : Nat) (sized : Bool) : Rooms :=
  ⟨capacity, if sized then some capacity else none⟩

def least (r : Rooms) : Nat := r.values.elim r.keys (min r.keys)

/-- Both arrays reserve the same, once one of them is full. -/
def grow (r : Rooms) (length : Nat) : Rooms :=
  if length < r.least then r
  else
    let more := max length Storage.minimumRoom
    ⟨reserved r.keys length more, r.values.map fun room => reserved room length more⟩

def after [IndexStrategy σ K] (r : Rooms) (s : Storage σ K V) : List (StorageCommand K V) → Rooms
  | [] => r
  | c :: cs => after (if (c.place? s).isSome then r.grow s.size else r) (s.operate c).2 cs

@[simp] theorem least_withCapacity (capacity : Nat) (sized : Bool) :
    (withCapacity capacity sized).least = capacity := by
  cases sized
  · rfl
  · exact Nat.min_self capacity

theorem grow_withCapacity {s : Storage σ K V} (fits : s.size ≤ s.capacity) (sized : Bool) :
    (withCapacity s.capacity sized).grow s.size = withCapacity s.growIfFull.capacity sized := by
  unfold grow Storage.growIfFull
  rw [least_withCapacity]
  split
  · rfl
  · rename_i full
    have grown : reserved s.capacity s.size (max s.size Storage.minimumRoom) =
        s.size + max s.size Storage.minimumRoom := by
      refine if_neg ?_
      unfold Storage.minimumRoom
      omega
    cases sized <;> simp [withCapacity, grown]

theorem after_withCapacity [IndexStrategy σ K] {s : Storage σ K V}
    {commands : List (StorageCommand K V)} (fits : s.size ≤ s.capacity)
    (keeps : ∀ c ∈ commands, c.keepsRoom = true) (sized : Bool) :
    (withCapacity s.capacity sized).after s commands =
      withCapacity (run Storage.operate s commands).2.capacity sized := by
  induction commands generalizing s with
  | nil => rfl
  | cons c cs ih =>
    obtain ⟨first, rest⟩ := List.forall_mem_cons.mp keeps
    have resized := s.resized_operate first
    rw [run_cons, after, ← ih (resized.fits fits) rest]
    congr 1
    generalize c.place? s = place? at resized ⊢
    cases resized with
    | inserted _ _ room | faulted _ _ room => rw [room]; exact grow_withCapacity fits sized
    | kept _ room => rw [room]; rfl

end Rooms

-- ---------------------------------------------------------------------------
-- The main result
-- ---------------------------------------------------------------------------

/-- While nothing gives room back, it grows with the largest size, and moving is paid for. -/
theorem room_grows_geometrically [IndexStrategy σ K] (strategy : σ) (capacity : Nat)
    (commands : List (StorageCommand K V)) (keeps : ∀ c ∈ commands, c.keepsRoom = true) :
    let start : Storage σ K V := .withCapacity capacity strategy
    let s := (run Storage.operate start commands).2
    let largest := start.peak commands
    s.size ≤ s.capacity ∧
    -- only an insertion into a full storage changes the room, also one past the end
    (∀ c : StorageCommand K V, c.keepsRoom = true → (s.operate c).2.capacity =
      if (c.place? s).isSome ∧ s.size = s.capacity then s.size + max s.size 4 else s.capacity) ∧
    s.capacity ≤ max capacity (max (2 * largest) (largest + 4)) ∧
    start.moved commands ≤ 2 * start.insertions commands ∧
    -- the room of the storage is what both arrays have
    ∀ sized, ((Rooms.withCapacity capacity sized).after start commands).least = s.capacity := by
  intro start s largest
  have fits : start.size ≤ start.capacity := Nat.zero_le capacity
  have fits' := Storage.fits_run fits keeps
  refine ⟨fits', fun c hc => (s.resized_operate hc).capacity_eq fits',
    Storage.capacity_run_le fits keeps, ?_, fun sized => ?_⟩
  · have paid := Storage.moved_le fits keeps
    have none : start.surplus = 0 := Nat.zero_sub capacity
    omega
  · rw [← Rooms.least_withCapacity s.capacity sized, ← Rooms.after_withCapacity fits keeps sized]
    rfl

/-- A set with room for two asks for more before it finds that there is no ninth position. -/
theorem room_for_two_becomes_six :
    let commands : List (StorageCommand Nat Unit) :=
      [.insertAt 0 7 (), .upsert 5 (), .upsert 7 (), .insertAt 9 6 (), .removeAt 0, .clear]
    let start : Storage LinearScan Nat Unit := .withCapacity 2 ⟨⟩
    (∀ c ∈ commands, c.keepsRoom = true) ∧ start.moved commands ≤ 2 * start.insertions commands ∧
      (run Storage.operate start commands).2.capacity = 6 ∧ start.moved commands = 2 ∧
      start.insertions commands = 2 := by
  intro commands start
  have keeps : ∀ c ∈ commands, c.keepsRoom = true := by decide
  exact ⟨keeps, (room_grows_geometrically LinearScan.mk 2 commands keeps).2.2.2.1, by decide,
    by decide, by decide⟩

end LiveCollections
