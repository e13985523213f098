import LiveCollections.Event
import LiveCollections.Multimap.ValueSet

/-!
# Tables of shared value sets

A multimap is a table from keys to value sets, and a value set has an identity of
its own: a live view holds the identity, not the contents. The store keeps the
sets by identity, the tables, the identities that live views hold (one occurrence
per view), and a log of events.

A slot whose set is empty and held by no view is unused. A slot is only ever
created by `slotFor`, which first drops the unused slots of a table that has
reached its sweep threshold and then sets the next threshold to twice what was
left, sixteen at least. A set that is not in a table can be reached only through
the views that still hold it.
-/

namespace LiveCollections.Multimap

variable {K V α : Type}

structure SetId where
  index : Nat
  deriving DecidableEq, Repr

structure TableId where
  index : Nat
  deriving DecidableEq, Repr

def sweepFloor : Nat := 16

structure Table (K : Type) where
  slots : List (K × SetId) := []
  sweepAt : Nat := sweepFloor

structure Store (K V : Type) where
  sets : Array (ValueSet V) := #[]
  tables : Array (Table K) := #[]
  held : List SetId := []
  log : List Event := []

namespace Store

def report (s : Store K V) (event : Event) : Store K V := { s with log := s.log ++ [event] }

def table (s : Store K V) (m : TableId) : Table K := s.tables[m.index]?.getD {}

def setTable (s : Store K V) (m : TableId) (table : Table K) : Store K V :=
  { s with tables := s.tables.setIfInBounds m.index table }

def values (s : Store K V) (id : SetId) : ValueSet V := s.sets[id.index]?.getD .empty

def setValues (s : Store K V) (id : SetId) (values : ValueSet V) : Store K V :=
  { s with sets := s.sets.setIfInBounds id.index values }

theorem values_setValues_self (s : Store K V) {id : SetId} (h : id.index < s.sets.size)
    (values : ValueSet V) : (s.setValues id values).values id = values := by
  simp [setValues, Store.values, h]

theorem values_setValues_ne (s : Store K V) {id other : SetId} (h : other ≠ id)
    (values : ValueSet V) : (s.setValues id values).values other = s.values other := by
  have hi : id.index ≠ other.index := fun e => h (by cases id; cases other; simp_all)
  simp [setValues, Store.values, Array.getElem?_setIfInBounds_ne hi]

theorem table_setTable_self (s : Store K V) {m : TableId} (h : m.index < s.tables.size)
    (table : Table K) : (s.setTable m table).table m = table := by
  simp [setTable, Store.table, h]

theorem table_setTable_ne (s : Store K V) {m other : TableId} (h : other ≠ m)
    (table : Table K) : (s.setTable m table).table other = s.table other := by
  have hi : m.index ≠ other.index := fun e => h (by cases m; cases other; simp_all)
  simp [setTable, Store.table, Array.getElem?_setIfInBounds_ne hi]

/-- Changes one value set, and answers what the change answers. -/
def change (s : Store K V) (id : SetId) (f : ValueSet V → α × ValueSet V) : α × Store K V :=
  let (answer, values) := f (s.values id)
  (answer, s.setValues id values)

def newSet (s : Store K V) (values : ValueSet V) : SetId × Store K V :=
  (⟨s.sets.size⟩, { s with sets := s.sets.push values })

def newTable (s : Store K V) (slots : List (K × SetId)) : TableId × Store K V :=
  (⟨s.tables.size⟩, { s with tables := s.tables.push { slots } })

def isUnused (s : Store K V) (id : SetId) : Bool := (s.values id).isEmpty && !s.held.contains id

/-- A set that a view holds is in use, whatever is in it. -/
theorem isUnused_of_mem_held {s : Store K V} {id : SetId} (h : id ∈ s.held) :
    s.isUnused id = false := by
  simp [isUnused, h]

/-- A set with a value is in use, whether or not a view holds it. -/
theorem isUnused_of_mem_values {s : Store K V} {id : SetId} {value : V} (h : value ∈ s.values id) :
    s.isUnused id = false := by
  have : (s.values id).isEmpty = false := by
    simpa [ValueSet.isEmpty] using List.ne_nil_of_mem h
  simp [isUnused, this]

def acquire (s : Store K V) (id : SetId) : Store K V := { s with held := id :: s.held }

/-- One view fewer holds the set; the others are not affected. -/
def release (s : Store K V) (id : SetId) : Store K V := { s with held := s.held.erase id }

/-- Drops the unused slots of a table. -/
def sweep (s : Store K V) (m : TableId) : Store K V :=
  let table := s.table m
  s.setTable m { table with slots := table.slots.filter fun slot => !s.isUnused slot.2 }

/-- A table at its threshold is swept, and gets a new one. -/
def sweepIfFull (s : Store K V) (m : TableId) : Store K V :=
  let before := (s.table m).slots.length
  if (s.table m).sweepAt ≤ before then
    let swept := s.sweep m
    let after := (swept.table m).slots.length
    let threshold := max (2 * after) sweepFloor
    (swept.setTable m { swept.table m with sweepAt := threshold }).report
      (.unusedSwept before (before - after))
  else s

variable [DecidableEq K]

def slot? (s : Store K V) (m : TableId) (key : K) : Option SetId := (s.table m).slots.lookup key

/-- The set of a key, created empty if the table has none. -/
def slotFor (s : Store K V) (m : TableId) (key : K) : SetId × Store K V :=
  match s.slot? m key with
  | some id => (id, s)
  | none =>
    let (id, s) := (s.sweepIfFull m).newSet .empty
    let table := s.table m
    (id, (s.setTable m { table with slots := (key, id) :: table.slots }).report .valueSetCreated)

/-- Forgets the slot of a key; views that hold its set keep it. -/
def dropSlot (s : Store K V) (m : TableId) (key : K) : Store K V :=
  let table := s.table m
  s.setTable m { table with slots := table.slots.filter fun slot => slot.1 ≠ key }

/-- Drops the slot of a key if it is unused. -/
def prune (s : Store K V) (m : TableId) (key : K) : Store K V :=
  match s.slot? m key with
  | some id => if s.isUnused id then s.dropSlot m key else s
  | none => s

/-- The section that changes the set of a key which has one, leaving the table alone. -/
def updatePresent? (s : Store K V) (m : TableId) (key : K) (f : ValueSet V → α × ValueSet V) :
    Option (α × Store K V) :=
  (s.slot? m key).map fun id => s.change id f

/-- The section that may create the set of a key before changing it. -/
def updateCreating (s : Store K V) (m : TableId) (key : K) (f : ValueSet V → α × ValueSet V) :
    α × Store K V :=
  let (id, s) := s.slotFor m key
  s.change id f

def update (s : Store K V) (m : TableId) (key : K) (f : ValueSet V → α × ValueSet V) :
    α × Store K V :=
  (s.updatePresent? m key f).getD (s.updateCreating m key f)

end Store

end LiveCollections.Multimap
