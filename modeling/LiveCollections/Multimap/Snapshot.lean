import LiveCollections.Multimap.Operations

/-!
# Snapshots

A snapshot owns its contents: keys with their value sets, none of them empty. It
is taken from a multimap, listed entry by entry, or merged from entries; a key that
occurs more than once keeps its last entry in a list and all of them in a merger.
Restoring a snapshot builds fresh value sets, so that nothing is shared with the
multimap it came from.

Two snapshots are the same when they have as many keys and each key of one has the
same values in the other. Equality of multimaps is equality of their snapshots.
-/

namespace LiveCollections.Multimap

variable {K V : Type}

/-- The number of values in all groups together. -/
def valueCount : List (K × ValueSet V) → Nat
  | [] => 0
  | group :: rest => group.2.size + valueCount rest

structure Snapshot (K V : Type) where
  groups : List (K × ValueSet V)

namespace Snapshot

/-- Leaves out the keys without values. -/
def ofGroups (groups : List (K × ValueSet V)) : Snapshot K V :=
  ⟨groups.filter fun group => !group.2.isEmpty⟩

def size (s : Snapshot K V) : Nat := valueCount s.groups

def isEmpty (s : Snapshot K V) : Bool := s.groups.isEmpty

def keyCount (s : Snapshot K V) : Nat := s.groups.length

def pairs (s : Snapshot K V) : List (K × V) :=
  s.groups.flatMap fun group => group.2.elements.map fun value => (group.1, value)

/-- What is written of a snapshot: one entry for each key, with the values in any order. -/
def entries (s : Snapshot K V) : List (K × List V) :=
  s.groups.map fun group => (group.1, group.2.elements)

variable [DecidableEq K] [DecidableEq V]

/-- Keeps of each key the entry that stands last. -/
def latest : List (K × List V) → List (K × List V)
  | [] => []
  | entry :: rest =>
    if rest.any fun later => later.1 = entry.1 then latest rest else entry :: latest rest

/-- A later entry replaces an earlier one of the same key. -/
def ofList (entries : List (K × List V)) : Snapshot K V :=
  ofGroups ((latest entries).map fun entry => (entry.1, .ofList entry.2))

/-- Adds values to the group of a key, which is created if it is not there. -/
def mergeInto (groups : List (K × ValueSet V)) (entry : K × List V) : List (K × ValueSet V) :=
  match groups with
  | [] => [(entry.1, .ofList entry.2)]
  | group :: rest =>
    if group.1 = entry.1 then (group.1, group.2.insertAll entry.2) :: rest
    else group :: mergeInto rest entry

/-- The union of the entries: repeated keys merge, and keys left without values are dropped. -/
def ofEntries (entries : List (K × List V)) : Snapshot K V :=
  ofGroups (entries.foldl mergeInto [])

def same (s t : Snapshot K V) : Bool :=
  s.keyCount == t.keyCount &&
    s.groups.all fun group => (t.groups.lookup group.1).any group.2.same

end Snapshot

namespace Store

/-- The groups of a table, the slots without values included. -/
def slotGroups (s : Store K V) (m : TableId) : List (K × ValueSet V) :=
  (s.table m).slots.map fun slot => (slot.1, s.values slot.2)

def snapshot (s : Store K V) (m : TableId) : Snapshot K V := .ofGroups (s.slotGroups m)

/-- A fresh set for each group. -/
def newSets (s : Store K V) : List (K × ValueSet V) → List (K × SetId) × Store K V
  | [] => ([], s)
  | (key, values) :: rest =>
    let (id, s) := s.newSet values
    let (slots, s) := s.newSets rest
    ((key, id) :: slots, s)

def restore (s : Store K V) (snapshot : Snapshot K V) : TableId × Store K V :=
  let (slots, s) := s.newSets snapshot.groups
  s.newTable slots

/-- A multimap with the same contents that shares nothing with this one. -/
def reserialize (s : Store K V) (m : TableId) : TableId × Store K V := s.restore (s.snapshot m)

/-- A table is equal to itself without being read. -/
def sameContents [DecidableEq K] [DecidableEq V] (s : Store K V) (m n : TableId) : Bool :=
  m == n || (s.snapshot m).same (s.snapshot n)

end Store

end LiveCollections.Multimap
