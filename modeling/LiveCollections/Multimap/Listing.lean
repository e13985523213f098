import LiveCollections.Multimap.Contents
import LiveCollections.Multimap.View
import LiveCollections.Text.Literal

/-!
# Showing multimaps

Tables and value sets have no order of their own, so what is shown of them is put
in ascending order first.
-/

namespace LiveCollections

open Text (Literal literal composed setLiteral braced)

variable {K V : Type}

/-- In ascending natural order. -/
def ascending [Ord K] (keys : List K) : List K :=
  keys.mergeSort fun a b => (compare a b).isLE

/-- In ascending order of the first components, then of the second ones. -/
def ascendingPairs [Ord K] [Ord V] (pairs : List (K × V)) : List (K × V) :=
  pairs.mergeSort fun a b => ((compare a.1 b.1).then (compare a.2 b.2)).isLE

/-- In ascending order of the keys, with the values of each in ascending order. -/
def ascendingGroups [Ord K] [Ord V] (groups : List (K × ValueSet V)) : List (K × List V) :=
  (groups.mergeSort fun a b => (compare a.1 b.1).isLE).map fun group =>
    (group.1, ascending group.2.elements)

instance [Literal V] : Literal (ValueSet V) := ⟨fun s => setLiteral s.elements⟩

namespace Multimap

instance [Literal K] [Literal V] : Literal (Snapshot K V) where
  literal s := composed "MultimapSnapshot" [("entries", Text.mapLiteral s.groups)]

def Store.viewLiteral [Literal K] [Literal V] (s : Store K V) (v : ValueView K) : String :=
  composed "ValueSetView" [("key", literal v.key), ("values", literal (s.values v.set))]

def Store.multimapLiteral [Literal K] [Literal V] (s : Store K V) (m : TableId) : String :=
  Text.mapLiteral (s.snapshot m).groups

def Store.keySetLiteral [Literal K] (s : Store K V) (m : TableId) : String :=
  setLiteral (s.keys m)

end Multimap

end LiveCollections
