import LiveCollections.Index.BinarySearch
import LiveCollections.Storage.Basic
import LiveCollections.Text.Literal

/-!
# How strategies and storages are written

A comparator shows whether it is the natural order, and never what it computes.
-/

namespace LiveCollections

open Text (Literal literal composed)

variable {σ K V : Type}

instance : Literal (Comparator K) where
  literal c := if c.isNatural then "Comparator::Natural" else "Comparator::Custom"

instance : Literal LinearScan := ⟨fun _ => "LinearScan"⟩

instance : Literal (BinarySearch K) where
  literal s := composed "BinarySearch" [("comparator", literal s.comparator)]

instance [Literal σ] [Literal K] [Literal V] : Literal (Storage σ K V) where
  literal s := composed "ArrayStorage"
    [("keys", literal s.keys), ("values", literal s.values), ("strategy", literal s.strategy)]

end LiveCollections
