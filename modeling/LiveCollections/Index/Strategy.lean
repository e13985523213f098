import LiveCollections.Error

/-!
# Index strategies

A strategy answers two questions about a list of keys: where a key lives now,
and where an absent key would go. Nothing forces the two answers to agree with
each other or to stay inside the list; a storage has to cope with whatever it is
told.

`LinearScan` compares by equality and appends, so that its keys stay in the
order in which they arrived.
-/

namespace LiveCollections

variable {K : Type}

class IndexStrategy (σ K : Type) where
  indexOf : σ → List K → K → Option Nat
  /-- Refuses with `contractViolation` a key that is already present. -/
  insertionIndex : σ → List K → K → Except CollectionError Nat

structure LinearScan where
  deriving DecidableEq, Repr, Inhabited

instance [BEq K] : IndexStrategy LinearScan K where
  indexOf _ keys key := keys.findIdx? (· == key)
  insertionIndex _ keys _ := .ok keys.length

end LiveCollections
