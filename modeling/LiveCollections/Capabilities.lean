/-!
# What each collection accepts

An optional key or value is an ordinary element: its absent form is stored,
found and removed like any other. Every kind of collection accepts both.
-/

namespace LiveCollections

inductive CollectionKind
  | linearMap
  | sortedMap
  | linearSet
  | sortedSet
  | multimap
  deriving DecidableEq, Repr

structure Capabilities where
  absentKeys : Bool
  absentValues : Bool
  deriving DecidableEq, Repr

def CollectionKind.capabilities : CollectionKind → Capabilities
  | linearMap | sortedMap | linearSet | sortedSet | multimap =>
    { absentKeys := true, absentValues := true }

end LiveCollections
