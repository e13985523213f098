import LiveCollections.Hash.Mix

/-!
# Hashes of elements

What each kind of element adds to the state. Equal elements add the same words,
and the hash of an element is a function of the element alone.
-/

namespace LiveCollections.Hash

class Hashed (α : Type) where
  addTo : UInt64 → α → UInt64

def ofElement {α : Type} [Hashed α] (a : α) : UInt64 := finish (Hashed.addTo 0 a)

/-- The sum of hashes, in which their order cannot show. -/
def total (hashes : List UInt64) : UInt64 := hashes.foldr (· + ·) 0

instance : Hashed Int64 := ⟨fun state n => add state n.toUInt64⟩

instance : Hashed Bool := ⟨fun state b => add state (if b then 1 else 0)⟩

/-- The bytes in UTF-8, and a closing byte that occurs in no text. -/
instance : Hashed String where
  addTo state text := add (add state (ofBytes text.toUTF8.toList)) 0xff

instance {α : Type} [Hashed α] : Hashed (Option α) where
  addTo state
    | none => add state 0
    | some a => Hashed.addTo (add state 1) a

/-- The eight bytes of a word, the lowest first. -/
def bytesOf (n : UInt64) : List UInt8 :=
  (List.range 8).map fun place => (n >>> (8 * place).toUInt64).toUInt8

instance : Hashed (List Int64) where
  addTo state ns :=
    add (add state (UInt64.ofNat ns.length)) (ofBytes (ns.flatMap fun n => bytesOf n.toUInt64))

end LiveCollections.Hash
