import LiveCollections.Decimal.Notation
import LiveCollections.Error
import LiveCollections.Text.Quoted

/-!
# Literal text

How an element, and a group of elements, is written in a listing: sequences in
brackets, sets and maps in braces, named parts after the name of the whole, an
optional value as `Some(..)` or `None`. One separator and one bracket shape serve
them all.
-/

namespace LiveCollections.Text

class Literal (α : Type) where
  literal : α → String

export Literal (literal)

def separated (items : List String) : String := ", ".intercalate items

def bracketed (items : List String) : String := "[" ++ separated items ++ "]"

def braced (items : List String) : String := "\x7b" ++ separated items ++ "\x7d"

/-- A whole with named parts. -/
def composed (name : String) (fields : List (String × String)) : String :=
  let parts := fields.map fun (label, text) => label ++ ": " ++ text
  name ++ " \x7b " ++ separated parts ++ " \x7d"

instance : Literal Nat := ⟨toString⟩

instance : Literal Int64 := ⟨fun n => toString n.toInt⟩

instance : Literal Bool := ⟨fun b => if b then "true" else "false"⟩

instance : Literal Unit := ⟨fun _ => "()"⟩

instance : Literal String := ⟨quote⟩

instance : Literal Float := ⟨Decimal.listing.render⟩

instance {α : Type} [Literal α] : Literal (Option α) where
  literal
    | none => "None"
    | some a => "Some(" ++ literal a ++ ")"

instance {α : Type} [Literal α] : Literal (List α) := ⟨fun as => bracketed (as.map literal)⟩

def setLiteral {α : Type} [Literal α] (elements : List α) : String :=
  braced (elements.map literal)

def mapLiteral {α β : Type} [Literal α] [Literal β] (entries : List (α × β)) : String :=
  braced (entries.map fun (key, value) => literal key ++ ": " ++ literal value)

instance : Literal CollectionError where
  literal
    | .emptyCollection => "EmptyCollection"
    | .outOfRange => "OutOfRange"
    | .invalidRange => "InvalidRange"
    | .contractViolation index => composed "ContractViolation" [("index", literal index)]

instance {α : Type} [Literal α] : Literal (Except CollectionError α) where
  literal
    | .ok a => "Ok(" ++ literal a ++ ")"
    | .error e => "Err(" ++ literal e ++ ")"

end LiveCollections.Text
