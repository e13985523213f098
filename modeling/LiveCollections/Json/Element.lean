import LiveCollections.Json.Numeral
import LiveCollections.Json.Quoted

/-!
# Elements in JSON

How each kind of element is read, as a value and as the key of an object. The key
of an object is text: an integer key is a numeral between the quotes, with nothing
else there; a key that may be absent is read from the text of a present one, but
is never written, because absence would have no text; a list cannot be a key.
-/

namespace LiveCollections.Json

class Element (α : Type) where
  value : Reader α
  key : Reader α
  /-- The text of an element as a key, if it has one. -/
  keyText? : α → Option String

/-- Reads between two quotes, with no blanks beside them. -/
def betweenQuotes {α : Type} (read : Reader α) : Reader α := fun cs =>
  (expect '"' cs).bind fun rest =>
    (read rest).bind fun (a, rest) => (expect '"' rest).map fun rest => (a, rest)

def integer : Reader Int64 := numeral.filterMap Numeral.int64?

def boolean : Reader Bool := fun cs => (keyword "true" true cs).or (keyword "false" false cs)

instance : Element Int64 where
  value := integer
  key := betweenQuotes integer
  keyText? n := some (toString n.toInt)

instance : Element Bool where
  value := boolean
  key := betweenQuotes boolean
  keyText? b := some (if b then "true" else "false")

instance : Element String where
  value := quoted
  key := quoted
  keyText? text := some text

instance {α : Type} [Element α] : Element (Option α) where
  value cs :=
    match cs with
    | 'n' :: _ => keyword "null" none cs
    | _ => (Element.value cs).map fun (a, rest) => (some a, rest)
  key cs := (Element.key cs).map fun (a, rest) => (some a, rest)
  keyText? _ := none

instance {α : Type} [Element α] : Element (List α) where
  value := array fun cs => Element.value cs
  key _ := none
  keyText? _ := none

end LiveCollections.Json
