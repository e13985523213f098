import LiveCollections.Decimal.Notation
import LiveCollections.Json.Element
import LiveCollections.Multimap.Snapshot
import LiveCollections.Text.Quoted

/-!
# Multimaps as JSON objects

A multimap is written as an object from the text of each key to the array of its
values, in ascending order of the texts. Writing fails at a key without a text; a
key without values is not written and cannot fail.

Reading offers the entries in the order in which they stand, so that repeated keys
merge. A text that is a JSON value of another kind is told from one that is no
JSON at all: the first names what was found, as far as it had to be read for that.
-/

namespace LiveCollections.Multimap

variable {K V : Type}

inductive EncodeError
  | keyWithoutText
  deriving DecidableEq, Repr

def EncodeError.message : EncodeError → String
  | keyWithoutText => "key must be a string"

inductive DecodeError
  | malformed
  /-- A value of another kind, as it is described in the message. -/
  | notAnObject (found : String)
  deriving DecidableEq, Repr

def expectation : String := "a map from keys to sequences of values"

def DecodeError.message? : DecodeError → Option String
  | malformed => none
  | notAnObject found => some ("invalid type: " ++ found ++ ", expected " ++ expectation)

/-- The members of the written object. -/
def Snapshot.encode [Json.Element K] (s : Snapshot K V) :
    Except EncodeError (List (String × List V)) :=
  let entries := s.entries.mapM fun (key, values) =>
    (Json.Element.keyText? key).map fun text => (text, values)
  match entries with
  | none => .error .keyWithoutText
  | some entries => .ok (entries.mergeSort fun a b => a.1 ≤ b.1)

/--
Numbers in messages are positional from a hundred-thousandth up to below `10 ^ 16`;
beyond that the exponent has its sign. Of two equally near decimals the even one is written.
-/
def inMessages : Decimal.Notation := ⟨-5, 15, "+", .even⟩

def describeNumeral (n : Json.Numeral) : Option String :=
  match n.integer?.filter fun i => Int64.minValue.toInt ≤ i && i < UInt64.size with
  | some i => some ("integer `" ++ toString i ++ "`")
  | none => n.float?.map fun x => "floating point `" ++ inMessages.render x ++ "`"

/-- What a text that opens no object begins with, if that is a JSON value. -/
def describe (cs : List Char) : Option String :=
  match cs with
  | [] => none
  | 'n' :: _ => (Json.keyword "null" "null" cs).map Prod.fst
  | 't' :: _ => (Json.keyword "true" "boolean `true`" cs).map Prod.fst
  | 'f' :: _ => (Json.keyword "false" "boolean `false`" cs).map Prod.fst
  | '"' :: _ => (Json.quoted cs).map fun (text, _) => "string " ++ Text.quote text
  | '[' :: _ => some "sequence"
  | _ => (Json.numeral cs).bind fun (n, _) => describeNumeral n

def decode [Json.Element K] [Json.Element V] (text : String) :
    Except DecodeError (List (K × List V)) :=
  match Json.skipBlanks text.toList with
  | '\x7b' :: rest =>
    match Json.object Json.Element.key (Json.array Json.Element.value) ('\x7b' :: rest) with
    | some (entries, rest) => if Json.isEnd rest then .ok entries else .error .malformed
    | none => .error .malformed
  | cs =>
    match describe cs with
    | some found => .error (.notAnObject found)
    | none => .error .malformed

/-- The snapshot that a text holds. -/
def Snapshot.decode [Json.Element K] [Json.Element V] [DecidableEq K] [DecidableEq V]
    (text : String) : Except DecodeError (Snapshot K V) :=
  (Multimap.decode text).map .ofEntries

end LiveCollections.Multimap
