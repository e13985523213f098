/-!
# Reading JSON text

A reader takes characters and answers a value with the characters it has left, or
nothing. Blanks are the space, the tab and the two line ends, and no others. A
sequence of items between brackets has a comma between any two of them and none
after the last; the same rule reads arrays and objects.
-/

namespace LiveCollections.Json

variable {α β : Type}

abbrev Reader (α : Type) := List Char → Option (α × List Char)

def isBlank (c : Char) : Bool := c == ' ' || c == '\n' || c == '\t' || c == '\r'

def skipBlanks (cs : List Char) : List Char := cs.dropWhile isBlank

/-- Reads one character that must be there. -/
def expect (c : Char) : List Char → Option (List Char)
  | [] => none
  | d :: rest => if c = d then some rest else none

/-- Reads a word that must be there, and answers `value` for it. -/
def keyword (word : String) (value : α) : Reader α := fun cs =>
  (word.toList.foldlM (fun rest c => expect c rest) cs).map fun rest => (value, rest)

/-- Reads a value and refuses it where `f` has no answer. -/
def Reader.filterMap (read : Reader α) (f : α → Option β) : Reader β := fun cs =>
  (read cs).bind fun (a, rest) => (f a).map fun b => (b, rest)

/-- What follows an item: the closing bracket, or a comma and another item. The count bounds
the number of items still to come. -/
def moreItems (item : Reader α) (closing : Char) : Nat → Reader (List α)
  | 0, _ => none
  | count + 1, cs =>
    match skipBlanks cs with
    | ',' :: rest =>
      (item (skipBlanks rest)).bind fun (a, rest) =>
        (moreItems item closing count rest).map fun (as, rest) => (a :: as, rest)
    | rest => (expect closing rest).map fun rest => ([], rest)

/-- Items between brackets. No text holds more items than characters. -/
def sequence (item : Reader α) (opening closing : Char) : Reader (List α) := fun cs =>
  (expect opening cs).bind fun rest =>
    let rest := skipBlanks rest
    match expect closing rest with
    | some rest => some ([], rest)
    | none =>
      (item rest).bind fun (a, rest) =>
        (moreItems item closing (rest.length + 1) rest).map fun (as, rest) => (a :: as, rest)

def array (item : Reader α) : Reader (List α) := sequence item '[' ']'

/-- A key, a colon and a value. -/
def member (key : Reader α) (value : Reader β) : Reader (α × β) := fun cs =>
  (key cs).bind fun (k, rest) =>
    (expect ':' (skipBlanks rest)).bind fun rest =>
      (value (skipBlanks rest)).map fun (v, rest) => ((k, v), rest)

def object (key : Reader α) (value : Reader β) : Reader (List (α × β)) :=
  sequence (member key value) '\x7b' '\x7d'

/-- Nothing but blanks is left. -/
def isEnd (cs : List Char) : Bool := (skipBlanks cs).isEmpty

end LiveCollections.Json
