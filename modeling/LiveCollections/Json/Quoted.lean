import LiveCollections.Json.Reader

/-!
# Quoted text in JSON

A character below the space may not stand in quoted text. An escape is one of
eight letters, or the letter `u` with four hexadecimal digits that name a unit of
UTF-16; two such units may form a pair, and a unit of a pair may not stand alone.
-/

namespace LiveCollections.Json

def escaped? : Char → Option Char
  | '"' => some '"'
  | '\\' => some '\\'
  | '/' => some '/'
  | 'b' => some '\x08'
  | 'f' => some '\x0c'
  | 'n' => some '\n'
  | 'r' => some '\r'
  | 't' => some '\t'
  | _ => none

def hexDigit? (c : Char) : Option Nat :=
  if '0' ≤ c ∧ c ≤ '9' then some (c.toNat - '0'.toNat)
  else if 'a' ≤ c ∧ c ≤ 'f' then some (c.toNat - 'a'.toNat + 10)
  else if 'A' ≤ c ∧ c ≤ 'F' then some (c.toNat - 'A'.toNat + 10)
  else none

/-- A unit of UTF-16 from its four digits. -/
def unit? (a b c d : Char) : Option Nat :=
  match hexDigit? a, hexDigit? b, hexDigit? c, hexDigit? d with
  | some a, some b, some c, some d => some (((a * 16 + b) * 16 + c) * 16 + d)
  | _, _, _, _ => none

def isLeading (unit : Nat) : Bool := 0xd800 ≤ unit && unit ≤ 0xdbff

def isTrailing (unit : Nat) : Bool := 0xdc00 ≤ unit && unit ≤ 0xdfff

def paired (leading trailing : Nat) : Char :=
  Char.ofNat (0x10000 + (leading - 0xd800) * 0x400 + (trailing - 0xdc00))

/-- Reads up to and with the closing quote. -/
def quotedRest : Reader (List Char)
  | [] => none
  | '"' :: rest => some ([], rest)
  | '\\' :: 'u' :: a :: b :: c :: d :: rest =>
    match unit? a b c d with
    | none => none
    | some unit =>
      if isTrailing unit then none
      else if isLeading unit then
        match rest with
        | '\\' :: 'u' :: e :: f :: g :: h :: rest =>
          match unit? e f g h with
          | none => none
          | some other =>
            if isTrailing other then
              (quotedRest rest).map fun (cs, rest) => (paired unit other :: cs, rest)
            else none
        | _ => none
      else (quotedRest rest).map fun (cs, rest) => (Char.ofNat unit :: cs, rest)
  | '\\' :: c :: rest =>
    match escaped? c with
    | none => none
    | some char => (quotedRest rest).map fun (cs, rest) => (char :: cs, rest)
  | c :: rest =>
    if c < ' ' ∨ c = '\\' then none
    else (quotedRest rest).map fun (cs, rest) => (c :: cs, rest)

def quoted : Reader String := fun cs =>
  (expect '"' cs).bind fun rest =>
    (quotedRest rest).map fun (cs, rest) => (String.ofList cs, rest)

end LiveCollections.Json
