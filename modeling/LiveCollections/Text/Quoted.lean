import LiveCollections.Text.Extending
import LiveCollections.Text.Hidden

/-!
# Quoted text

A text is quoted so that every character of it can be seen: the quote, the
backslash and the common controls have short escapes, and a character that does
not show, or that would attach itself to the one before, is given by its code
point in hexadecimal. An apostrophe stands as it is.
-/

namespace LiveCollections.Text

def hexadecimal (n : Nat) : String := String.ofList (Nat.toDigits 16 n)

def escape (c : Char) : String :=
  match c with
  | '"' => "\\\""
  | '\\' => "\\\\"
  | '\n' => "\\n"
  | '\r' => "\\r"
  | '\t' => "\\t"
  | '\x00' => "\\0"
  | c =>
    if ' ' ≤ c ∧ c ≤ '~' then String.singleton c
    else if isExtending c || isHidden c then "\\u\x7b" ++ hexadecimal c.toNat ++ "\x7d"
    else String.singleton c

def quote (text : String) : String :=
  "\"" ++ String.join (text.toList.map escape) ++ "\""

end LiveCollections.Text
