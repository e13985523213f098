import LiveCollections.Decimal.Shortest

/-!
# Writing floats

A float is written with its shortest digits. Which leading exponents are written
out positionally is a decision of the format; beyond them the notation is
scientific. The format also says whether an exponent that is not negative has a
sign, and which of two equally near decimals is taken. A whole number keeps one
place after the point, and zero keeps its sign.
-/

namespace LiveCollections.Decimal

structure Notation where
  /-- The least and the greatest leading exponent that is written positionally. -/
  lowest : Int
  highest : Int
  /-- What stands before an exponent that is not negative. -/
  sign : String
  ties : Ties
  deriving DecidableEq, Repr

/-- Listings write positionally from a ten-thousandth up to below `10 ^ 16`. -/
def listing : Notation := ⟨-4, 15, "", .upper⟩

def zeros (count : Nat) : String := String.ofList (List.replicate count '0')

def positional (d : Scaled) : String :=
  let digits := toString d.digits
  if 0 ≤ d.power then digits ++ zeros d.power.toNat ++ ".0"
  else if d.leading < 0 then "0." ++ zeros (-d.leading - 1).toNat ++ digits
  else
    let whole := (d.leading + 1).toNat
    String.ofList (digits.toList.take whole) ++ "." ++ String.ofList (digits.toList.drop whole)

def scientific (sign : String) (d : Scaled) : String :=
  let mantissa :=
    match (toString d.digits).toList with
    | [] => ""
    | [digit] => String.singleton digit
    | digit :: rest => String.singleton digit ++ "." ++ String.ofList rest
  mantissa ++ "e" ++ (if d.leading < 0 then "" else sign) ++ toString d.leading

def Notation.magnitude (n : Notation) (significand : Nat) (exponent : Int) : String :=
  if significand = 0 then "0.0"
  else
    let d := shortest n.ties significand exponent
    if n.lowest ≤ d.leading ∧ d.leading ≤ n.highest then positional d else scientific n.sign d

def Notation.render (n : Notation) (x : Float) : String :=
  match parts x with
  | .nan => "NaN"
  | .infinite negative => if negative then "-inf" else "inf"
  | .finite negative significand exponent =>
    (if negative then "-" else "") ++ n.magnitude significand exponent

end LiveCollections.Decimal
