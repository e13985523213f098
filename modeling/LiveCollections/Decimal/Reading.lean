/-!
# Reading floats

The written form of a float: an optional sign, then `inf`, `NaN`, or digits with
an optional fraction and an optional exponent. The value is the float nearest to
the number that is written.
-/

namespace LiveCollections.Decimal

/-- The number that a text of decimal digits stands for; a text without digits has none. -/
def natOfDigits? (digits : List Char) : Option Nat :=
  if digits.isEmpty || !digits.all Char.isDigit then none
  else some (digits.foldl (fun n c => 10 * n + (c.toNat - '0'.toNat)) 0)

def intOfDigits? : List Char → Option Int
  | '-' :: digits => (natOfDigits? digits).map fun n => -n
  | '+' :: digits => (natOfDigits? digits).map fun n => n
  | digits => (natOfDigits? digits).map fun n => n

/-- The float nearest to `digits * 10 ^ power`. -/
def nearest (digits : Nat) (power : Int) : Float :=
  if 0 ≤ power then Float.ofScientific digits false power.toNat
  else Float.ofScientific digits true (-power).toNat

def magnitude? (text : List Char) : Option Float :=
  let mantissa := text.takeWhile fun c => c != 'e'
  let whole := mantissa.takeWhile fun c => c != '.'
  let fraction := (mantissa.dropWhile fun c => c != '.').drop 1
  let exponent := (text.dropWhile fun c => c != 'e').drop 1
  match natOfDigits? (whole ++ fraction), intOfDigits? (if exponent.isEmpty then ['0'] else exponent) with
  | some digits, some power => some (nearest digits (power - fraction.length))
  | _, _ => none

def read? (text : String) : Option Float :=
  let (negative, rest) :=
    match text.toList with
    | '-' :: rest => (true, rest)
    | rest => (false, rest)
  let value :=
    match String.ofList rest with
    | "inf" => some (1.0 / 0.0)
    | "NaN" => some (0.0 / 0.0)
    | _ => magnitude? rest
  value.map fun x => if negative then -x else x

end LiveCollections.Decimal
