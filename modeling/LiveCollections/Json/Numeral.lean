import LiveCollections.Decimal.Reading
import LiveCollections.Json.Reader

/-!
# Numerals in JSON

A numeral has no leading zeros, a digit on each side of its point and a digit in
its exponent. Without point and exponent it is an integer, except that a negative
zero is none.

A numeral that is no 64-bit integer is valued as a float. As many digits as fit in
sixty-four bits are taken as one whole number, and that is scaled by one power of
ten. The value is then within a rounding or two of the number written, and it is
refused if it is too large for a float.
-/

namespace LiveCollections.Json

structure Numeral where
  negative : Bool
  whole : List Char
  fraction : Option (List Char)
  exponent : Option Int
  deriving DecidableEq, Repr

def digits1 : Reader (List Char) := fun cs =>
  match cs.takeWhile Char.isDigit with
  | [] => none
  | digits => some (digits, cs.dropWhile Char.isDigit)

def wholePart : Reader (List Char)
  | '0' :: rest => if (rest.takeWhile Char.isDigit).isEmpty then some (['0'], rest) else none
  | cs => digits1 cs

def fractionPart : Reader (Option (List Char))
  | '.' :: rest => (digits1 rest).map fun (digits, rest) => (some digits, rest)
  | cs => some (none, cs)

def signed (negative : Bool) (digits : List Char) : Option Int :=
  (Decimal.natOfDigits? digits).map fun n => if negative then -(n : Int) else n

def exponentPart (cs : List Char) : Option (Option Int × List Char) :=
  let after (rest : List Char) :=
    let (negative, rest) :=
      match rest with
      | '-' :: rest => (true, rest)
      | '+' :: rest => (false, rest)
      | rest => (false, rest)
    (digits1 rest).map fun (digits, rest) => (signed negative digits, rest)
  match cs with
  | 'e' :: rest | 'E' :: rest => after rest
  | cs => some (none, cs)

def numeral : Reader Numeral := fun cs =>
  let (negative, cs) :=
    match cs with
    | '-' :: rest => (true, rest)
    | cs => (false, cs)
  (wholePart cs).bind fun (whole, cs) =>
    (fractionPart cs).bind fun (fraction, cs) =>
      (exponentPart cs).map fun (exponent, cs) => ({ negative, whole, fraction, exponent }, cs)

namespace Numeral

def integer? (n : Numeral) : Option Int :=
  match n.fraction, n.exponent with
  | none, none =>
    if n.negative && n.whole == ['0'] then none else signed n.negative n.whole
  | _, _ => none

def int64? (n : Numeral) : Option Int64 :=
  n.integer?.bind fun i =>
    if Int64.minValue.toInt ≤ i ∧ i ≤ Int64.maxValue.toInt then some (Int64.ofInt i) else none

/-- Takes up digits while the number fits in sixty-four bits; answers it with the digits left. -/
def gather (number : Nat) : List Char → Nat × List Char
  | [] => (number, [])
  | c :: rest =>
    let next := 10 * number + (c.toNat - '0'.toNat)
    if next < UInt64.size then gather next rest else (number, c :: rest)

/-- Scales by a power of ten, in steps that a float can hold. -/
def scale (value : Float) (power : Int) : Option Float :=
  if power.natAbs ≤ 308 then
    if 0 ≤ power then
      let scaled := value * Float.ofScientific 1 false power.toNat
      if scaled.isInf then none else some scaled
    else some (value / Float.ofScientific 1 false power.natAbs)
  else if value == 0 then some value
  else if 0 ≤ power then none
  else scale (value / Float.ofScientific 1 false 308) (power + 308)
termination_by power.natAbs
decreasing_by omega

def float? (n : Numeral) : Option Float :=
  let fraction := n.fraction.getD []
  let (number, left) := gather 0 n.whole
  let (number, beyond) := gather number fraction
  let taken := fraction.length - beyond.length
  let power := left.length - taken + n.exponent.getD 0
  (scale (Float.ofNat number) power).map fun x => if n.negative then -x else x

end Numeral

end LiveCollections.Json
