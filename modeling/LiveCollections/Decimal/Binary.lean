/-!
# Binary floating point

The parts of a 64-bit float as exact numbers, read off its bits, and the two ways
in which floats are compared here. The total order ranks every float, the zeros
apart and NaN above infinity. The partial order is that of the numbers; where it
has no answer the two floats count as equal.
-/

namespace LiveCollections.Decimal

/-- A float as a sign and the exact magnitude `significand * 2 ^ exponent`. -/
inductive Parts
  | nan
  | infinite (negative : Bool)
  | finite (negative : Bool) (significand : Nat) (exponent : Int)
  deriving DecidableEq, Repr

/-- What the sign bit counts in a word of sixty-four bits. -/
def signWeight : Nat := 0x8000000000000000

/-- How many fractions the low fifty-two bits can name. -/
def fractionCount : Nat := 0x10000000000000

/-- How many exponents the eleven bits above them can name. -/
def exponentCount : Nat := 0x800

/-- Reads the sign, the eleven exponent bits and the fifty-two fraction bits. -/
def parts (x : Float) : Parts :=
  let bits := x.toBits.toNat
  let negative := decide (signWeight ≤ bits)
  let field : Nat := bits / fractionCount % exponentCount
  let fraction : Nat := bits % fractionCount
  if field = exponentCount - 1 then
    if fraction = 0 then .infinite negative else .nan
  else if field = 0 then .finite negative fraction (-1074)
  else .finite negative (fractionCount + fraction) ((field : Int) - 1075)

/-- The place of a float in the total order, from the bits alone. -/
def rank (x : Float) : Int :=
  let bits := x.toBits.toNat
  if bits < signWeight then bits else (signWeight : Int) - 1 - bits

def totalOrder (a b : Float) : Ordering := compare (rank a) (rank b)

instance floatOrd : Ord Float := ⟨totalOrder⟩

def partialOrder (a b : Float) : Ordering :=
  if a < b then .lt else if b < a then .gt else .eq

end LiveCollections.Decimal
