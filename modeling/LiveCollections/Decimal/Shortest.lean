import LiveCollections.Decimal.Binary

/-!
# The fewest digits that read back

A positive float is `m * 2 ^ q`. The reals that round to it lie between the
midpoints to its neighbours; the midpoints themselves count when `m` is even. In
units of `2 ^ (q - 2)` the float is `4 * m`, and the lower midpoint is nearer
where a power of two starts a coarser spacing.

For each power of ten from the leading one downwards, the two points of that grid
around the float are tried. The first grid with a point in the interval wins; of
two points there, the nearer one. Two can be equally near, as `2 ^ 50 + 1 / 4` lies
midway between the decimals that end in `.2` and in `.3`; a convention decides.
-/

namespace LiveCollections.Decimal

/-- `base ^ exponent`, and one where the exponent is negative. -/
def raised (base : Nat) (exponent : Int) : Nat := base.pow exponent.toNat

/-- The number `digits * 10 ^ power`. -/
structure Scaled where
  digits : Nat
  power : Int
  deriving DecidableEq, Repr

def digitCount (n : Nat) : Nat := (Nat.toDigits 10 n).length

/-- The exponent of the first digit, where the last one stands for `10 ^ power`. -/
def Scaled.leading (d : Scaled) : Int := d.power + digitCount d.digits - 1

/-- `quarters * 2 ^ (q - 2) / 10 ^ power` as a quotient of natural numbers. -/
def onGrid (q power : Int) (quarters : Nat) : Nat × Nat :=
  (quarters * raised 2 (q - 2) * raised 10 (-power), raised 2 (2 - q) * raised 10 power)

/-- Where the interval begins and ends, in quarters. -/
def interval (m : Nat) (q : Int) : Nat × Nat :=
  (if m = fractionCount ∧ -1074 < q then 4 * m - 1 else 4 * m - 2, 4 * m + 2)

def readsBack (m : Nat) (q power : Int) (candidate : Nat) : Bool :=
  let (low, high) := interval m q
  let (lowest, unit) := onGrid q power low
  let (highest, _) := onGrid q power high
  if m % 2 = 0 then lowest ≤ candidate * unit && candidate * unit ≤ highest
  else lowest < candidate * unit && candidate * unit < highest

/-- Of two points equally near to the float, the upper or the one with an even last digit. -/
inductive Ties
  | upper
  | even
  deriving DecidableEq, Repr

/-- The nearer to `value` of the multiples `below` and `below + 1` of `unit`. -/
def Ties.nearer (ties : Ties) (value unit below : Nat) : Nat :=
  match compare (2 * value) ((2 * below + 1) * unit) with
  | .lt => below
  | .gt => below + 1
  | .eq => if ties = .even ∧ below % 2 = 0 then below else below + 1

/-- The point of the grid `10 ^ power` that stands for the float, if one reads back. -/
def nearestOnGrid (ties : Ties) (m : Nat) (q power : Int) : Option Nat :=
  let (value, unit) := onGrid q power (4 * m)
  let below := value / unit
  match readsBack m q power below, readsBack m q power (below + 1) with
  | true, true => some (ties.nearer value unit below)
  | true, false => some below
  | false, true => some (below + 1)
  | false, false => none

/-- The exponent of the first digit of `m * 2 ^ q`. -/
def leadingPower (m : Nat) (q : Int) : Int :=
  let (value, unit) := onGrid q 0 (4 * m)
  if unit ≤ value then (digitCount (value / unit) : Int) - 1
  else -(((List.range 325).find? fun k => unit ≤ value * Nat.pow 10 k).getD 325 : Nat)

/-- Seventeen digits always suffice, so the grids that are tried end there. -/
def shortest (ties : Ties) (m : Nat) (q : Int) : Scaled :=
  let leading := leadingPower m q
  let found := (List.range 17).findSome? fun (place : Nat) =>
    (nearestOnGrid ties m q (leading - place)).map fun digits => Scaled.mk digits (leading - place)
  match found with
  | some d => if d.digits % 10 = 0 then ⟨d.digits / 10, d.power + 1⟩ else d
  | none => ⟨0, 0⟩

end LiveCollections.Decimal
