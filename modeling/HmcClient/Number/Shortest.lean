import HmcClient.Number.Binary64

/-!
# The shortest decimal of a double

The decimal written for a double is the one with the fewest significant digits that still reads
back as the same double, and of those the nearest to it.

A positive double `v` is a ratio, and so are the two ends of the interval of reals that round to
it; the ends belong to the interval exactly when the significand is even. For a given number of
digits the decimals form a grid, and if the grid has a point in the interval then one of the two
grid neighbours of `v` is in it, because the interval contains `v`. So `shortestDigits` asks, for
one digit, two digits and so on, only about these two neighbours. Seventeen digits always suffice.
-/

namespace HmcClient.Binary64

/-- A positive ratio. -/
structure Ratio where
  num : Nat
  den : Nat
  deriving Repr

namespace Ratio

/-- The ratio `significand * 2 ^ exponent`. -/
def ofScaled (significand : Nat) (exponent : Int) : Ratio :=
  if 0 ≤ exponent then ⟨significand * Nat.pow 2 exponent.toNat, 1⟩
  else ⟨significand, Nat.pow 2 (-exponent).toNat⟩

/-- The ratio `digits * 10 ^ exponent`. -/
def ofDecimal (digits : Nat) (exponent : Int) : Ratio :=
  if 0 ≤ exponent then ⟨digits * Nat.pow 10 exponent.toNat, 1⟩
  else ⟨digits, Nat.pow 10 (-exponent).toNat⟩

/-- Whether the first ratio is the smaller one. -/
def blt (a b : Ratio) : Bool := a.num * b.den < b.num * a.den

/-- Whether the first ratio is not the larger one. -/
def ble (a b : Ratio) : Bool := a.num * b.den ≤ b.num * a.den

/-- The number of decimal digits of a natural number; zero has none. -/
def digitCount (n : Nat) : Nat := if n = 0 then 0 else (Nat.toDigits 10 n).length

/-- The exponent of the leading decimal digit: the `k` with `10 ^ k ≤ r < 10 ^ (k + 1)`. -/
def leadingExponent (r : Ratio) : Int :=
  if r.den ≤ r.num then (digitCount (r.num / r.den) : Int) - 1
  else
    let t := digitCount (r.den / r.num)
    if r.den ≤ r.num * Nat.pow 10 (t - 1) then 1 - (t : Int) else -(t : Int)

/-- The part of `r / 10 ^ exponent` before the point. -/
def floorAt (r : Ratio) (exponent : Int) : Nat :=
  if 0 ≤ exponent then r.num / (r.den * Nat.pow 10 exponent.toNat)
  else r.num * Nat.pow 10 (-exponent).toNat / r.den

end Ratio

/-- The reals that round to a double, as an interval. -/
structure Interval where
  low : Ratio
  high : Ratio
  /-- Whether the ends round to the double too. -/
  closed : Bool
  deriving Repr

/-- Whether a ratio lies in an interval. -/
def Interval.contains (i : Interval) (r : Ratio) : Bool :=
  if i.closed then i.low.ble r && r.ble i.high else i.low.blt r && r.blt i.high

/-- The interval of a positive double. Below a power of two the neighbour is only half as far
away. -/
def roundingInterval (significand : Nat) (exponent : Int) : Interval where
  low :=
    if significand = leastNormal ∧ minExponent < exponent then
      Ratio.ofScaled (4 * significand - 1) (exponent - 2)
    else Ratio.ofScaled (2 * significand - 1) (exponent - 1)
  high := Ratio.ofScaled (2 * significand + 1) (exponent - 1)
  closed := significand % 2 == 0

/-- Of the grid point below `v` and the next one, the one in the interval, or the nearer if both
are; an exact tie goes to the even one. The grid has step `10 ^ exponent`. -/
def nearestInGrid (v : Ratio) (interval : Interval) (exponent : Int) : Option Nat :=
  let below := v.floorAt exponent
  let above := below + 1
  let belowIn := below ≠ 0 && interval.contains (Ratio.ofDecimal below exponent)
  let aboveIn := interval.contains (Ratio.ofDecimal above exponent)
  match belowIn, aboveIn with
  | false, false => none
  | true, false => some below
  | false, true => some above
  | true, true =>
    let middle := Ratio.ofDecimal (below * 10 + 5) (exponent - 1)
    if v.blt middle then some below
    else if middle.blt v then some above
    else some (if below % 2 = 0 then below else above)

/-- The first grid with a point in the interval, from `digits` significant digits on, at most `fuel`
of them. -/
def searchGrids (v : Ratio) (interval : Interval) (leading : Int) : Nat → Nat → Nat × Int
  | 0, digits => (v.floorAt (leading + 1 - digits), leading + 1 - digits)
  | fuel + 1, digits =>
    let exponent := leading + 1 - (digits : Int)
    match nearestInGrid v interval exponent with
    | some point => (point, exponent)
    | none => searchGrids v interval leading fuel (digits + 1)

/-- The shortest decimal of the positive double `significand * 2 ^ exponent`: the number `d` and
the exponent `s` of the decimal `d * 10 ^ s`, with `d` not divisible by ten.

Only the one-digit grid can answer with a multiple of ten, when the double lies just below a power
of ten and rounds up to it. -/
def shortestDigits (significand : Nat) (exponent : Int) : Nat × Int :=
  let v := Ratio.ofScaled significand exponent
  let interval := roundingInterval significand exponent
  let (digits, scale) := searchGrids v interval v.leadingExponent 17 1
  if digits % 10 = 0 then (digits / 10, scale + 1) else (digits, scale)

end HmcClient.Binary64
