import HmcClient.Number.Width

/-!
# Binary floating-point numbers

The doubles of IEEE 754, held decoded: a finite number is a sign, a significand and a power of two,
so that every operation is exact arithmetic on natural numbers followed by one rounding. All
rounding goes through `Binary64.ofRatio`, which takes a quotient of natural numbers to the nearest
double, ties to the even significand. Nothing here depends on the machine's own floating-point
unit.

The significand of a finite number is below `2 ^ 53` and its exponent at least `-1074`; unless the
exponent is the least one, the significand is at least `2 ^ 52`. The functions of this module build
no others, so equal numbers of equal sign have equal parts.
-/

namespace HmcClient

/-- A double-precision number. All not-a-number values are one. -/
inductive Binary64 where
  | nan
  | infinite (negative : Bool)
  /-- The number `significand * 2 ^ exponent`, negated if `negative`. -/
  | finite (negative : Bool) (significand : Nat) (exponent : Int)
  deriving DecidableEq, Repr

namespace Binary64

/-- The exponent of the subnormal numbers, the least there is. -/
def minExponent : Int := -1074

/-- The exponent of the largest finite numbers. -/
def maxExponent : Int := 971

/-- The least significand of 53 bits, `2 ^ 52`. -/
def leastNormal : Nat := 4503599627370496

/-- What is beyond the significands, `2 ^ 53`. -/
def significandBound : Nat := 9007199254740992

/-- The zero of a given sign. -/
def zero (negative : Bool) : Binary64 := finite negative 0 minExponent

instance : Inhabited Binary64 := ⟨zero false⟩

/-! ## Rounding -/

/-- The quotient of two natural numbers rounded to the nearest one, a tie going to the even one. -/
def divToEven (num den : Nat) : Nat :=
  let quotient := num / den
  let twice := 2 * (num % den)
  if twice > den ∨ (twice = den ∧ quotient % 2 = 1) then quotient + 1 else quotient

/-- The quotient `num / (den * 2 ^ scale)` as a numerator and a denominator. -/
def unscale (num den : Nat) (scale : Int) : Nat × Nat :=
  if 0 ≤ scale then (num, den * Nat.pow 2 scale.toNat)
  else (num * Nat.pow 2 (-scale).toNat, den)

/-- The exponent at which `num / den` has a significand of 53 bits, or the least exponent.

The binary logarithms place the quotient within a factor of two of `2 ^ (log2 num - log2 den)`, so
the exponent is one of two neighbours; the larger is taken when the smaller leaves 54 bits. -/
def exponentOf (num den : Nat) : Int :=
  let low := max minExponent ((Nat.log2 num : Int) - (Nat.log2 den : Int) - 53)
  let (n, d) := unscale num den low
  if n / d < significandBound then low else low + 1

/-- The double nearest to `num / den`, negated if `negative`. -/
def ofRatio (negative : Bool) (num den : Nat) : Binary64 :=
  if num = 0 then zero negative
  else
    let scale := exponentOf num den
    let (n, d) := unscale num den scale
    let rounded := divToEven n d
    let (significand, exponent) :=
      if rounded < significandBound then (rounded, scale) else (leastNormal, scale + 1)
    if maxExponent < exponent then infinite negative else finite negative significand exponent

/-- The double nearest to `significand * 2 ^ exponent`. -/
def ofScaled (negative : Bool) (significand : Nat) (exponent : Int) : Binary64 :=
  if 0 ≤ exponent then ofRatio negative (significand * Nat.pow 2 exponent.toNat) 1
  else ofRatio negative significand (Nat.pow 2 (-exponent).toNat)

/-- The double nearest to an integer. -/
def ofInt (n : Int) : Binary64 := ofRatio (n < 0) n.natAbs 1

/-- The double nearest to `digits * 10 ^ exponent`.

Beyond the guarded range the answer is infinity or zero whatever the digits are, so no power of ten
larger than a few hundred digits is ever formed. -/
def ofDecimal (negative : Bool) (digits : Nat) (exponent : Int) : Binary64 :=
  if digits = 0 then zero negative
  else
    let magnitude := exponent + (Nat.toDigits 10 digits).length
    if 310 < magnitude then infinite negative
    else if magnitude < -330 then zero negative
    else if 0 ≤ exponent then ofRatio negative (digits * Nat.pow 10 exponent.toNat) 1
    else ofRatio negative digits (Nat.pow 10 (-exponent).toNat)

/-! ## Arithmetic -/

/-- Whether the sign bit is set. -/
def isNegative : Binary64 → Bool
  | nan => false
  | infinite negative => negative
  | finite negative _ _ => negative

/-- The number with its sign turned. -/
def neg : Binary64 → Binary64
  | nan => nan
  | infinite negative => infinite (!negative)
  | finite negative significand exponent => finite (!negative) significand exponent

/-- Whether the number is neither infinite nor a non-number. -/
def isFinite : Binary64 → Bool
  | finite .. => true
  | _ => false

/-- Whether the number is a zero of either sign. -/
def isZero : Binary64 → Bool
  | finite _ significand _ => significand == 0
  | _ => false

/-- The rounded product. -/
def mul : Binary64 → Binary64 → Binary64
  | finite n a e, finite n' a' e' => ofScaled (n != n') (a * a') (e + e')
  | nan, _ => nan
  | _, nan => nan
  | x, y => if x.isZero || y.isZero then nan else infinite (x.isNegative != y.isNegative)

/-- The rounded quotient of two finite numbers, the second of them not zero; anything else is not a
number. -/
def div : Binary64 → Binary64 → Binary64
  | finite n a e, finite n' a' e' =>
    if a' = 0 then nan
    else
      let scale := e - e'
      if 0 ≤ scale then ofRatio (n != n') (a * Nat.pow 2 scale.toNat) a'
      else ofRatio (n != n') a (a' * Nat.pow 2 (-scale).toNat)
  | _, _ => nan

/-! ## Integers -/

/-- The number rounded to an integer, halves away from zero, and then brought into the range of
signed 64-bit numbers; a non-number gives zero. -/
def toInt64 : Binary64 → Int
  | nan => 0
  | infinite negative => if negative then Width.minInt64 else Width.maxInt64
  | finite negative significand exponent =>
    let magnitude : Nat :=
      if 0 ≤ exponent then significand * Nat.pow 2 exponent.toNat
      else
        let den := Nat.pow 2 (-exponent).toNat
        (2 * significand + den) / (2 * den)
    Width.clamp Width.minInt64 Width.maxInt64 (if negative then -(magnitude : Int) else magnitude)

end Binary64

end HmcClient
