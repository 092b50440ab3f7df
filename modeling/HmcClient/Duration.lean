import HmcClient.Number.Width

/-!
# Spans of time

A span is a whole number of nanoseconds. Spans that a setting can give are at most `Duration.max`,
64 bits of seconds and one nanosecond less than a further one; adding two of them can pass that
limit.

In messages a span is written in the largest unit of which it has at least one, with the rest as a
fraction without trailing zeros.
-/

namespace HmcClient

/-- A span of time in nanoseconds. -/
structure Duration where
  nanoseconds : Nat
  deriving DecidableEq, Repr

namespace Duration

/-- The nanoseconds of a second. -/
def perSecond : Nat := 1000000000

/-- The nanoseconds of a millisecond. -/
def perMillisecond : Nat := 1000000

/-- The nanoseconds of a microsecond. -/
def perMicrosecond : Nat := 1000

/-- The longest span. -/
def max : Duration := ⟨Width.maxNat64 * perSecond + (perSecond - 1)⟩

/-- A number of milliseconds. -/
def ofMilliseconds (n : Nat) : Duration := ⟨n * perMillisecond⟩

/-- A number of seconds. -/
def ofSeconds (n : Nat) : Duration := ⟨n * perSecond⟩

/-- The whole milliseconds of a span. -/
def milliseconds (d : Duration) : Nat := d.nanoseconds / perMillisecond

/-- The sum of two spans, unless it is longer than the longest span. -/
def add? (a b : Duration) : Option Duration :=
  if a.nanoseconds + b.nanoseconds ≤ max.nanoseconds then some ⟨a.nanoseconds + b.nanoseconds⟩
  else none

/-- A fraction of `places` digits without its trailing zeros, and with the point unless nothing is
left. -/
def fractionText (value places : Nat) : List Char :=
  let digits := Nat.toDigits 10 value
  let padded := List.replicate (places - digits.length) '0' ++ digits
  match (padded.reverse.dropWhile (· == '0')).reverse with
  | [] => []
  | kept => '.' :: kept

/-- A span in a unit of so many nanoseconds, with a fraction of at most `places` digits. -/
def inUnit (d : Duration) (size places : Nat) (unit : String) : List Char :=
  Nat.toDigits 10 (d.nanoseconds / size) ++
    (if places = 0 then [] else fractionText (d.nanoseconds % size) places) ++ unit.toList

/-- The text of a span. -/
def render (d : Duration) : String :=
  String.ofList <|
    if perSecond ≤ d.nanoseconds then d.inUnit perSecond 9 "s"
    else if perMillisecond ≤ d.nanoseconds then d.inUnit perMillisecond 6 "ms"
    else if perMicrosecond ≤ d.nanoseconds then d.inUnit perMicrosecond 3 "µs"
    else d.inUnit 1 0 "ns"

end Duration

end HmcClient
