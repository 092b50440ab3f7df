/-!
# Hexadecimal digits

Percent escapes, string escapes in documents and byte strings in records all write bytes as pairs of
hexadecimal digits. Digits are read in either case; which case is written is the caller's choice.
-/

namespace HmcClient.Hex

/-- The lower-case digit of a value below sixteen. -/
def lower (n : Nat) : Char :=
  if n < 10 then Char.ofNat (48 + n) else Char.ofNat (87 + n)

/-- The upper-case digit of a value below sixteen. -/
def upper (n : Nat) : Char :=
  if n < 10 then Char.ofNat (48 + n) else Char.ofNat (55 + n)

/-- The value of a digit of either case. -/
def value? (c : Char) : Option Nat :=
  let n := c.toNat
  if 48 ≤ n ∧ n ≤ 57 then some (n - 48)
  else if 97 ≤ n ∧ n ≤ 102 then some (n - 87)
  else if 65 ≤ n ∧ n ≤ 70 then some (n - 55)
  else none

/-- The value of a digit given as a byte. -/
def byteValue? (b : UInt8) : Option Nat := value? (Char.ofNat b.toNat)

/-- Lower-case digits of a number without leading zeros; zero is one digit. -/
def digits (n : Nat) : List Char :=
  if n < 16 then [lower n] else digits (n / 16) ++ [lower (n % 16)]
termination_by n
decreasing_by omega

/-- Bytes as pairs of lower-case digits. -/
def encode (bytes : List UInt8) : String :=
  String.ofList (bytes.flatMap fun b => [lower (b.toNat / 16), lower (b.toNat % 16)])

/-- Reads pairs of digits; `none` where a digit is missing or is none. -/
def decodeChars? : List Char → Option (List UInt8)
  | [] => some []
  | [_] => none
  | a :: b :: rest => do
    let high ← value? a
    let low ← value? b
    return (high * 16 + low).toUInt8 :: (← decodeChars? rest)

/-- Reads pairs of digits. -/
def decode? (s : String) : Option (List UInt8) := decodeChars? s.toList

end HmcClient.Hex
