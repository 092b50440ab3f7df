import HmcClient.Json.Basic
import HmcClient.Number.Shortest
import HmcClient.Text.Hex

/-!
# JSON text of a value

Values are written without blanks, members in their order. A string escapes the quotation mark, the
backslash and the control characters below the space; every other character stands as it is.
Integers are written exactly and doubles with the shortest digits that read back, in plain notation
near one and in scientific notation elsewhere (`FloatText.json`).
-/

namespace HmcClient

/-! ## Doubles -/

/-- How doubles are written: the exponents of the leading digit for which the number is written in
full. Outside of them one digit stands before the point and the exponent carries its sign. -/
structure FloatText where
  leastPlain : Int
  greatestPlain : Int

namespace FloatText

/-- Documents write a double in full while its leading digit stands for `10 ^ -5` to `10 ^ 15`. -/
def json : FloatText := ⟨-5, 15⟩

/-- A number in full: the digits `d` with the point before the last `-exponent` of them, and at
least one digit on each side of it. -/
def plain (digits : List Char) (exponent : Int) : List Char :=
  if 0 ≤ exponent then digits ++ List.replicate exponent.toNat '0' ++ ['.', '0']
  else
    let places := (-exponent).toNat
    let padded := List.replicate (places + 1 - digits.length) '0' ++ digits
    padded.take (padded.length - places) ++ '.' :: padded.drop (padded.length - places)

/-- A number with one digit before the point and an exponent. -/
def scientific (digits : List Char) (leading : Int) : List Char :=
  let mantissa := match digits with
    | [] => ['0']
    | [d] => [d]
    | d :: rest => d :: '.' :: rest
  let sign := if leading < 0 then '-' else '+'
  mantissa ++ 'e' :: sign :: Nat.toDigits 10 leading.natAbs

/-- The text of a finite double. What is not finite has no number; its text is the word for it. -/
def render (format : FloatText) : Binary64 → List Char
  | .nan => "NaN".toList
  | .infinite negative => if negative then "-inf".toList else "inf".toList
  | .finite negative significand exponent =>
    let sign := if negative then ['-'] else []
    if significand = 0 then sign ++ ['0', '.', '0']
    else
      let (d, scale) := Binary64.shortestDigits significand exponent
      let digits := Nat.toDigits 10 d
      let leading := scale + digits.length - 1
      sign ++
        if format.leastPlain ≤ leading ∧ leading ≤ format.greatestPlain then plain digits scale
        else scientific digits leading

end FloatText

/-! ## Values -/

/-- Decimal text of an integer. -/
def intText (n : Int) : List Char :=
  if n < 0 then '-' :: Nat.toDigits 10 n.natAbs else Nat.toDigits 10 n.natAbs

/-- The text of a number. -/
def Number.render : Number → List Char
  | integer n => intText n
  | float x => FloatText.json.render x

namespace Json

/-- One character of a string as it is written. -/
def escapeChar (c : Char) : List Char :=
  if c = '"' then ['\\', '"']
  else if c = '\\' then ['\\', '\\']
  else if c.toNat = 8 then ['\\', 'b']
  else if c.toNat = 12 then ['\\', 'f']
  else if c = '\n' then ['\\', 'n']
  else if c = '\r' then ['\\', 'r']
  else if c = '\t' then ['\\', 't']
  else if c.toNat < 0x20 then
    ['\\', 'u', '0', '0', Hex.lower (c.toNat / 16), Hex.lower (c.toNat % 16)]
  else [c]

/-- A string as it is written, quotation marks included. -/
def quote (s : String) : List Char := '"' :: s.toList.flatMap escapeChar ++ ['"']

mutual

/-- The characters of a value's text. -/
def renderChars : Json → List Char
  | null => "null".toList
  | bool true => "true".toList
  | bool false => "false".toList
  | number n => n.render
  | string s => quote s
  | array items => '[' :: renderItems items ++ [']']
  | object members => '\x7b' :: renderMembers members ++ ['\x7d']

/-- The items of an array, separated by commas. -/
def renderItems : List Json → List Char
  | [] => []
  | [v] => renderChars v
  | v :: rest => renderChars v ++ ',' :: renderItems rest

/-- The members of an object, separated by commas. -/
def renderMembers : List (String × Json) → List Char
  | [] => []
  | [(name, v)] => quote name ++ ':' :: renderChars v
  | (name, v) :: rest => quote name ++ ':' :: (renderChars v ++ ',' :: renderMembers rest)

end

/-- The text of a value. -/
def render (v : Json) : String := String.ofList v.renderChars

end Json

end HmcClient
