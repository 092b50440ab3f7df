import HmcClient.Json.Document
import HmcClient.Text.Hex
import HmcClient.Text.Utf8

/-!
# Reading JSON text

A strict reader from bytes to a `Document`. It checks everything that can be checked without
knowing who will use the document: the grammar, and that strings hold no raw control characters.
What a leaf stands for is worked out on the way, but a leaf that stands for nothing does not stop
the reading.

The three mutually recursive readers use fuel. Each call that recurses either has consumed a byte
or is followed by one that does, so twice the length of the text is enough, and `Document.read?`
starts with that.

## How a number becomes a double

The digits are gathered into a 64-bit significand. The first digit that does not fit ends that: the
rest of the whole part counts as powers of ten and the rest of the fraction is dropped. The
significand and the power of ten are then each rounded to a double, and their product or quotient
once more. The result is the nearest double whenever significand and power are exact, and otherwise
within a unit or so of it.
-/

namespace HmcClient

/-! ## Numbers -/

/-- The significand gathered so far and the power of ten it is to be scaled by. -/
structure Decimal where
  significand : Nat
  exponent : Int
  deriving Repr

namespace Decimal

/-- The largest significand. -/
def maxSignificand : Nat := Width.maxNat64

/-- Whether a digit can still be appended. -/
def fits (d : Decimal) (digit : Nat) : Bool := d.significand * 10 + digit ≤ maxSignificand

/-- Gathers the digits of the whole part. -/
def appendWhole (d : Decimal) : List Nat → Decimal
  | [] => d
  | digit :: rest =>
    if d.fits digit then appendWhole ⟨d.significand * 10 + digit, d.exponent⟩ rest
    else ⟨d.significand, d.exponent + (rest.length + 1)⟩

/-- Gathers the digits of the fraction. -/
def appendFraction (d : Decimal) : List Nat → Decimal
  | [] => d
  | digit :: rest =>
    if d.fits digit then appendFraction ⟨d.significand * 10 + digit, d.exponent - 1⟩ rest
    else d

/-- The largest exponent whose power of ten is a double. -/
def maxPower : Nat := 308

/-- Scales a double by a power of ten; `none` if the result is beyond the doubles. Very small
results are reached in steps of `10 ^ 308`, after three of which nothing is left. -/
def scale? (x : Binary64) (exponent : Int) : Nat → Option Binary64
  | 0 => some x
  | steps + 1 =>
    if exponent.natAbs ≤ maxPower then
      let power := Binary64.ofDecimal false 1 exponent.natAbs
      if 0 ≤ exponent then
        let product := x.mul power
        if product.isFinite then some product else none
      else some (x.div power)
    else if x.isZero then some x
    else if 0 ≤ exponent then none
    else scale? (x.div (Binary64.ofDecimal false 1 maxPower)) (exponent + maxPower) steps

/-- The double of a decimal; `none` if it is beyond the doubles. -/
def toBinary64? (d : Decimal) (negative : Bool) : Option Binary64 := do
  let x ← scale? (.ofRatio false d.significand 1) d.exponent 4
  return if negative then x.neg else x

/-- The largest power of ten that is written out as digits of an exponent. -/
def maxExponent : Nat := Width.maxInt32.natAbs

/-- Applies a written exponent. One too large to be told is infinity or zero by its sign, unless the
significand is zero. -/
def shift? (d : Decimal) (negative : Bool) (down : Bool) (exponent : Nat) : Option Binary64 :=
  if maxExponent < exponent then
    if d.significand ≠ 0 ∧ !down then none else some (.zero negative)
  else
    let shifted := if down then d.exponent - exponent else d.exponent + exponent
    let clamped := Width.clamp Width.minInt32 Width.maxInt32 shifted
    (⟨d.significand, clamped⟩ : Decimal).toBinary64? negative

end Decimal

/-- A number as it is written. -/
structure Numeral where
  negative : Bool
  whole : List Nat
  fraction : List Nat
  /-- Whether the exponent is negative, and its digits. -/
  exponent : Option (Bool × List Nat)
  deriving Repr

namespace Numeral

/-- The natural number written by digits. -/
def natOf (digits : List Nat) : Nat := digits.foldl (fun n d => n * 10 + d) 0

/-- The number a numeral stands for: an integer if it is written as one and fits 64 bits, unsigned
or signed, else a double. Negative zero is a double. -/
def number? (n : Numeral) : Option Number :=
  let whole := (⟨0, 0⟩ : Decimal).appendWhole n.whole
  let all := whole.appendFraction n.fraction
  match n.fraction, n.exponent with
  | [], none =>
    let magnitude := natOf n.whole
    if n.negative then
      if 0 < magnitude ∧ magnitude ≤ Width.minInt64.natAbs then some (.integer (-magnitude))
      else (all.toBinary64? true).map .float
    else if magnitude ≤ Decimal.maxSignificand then some (.integer magnitude)
    else (all.toBinary64? false).map .float
  | _, none => (all.toBinary64? n.negative).map .float
  | _, some (down, digits) => (all.shift? n.negative down (natOf digits)).map .float

end Numeral

/-! ## Strings -/

/-- A part of a string as it is written. -/
inductive Piece where
  | byte (b : UInt8)
  /-- A UTF-16 code unit written as an escape. -/
  | unit (n : Nat)
  deriving Repr

namespace Piece

/-- The bytes that the pieces of a string stand for; `none` if an escape is half of a surrogate pair
and the other half does not stand beside it. -/
def bytes? : List Piece → Option (List UInt8)
  | [] => some []
  | byte b :: rest => (bytes? rest).map (b :: ·)
  | unit n :: rest =>
    if 0xDC00 ≤ n ∧ n ≤ 0xDFFF then none
    else if 0xD800 ≤ n ∧ n ≤ 0xDBFF then
      match rest with
      | unit m :: rest =>
        if 0xDC00 ≤ m ∧ m ≤ 0xDFFF then
          let code := 0x10000 + (n - 0xD800) * 0x400 + (m - 0xDC00)
          (bytes? rest).map (Utf8.encodeChar (Char.ofNat code) ++ ·)
        else none
      | _ => none
    else (bytes? rest).map (Utf8.encodeChar (Char.ofNat n) ++ ·)

/-- The text that the pieces of a string stand for. -/
def text? (pieces : List Piece) : Option String := do
  Utf8.decode? (← bytes? pieces)

end Piece

/-! ## The reader -/

namespace Document

/-- The blanks between the parts of a document. -/
def isBlank (b : UInt8) : Bool := b = 0x20 || b = 0x0A || b = 0x0D || b = 0x09

/-- The rest after leading blanks. -/
def skipBlank (bytes : List UInt8) : List UInt8 := bytes.dropWhile isBlank

/-- The value of an ASCII digit. -/
def digit? (b : UInt8) : Option Nat :=
  if 0x30 ≤ b ∧ b ≤ 0x39 then some (b.toNat - 0x30) else none

/-- The digits at the start of a text, and the rest. -/
def readDigits : List UInt8 → List Nat × List UInt8
  | [] => ([], [])
  | b :: rest =>
    match digit? b with
    | some d => let (digits, rest) := readDigits rest; (d :: digits, rest)
    | none => ([], b :: rest)

/-- The whole part of a number: a single zero, or digits that do not start with one. -/
def readWhole? (bytes : List UInt8) : Option (List Nat × List UInt8) :=
  match readDigits bytes with
  | ([], _) => none
  | (0 :: _ :: _, _) => none
  | found => some found

/-- A fraction, if there is a point: at least one digit. -/
def readFraction? : List UInt8 → Option (List Nat × List UInt8)
  | 0x2E :: rest =>
    match readDigits rest with
    | ([], _) => none
    | found => some found
  | bytes => some ([], bytes)

/-- The sign and digits of an exponent: at least one digit. -/
def readPower? (bytes : List UInt8) : Option (Option (Bool × List Nat) × List UInt8) :=
  let (down, digits) : Bool × List UInt8 := match bytes with
    | 0x2D :: rest => (true, rest)
    | 0x2B :: rest => (false, rest)
    | rest => (false, rest)
  match readDigits digits with
  | ([], _) => none
  | (digits, rest) => some (some (down, digits), rest)

/-- An exponent, if there is one. -/
def readExponent? : List UInt8 → Option (Option (Bool × List Nat) × List UInt8)
  | 0x65 :: rest => readPower? rest
  | 0x45 :: rest => readPower? rest
  | bytes => some (none, bytes)

/-- A number without its sign. -/
def readUnsigned? (negative : Bool) (bytes : List UInt8) : Option (Document × List UInt8) := do
  let (whole, rest) ← readWhole? bytes
  let (fraction, rest) ← readFraction? rest
  let (exponent, rest) ← readExponent? rest
  return (number (Numeral.number? ⟨negative, whole, fraction, exponent⟩), rest)

/-- A number. -/
def readNumber? : List UInt8 → Option (Document × List UInt8)
  | 0x2D :: rest => readUnsigned? true rest
  | bytes => readUnsigned? false bytes

/-- The byte written by a one-letter escape. -/
def simpleEscape? (b : UInt8) : Option UInt8 :=
  if b = 0x22 ∨ b = 0x5C ∨ b = 0x2F then some b
  else if b = 0x62 then some 0x08
  else if b = 0x66 then some 0x0C
  else if b = 0x6E then some 0x0A
  else if b = 0x72 then some 0x0D
  else if b = 0x74 then some 0x09
  else none

/-- The code unit written by four hexadecimal digits. -/
def codeUnit? (a b c d : UInt8) : Option Nat := do
  let a ← Hex.byteValue? a
  let b ← Hex.byteValue? b
  let c ← Hex.byteValue? c
  let d ← Hex.byteValue? d
  return ((a * 16 + b) * 16 + c) * 16 + d

/-- The pieces of a string after its opening quotation mark, and the rest after the closing one. -/
def readPieces? : List UInt8 → Option (List Piece × List UInt8)
  | [] => none
  | 0x22 :: rest => some ([], rest)
  | 0x5C :: 0x75 :: a :: b :: c :: d :: rest => do
    let n ← codeUnit? a b c d
    let (pieces, rest) ← readPieces? rest
    return (.unit n :: pieces, rest)
  | 0x5C :: b :: rest => do
    let b ← simpleEscape? b
    let (pieces, rest) ← readPieces? rest
    return (.byte b :: pieces, rest)
  | b :: rest =>
    if b < 0x20 ∨ b = 0x5C then none
    else do
      let (pieces, rest) ← readPieces? rest
      return (.byte b :: pieces, rest)

/-- A string after its opening quotation mark. -/
def readText? (bytes : List UInt8) : Option (Option String × List UInt8) :=
  (readPieces? bytes).map fun (pieces, rest) => (Piece.text? pieces, rest)

/-- The rest after a word. -/
def skipWord? : List UInt8 → List UInt8 → Option (List UInt8)
  | [], bytes => some bytes
  | _ :: _, [] => none
  | w :: word, b :: bytes => if w = b then skipWord? word bytes else none

mutual

/-- A value at the start of a text, and the rest. -/
def readValue? : Nat → List UInt8 → Option (Document × List UInt8)
  | 0, _ => none
  | fuel + 1, bytes =>
    match skipBlank bytes with
    | 0x22 :: rest => (readText? rest).map fun (text, rest) => (string text, rest)
    | 0x5B :: rest =>
      match skipBlank rest with
      | 0x5D :: rest => some (array [], rest)
      | rest => (readItems? fuel rest).map fun (items, rest) => (array items, rest)
    | 0x7B :: rest =>
      match skipBlank rest with
      | 0x7D :: rest => some (object [], rest)
      | rest => (readMembers? fuel rest).map fun (members, rest) => (object members, rest)
    | 0x6E :: rest => (skipWord? [0x75, 0x6C, 0x6C] rest).map fun rest => (null, rest)
    | 0x74 :: rest => (skipWord? [0x72, 0x75, 0x65] rest).map fun rest => (bool true, rest)
    | 0x66 :: rest => (skipWord? [0x61, 0x6C, 0x73, 0x65] rest).map fun rest => (bool false, rest)
    | bytes => readNumber? bytes

/-- The items of an array, at least one, and the rest after its end. -/
def readItems? : Nat → List UInt8 → Option (List Document × List UInt8)
  | 0, _ => none
  | fuel + 1, bytes => do
    let (item, rest) ← readValue? fuel bytes
    match skipBlank rest with
    | 0x2C :: rest =>
      let (items, rest) ← readItems? fuel rest
      return (item :: items, rest)
    | 0x5D :: rest => return ([item], rest)
    | _ => none

/-- The members of an object, at least one, and the rest after its end. -/
def readMembers? : Nat → List UInt8 → Option (List (Option String × Document) × List UInt8)
  | 0, _ => none
  | fuel + 1, bytes =>
    match skipBlank bytes with
    | 0x22 :: rest => do
      let (name, rest) ← readText? rest
      match skipBlank rest with
      | 0x3A :: rest =>
        let (d, rest) ← readValue? fuel rest
        match skipBlank rest with
        | 0x2C :: rest =>
          let (members, rest) ← readMembers? fuel rest
          return ((name, d) :: members, rest)
        | 0x7D :: rest => return ([(name, d)], rest)
        | _ => none
      | _ => none
    | _ => none

end

/-- The document of a text, with nothing but blanks around it. -/
def read? (bytes : List UInt8) : Option Document :=
  match readValue? (2 * bytes.length + 2) bytes with
  | some (d, rest) => if (skipBlank rest).isEmpty then some d else none
  | none => none

end Document

/-- The value of a text. -/
def Json.read? (bytes : List UInt8) : Option Json := do
  (← Document.read? bytes).value? Document.maxDepth

/-- The value of a text given as characters. -/
def Json.readText? (s : String) : Option Json := Json.read? (Utf8.encode s)

end HmcClient
