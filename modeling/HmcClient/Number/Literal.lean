import HmcClient.Number.Binary64

/-!
# Decimal integers and numbers in texts

Readers for numbers that stand in plain text: metrics values, timestamps and environment settings.
An integer is an optional sign and ASCII digits, with nothing around them. A number adds a fraction,
a power of ten and the words for infinity and not-a-number; digits may be missing on one side of the
point, not on both.

An integer that cannot be read has one of three causes, and a caller that reports the failure shows
the cause's wording.
-/

namespace HmcClient.Literal

/-- The value of an ASCII digit. -/
def digit? (c : Char) : Option Nat :=
  if 48 ≤ c.toNat ∧ c.toNat ≤ 57 then some (c.toNat - 48) else none

/-- Whether a character is an ASCII digit. -/
def isDigit (c : Char) : Bool := (digit? c).isSome

/-- The number written by a list of digits. -/
def ofDigits (cs : List Char) : Nat :=
  cs.foldl (fun n c => n * 10 + (digit? c).getD 0) 0

/-! ## Integers -/

/-- Why a text is no integer of the wanted range. -/
inductive IntegerFault where
  | empty
  | invalidDigit
  | tooLarge
  | tooSmall
  deriving DecidableEq, Repr

/-- The wording of a fault. -/
def IntegerFault.message : IntegerFault → String
  | empty => "cannot parse integer from empty string"
  | invalidDigit => "invalid digit found in string"
  | tooLarge => "number too large to fit in target type"
  | tooSmall => "number too small to fit in target type"

/-- Appends digits to a magnitude, from left to right. The first character that is no digit or takes
the magnitude past `bound` decides the fault. -/
def appendDigits (bound : Nat) (overflow : IntegerFault) : Nat → List Char → Except IntegerFault Nat
  | magnitude, [] => .ok magnitude
  | magnitude, c :: rest =>
    match digit? c with
    | none => .error .invalidDigit
    | some d =>
      if magnitude * 10 + d ≤ bound then appendDigits bound overflow (magnitude * 10 + d) rest
      else .error overflow

/-- Reads a natural number of at most `bound`: an optional plus sign and digits. -/
def readNat (bound : Nat) : List Char → Except IntegerFault Nat
  | [] => .error .empty
  | ['+'] => .error .invalidDigit
  | '+' :: digits => appendDigits bound .tooLarge 0 digits
  | digits => appendDigits bound .tooLarge 0 digits

/-- Reads a signed 64-bit integer: an optional sign and digits. -/
def readInt64 : List Char → Except IntegerFault Int
  | [] => .error .empty
  | ['+'] => .error .invalidDigit
  | ['-'] => .error .invalidDigit
  | '-' :: digits => (appendDigits Width.minInt64.natAbs .tooSmall 0 digits).map fun n => -(n : Int)
  | '+' :: digits => (appendDigits Width.maxInt64.natAbs .tooLarge 0 digits).map fun n => (n : Int)
  | digits => (appendDigits Width.maxInt64.natAbs .tooLarge 0 digits).map fun n => (n : Int)

/-! ## Numbers -/

/-- An ASCII letter in lower case; other characters as they are. -/
def lowerAscii (c : Char) : Char :=
  if 65 ≤ c.toNat ∧ c.toNat ≤ 90 then Char.ofNat (c.toNat + 32) else c

theorem lowerAscii_idem (c : Char) : lowerAscii (lowerAscii c) = lowerAscii c := by
  have hletters : ∀ n < 26, lowerAscii (Char.ofNat (97 + n)) = Char.ofNat (97 + n) := by decide
  by_cases hrange : 65 ≤ c.toNat ∧ c.toNat ≤ 90
  · have hletter := hletters (c.toNat - 65) (by omega)
    rw [show 97 + (c.toNat - 65) = c.toNat + 32 by omega] at hletter
    rw [show lowerAscii c = Char.ofNat (c.toNat + 32) from if_pos hrange, hletter]
  · have hsame : lowerAscii c = c := if_neg hrange
    rw [hsame, hsame]

/-- Reads the power of ten after a number, if there is one: a letter `e`, an optional sign and at
least one digit. -/
def readExponent? : List Char → Option Int
  | [] => some 0
  | c :: rest =>
    if lowerAscii c = 'e' then
      let (negative, digits) : Bool × List Char := match rest with
        | '-' :: digits => (true, digits)
        | '+' :: digits => (false, digits)
        | digits => (false, digits)
      if digits.isEmpty ∨ !digits.all isDigit then none
      else some (if negative then -(ofDigits digits : Int) else ofDigits digits)
    else none

/-- Reads an unsigned decimal number. -/
def readDecimal? (negative : Bool) (cs : List Char) : Option Binary64 :=
  let whole := cs.takeWhile isDigit
  let (fraction, rest) := match cs.dropWhile isDigit with
    | '.' :: rest => (rest.takeWhile isDigit, rest.dropWhile isDigit)
    | rest => ([], rest)
  if whole.isEmpty && fraction.isEmpty then none
  else do
    let exponent ← readExponent? rest
    return Binary64.ofDecimal negative (ofDigits (whole ++ fraction)) (exponent - fraction.length)

/-- Reads an unsigned number: a decimal, or in any case one of the words for infinity and
not-a-number. -/
def readUnsigned? (negative : Bool) (cs : List Char) : Option Binary64 :=
  let word := String.ofList (cs.map lowerAscii)
  if word = "inf" ∨ word = "infinity" then some (.infinite negative)
  else if word = "nan" then some .nan
  else readDecimal? negative cs

/-- Reads a number with an optional sign. -/
def readNumber? : List Char → Option Binary64
  | '-' :: rest => readUnsigned? true rest
  | '+' :: rest => readUnsigned? false rest
  | cs => readUnsigned? false cs

end HmcClient.Literal
