/-!
# Blank characters and trimming

Two notions of blank are used side by side. The characters with the Unicode property `White_Space`
are dropped around values and timestamps of a metrics text; HTTP header values lose only spaces and
tabs. Both trims are one function with the class as a parameter.
-/

namespace HmcClient.Blank

/-- The Unicode property `White_Space`. -/
def isBlank (c : Char) : Bool :=
  let n := c.toNat
  (9 ≤ n && n ≤ 13) || n == 0x20 || n == 0x85 || n == 0xA0 || n == 0x1680 ||
    (0x2000 ≤ n && n ≤ 0x200A) || n == 0x2028 || n == 0x2029 || n == 0x202F || n == 0x205F ||
    n == 0x3000

/-- The list without its longest end on which `p` holds. -/
def dropEndWhile {α : Type} (p : α → Bool) (xs : List α) : List α :=
  (xs.reverse.dropWhile p).reverse

/-- The list without its longest start and longest end on which `p` holds. -/
def trimWhile {α : Type} (p : α → Bool) (xs : List α) : List α :=
  dropEndWhile p (xs.dropWhile p)

/-- The characters without the blanks around them. -/
def trim (cs : List Char) : List Char := trimWhile isBlank cs

end HmcClient.Blank
