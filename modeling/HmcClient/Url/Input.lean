/-!
# Characters that do not count

A URL may be broken over lines: tabs and line breaks in it are skipped wherever they stand. Blanks
and control characters around it are dropped.
-/

namespace HmcClient.Url

/-- Whether a character is dropped around the text. -/
def isPadding (c : Char) : Bool := c.toNat ≤ 0x20

/-- Whether a character is skipped anywhere in the text. -/
def isSkipped (c : Char) : Bool := c == '\t' || c == '\n' || c == '\r'

/-- The text without the characters that do not count. -/
def skim (cs : List Char) : List Char := cs.filter fun c => !isSkipped c

/-- The text from the first character that counts. -/
def skipBreaks (cs : List Char) : List Char := cs.dropWhile isSkipped

end HmcClient.Url
