import HmcClient.Text.Hidden
import HmcClient.Text.Hex

/-!
# Quoted texts in messages

Messages quote the text they complain about: in double quotation marks, with the quotation mark, the
backslash and everything that cannot be seen written as an escape. An escape by number is the code
point in lower-case hexadecimal between braces.
-/

namespace HmcClient.Quoted

/-- One character of a quoted text. -/
def escapeChar (c : Char) : List Char :=
  if c = '"' then ['\\', '"']
  else if c = '\\' then ['\\', '\\']
  else if c = '\n' then ['\\', 'n']
  else if c = '\r' then ['\\', 'r']
  else if c = '\t' then ['\\', 't']
  else if c.toNat = 0 then ['\\', '0']
  else if Hidden.isHidden c then ['\\', 'u', '\x7b'] ++ Hex.digits c.toNat ++ ['\x7d']
  else [c]

/-- A text in quotation marks. -/
def quote (s : String) : String :=
  String.ofList ('"' :: s.toList.flatMap escapeChar ++ ['"'])

end HmcClient.Quoted
