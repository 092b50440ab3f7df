import HmcClient.Text.Hex
import HmcClient.Text.Utf8

/-!
# Percent encoding

A part of a URL writes a byte as a percent sign and two upper-case hexadecimal digits when the byte
is beyond ASCII or belongs to the set of the part. The sets grow from one part to the next, and
each is the one before it with some characters more. None contains the percent sign, so encoding
leaves alone what is encoded already: encoding twice is encoding once.
-/

namespace HmcClient.Percent

/-! ## Sets of characters to encode -/

/-- Control characters, to be encoded everywhere. -/
def isControl (c : Char) : Bool := c.toNat < 0x20 || 0x7F ≤ c.toNat

/-- Encoded in a fragment. -/
def inFragment (c : Char) : Bool := isControl c || [' ', '"', '<', '>', '\x60'].contains c

/-- Encoded in a query. -/
def inQuery (c : Char) : Bool := isControl c || [' ', '"', '#', '<', '>'].contains c

/-- Encoded in a query of a web URL. -/
def inWebQuery (c : Char) : Bool := inQuery c || c == '\''

/-- Encoded in a path. -/
def inPath (c : Char) : Bool := inFragment c || ['#', '?', '\x7b', '\x7d'].contains c

/-- Encoded in a user name or password. -/
def inUserInfo (c : Char) : Bool :=
  inPath c || ['/', ':', ';', '=', '@', '[', '\\', ']', '^', '|'].contains c

/-! ## Encoding and decoding -/

/-- A byte as an escape. -/
def escape (b : UInt8) : List Char :=
  ['%', Hex.upper (b.toNat / 16), Hex.upper (b.toNat % 16)]

/-- One character, escaped byte by byte if it belongs to the set. -/
def encodeChar (set : Char → Bool) (c : Char) : List Char :=
  if set c then (Utf8.encodeChar c).flatMap escape else [c]

/-- Characters with those of a set escaped. -/
def encode (set : Char → Bool) (cs : List Char) : List Char := cs.flatMap (encodeChar set)

/-- Bytes with every escape replaced by the byte it stands for. A percent sign that starts no escape
stands for itself. -/
def decode : List UInt8 → List UInt8
  | [] => []
  | 0x25 :: a :: b :: rest =>
    match Hex.byteValue? a, Hex.byteValue? b with
    | some high, some low => (high * 16 + low).toUInt8 :: decode rest
    | _, _ => 0x25 :: decode (a :: b :: rest)
  | b :: rest => b :: decode rest

end HmcClient.Percent
