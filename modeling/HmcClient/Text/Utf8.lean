/-!
# UTF-8 on lists of bytes

A message body is bytes, a message text is characters, and both directions between them are needed:
strictly where a document must be text, leniently where a damaged body is only shown.

Both readings come from one automaton, `Utf8.scan`. It consumes a byte at a time and remembers what
the character it is in still owes: how many tail bytes, the range the next one must lie in, and the
bits read so far. Its output is one entry for each character and one `none` for each ill-formed
stretch. A stretch ends right before the first byte that cannot continue it, so that byte is read
again from a fresh start. `Utf8.decode?` accepts exactly the byte strings whose scan has no `none`,
and `Utf8.decodeLossy` shows every `none` as the replacement character.

The range for the byte after the lead is what excludes overlong forms (`E0`, `F0`), surrogates
(`ED`) and code points past the last plane (`F4`); no later test is needed.
-/

namespace HmcClient.Utf8

/-! ## Encoding -/

/-- The bytes of one character. -/
def encodeChar (c : Char) : List UInt8 :=
  let n := c.toNat
  if n < 0x80 then [n.toUInt8]
  else if n < 0x800 then [(0xC0 + n / 0x40).toUInt8, (0x80 + n % 0x40).toUInt8]
  else if n < 0x10000 then
    [(0xE0 + n / 0x1000).toUInt8, (0x80 + n / 0x40 % 0x40).toUInt8, (0x80 + n % 0x40).toUInt8]
  else
    [(0xF0 + n / 0x40000).toUInt8, (0x80 + n / 0x1000 % 0x40).toUInt8,
      (0x80 + n / 0x40 % 0x40).toUInt8, (0x80 + n % 0x40).toUInt8]

/-- The bytes of a sequence of characters. -/
def encodeChars (cs : List Char) : List UInt8 := cs.flatMap encodeChar

/-- The bytes of a text. -/
def encode (s : String) : List UInt8 := encodeChars s.toList

/-! ## The automaton -/

/-- What the character being read still owes. -/
inductive Pending where
  /-- Between characters. -/
  | fresh
  /-- Inside a character: `tails` more bytes after the next one, which must lie in `low .. high`;
  `code` holds the bits read so far. -/
  | owing (tails : Nat) (low high : Nat) (code : Nat)
  deriving DecidableEq, Repr

/-- What a byte does at the start of a character: a complete character, the start of a longer one,
or nothing well-formed. -/
def start (b : UInt8) : Option (Char ⊕ Pending) :=
  let n := b.toNat
  if n < 0x80 then some (.inl (Char.ofNat n))
  else if 0xC2 ≤ n ∧ n ≤ 0xDF then some (.inr (.owing 0 0x80 0xBF (n - 0xC0)))
  else if n = 0xE0 then some (.inr (.owing 1 0xA0 0xBF 0))
  else if n = 0xED then some (.inr (.owing 1 0x80 0x9F 0xD))
  else if 0xE1 ≤ n ∧ n ≤ 0xEF then some (.inr (.owing 1 0x80 0xBF (n - 0xE0)))
  else if n = 0xF0 then some (.inr (.owing 2 0x90 0xBF 0))
  else if 0xF1 ≤ n ∧ n ≤ 0xF3 then some (.inr (.owing 2 0x80 0xBF (n - 0xF0)))
  else if n = 0xF4 then some (.inr (.owing 2 0x80 0x8F 4))
  else none

/-- One byte read from a fresh start: what it completes, and what is owed after it. -/
def restart (b : UInt8) : List (Option Char) × Pending :=
  match start b with
  | some (.inl c) => ([some c], .fresh)
  | some (.inr p) => ([], p)
  | none => ([none], .fresh)

/-- One byte read: what it completes, and what is owed after it. -/
def step : Pending → UInt8 → List (Option Char) × Pending
  | .fresh, b => restart b
  | .owing tails low high code, b =>
    if low ≤ b.toNat ∧ b.toNat ≤ high then
      let code := code * 0x40 + b.toNat % 0x40
      match tails with
      | 0 => ([some (Char.ofNat code)], .fresh)
      | tails + 1 => ([], .owing tails 0x80 0xBF code)
    else
      let (out, after) := restart b
      (none :: out, after)

/-- The characters of a byte string, with `none` for each ill-formed stretch. -/
def scan : Pending → List UInt8 → List (Option Char)
  | .fresh, [] => []
  | .owing .., [] => [none]
  | p, b :: rest =>
    let (out, after) := step p b
    out ++ scan after rest

/-! ## The two readings -/

/-- The characters of a byte string in which nothing is ill-formed. -/
def decodeChars? (bytes : List UInt8) : Option (List Char) :=
  (scan .fresh bytes).mapM id

/-- The text of a byte string in which nothing is ill-formed. -/
def decode? (bytes : List UInt8) : Option String :=
  (decodeChars? bytes).map String.ofList

/-- Shown in place of an ill-formed stretch. -/
def replacement : Char := '\uFFFD'

/-- The characters of a byte string, ill-formed stretches replaced. -/
def decodeCharsLossy (bytes : List UInt8) : List Char :=
  (scan .fresh bytes).map (·.getD replacement)

/-- The text of a byte string, ill-formed stretches replaced. -/
def decodeLossy (bytes : List UInt8) : String :=
  String.ofList (decodeCharsLossy bytes)

end HmcClient.Utf8
