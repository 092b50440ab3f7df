import HmcClient.Url.Domain
import HmcClient.Url.Percent

/-!
# Hosts

A host of a web URL is an address in brackets, or a name. A name whose last label is a number is an
IPv4 address and must be a valid one, with the shorthands of old: fewer than four parts, and parts
in octal or hexadecimal. All this is said of the name in ASCII, which an `Idna` gives. A name with
characters that would end or split the host is refused.

An IPv6 address is read and written in its normal form: lower case, no leading zeros, and the first
longest run of at least two zero pieces replaced by two colons.
-/

namespace HmcClient

/-- Why a text is no URL. -/
inductive Url.Fault where
  | relative
  | emptyHost
  | invalidPort
  | invalidIpv4
  | invalidIpv6
  | invalidName
  | invalidNameCharacter
  deriving DecidableEq, Repr

/-- The wording of a fault. -/
def Url.Fault.message : Url.Fault → String
  | relative => "relative URL without a base"
  | emptyHost => "empty host"
  | invalidPort => "invalid port number"
  | invalidIpv4 => "invalid IPv4 address"
  | invalidIpv6 => "invalid IPv6 address"
  | invalidName => "invalid international domain name"
  | invalidNameCharacter => "invalid domain character"

/-- A host. -/
inductive Host where
  | name (text : String)
  /-- An IPv4 address as a 32-bit number. -/
  | ipv4 (address : Nat)
  /-- An IPv6 address as eight 16-bit pieces. -/
  | ipv6 (pieces : List Nat)
  deriving DecidableEq, Repr

namespace Host

/-! ## IPv4 -/

/-- The value of a digit in a base. -/
def digitIn? (base : Nat) (c : Char) : Option Nat := do
  let d ← Hex.value? c
  if d < base then some d else none

/-- The number written in a base; `none` if a character is no digit of it. -/
def numberIn? (base : Nat) (cs : List Char) : Option Nat :=
  cs.foldlM (fun n c => (digitIn? base c).map (n * base + ·)) 0

/-- A part of an IPv4 address: hexadecimal after `0x`, octal after another leading zero, else
decimal. The digits after `0x` may be missing. -/
def ipv4Number? : List Char → Option Nat
  | [] => none
  | '0' :: 'x' :: digits => numberIn? 16 digits
  | '0' :: 'X' :: digits => numberIn? 16 digits
  | '0' :: d :: digits => numberIn? 8 (d :: digits)
  | digits => numberIn? 10 digits

/-- The labels of a name, without the empty one after a final dot. -/
def labels (cs : List Char) : List (List Char) :=
  let parts := splitOn (· == '.') cs
  if 1 < parts.length ∧ parts.getLast? = some [] then parts.dropLast else parts

/-- Whether the last label of a name is a number, so that the name has to be an IPv4 address. -/
def endsInNumber (cs : List Char) : Bool :=
  match (labels cs).getLast? with
  | none => false
  | some last => (!last.isEmpty && last.all Literal.isDigit) || (ipv4Number? last).isSome

/-- An IPv4 address: one to four numbers. All but the last give a byte each, and the last one gives
the bytes that remain. -/
def ipv4? (cs : List Char) : Option Nat := do
  let parts := labels cs
  if 4 < parts.length then none
  let numbers ← parts.mapM ipv4Number?
  let last ← numbers.getLast?
  let leading := numbers.dropLast
  if Nat.pow 256 (4 - leading.length) ≤ last then none
  if leading.any (255 < ·) then none
  let weights := [16777216, 65536, 256]
  return (leading.zip weights).foldl (fun address (n, weight) => address + n * weight) last

/-- Decimal text of a natural number. -/
def natText (n : Nat) : List Char := Nat.toDigits 10 n

/-- The text of an IPv4 address. -/
def ipv4Text (address : Nat) : List Char :=
  natText (address / 16777216 % 256) ++ '.' :: natText (address / 65536 % 256) ++
    '.' :: natText (address / 256 % 256) ++ '.' :: natText (address % 256)

/-! ## IPv6 -/

/-- A decimal number of at most 255 without leading zeros. -/
def byte? (cs : List Char) : Option Nat :=
  if cs.isEmpty ∨ !cs.all Literal.isDigit ∨ (cs.head? = some '0' ∧ 1 < cs.length) then none
  else
    let n := Literal.ofDigits cs
    if n ≤ 255 then some n else none

/-- The two pieces of an address written with dots. -/
def dottedPieces? (cs : List Char) : Option (List Nat) := do
  match ← (splitOn (· == '.') cs).mapM byte? with
  | [a, b, c, d] => some [a * 256 + b, c * 256 + d]
  | _ => none

/-- The pieces read so far, and after how many of them the run of zeros was left out. -/
structure Pieces where
  pieces : List Nat
  gap : Option Nat

/-- Reads pieces up to the end of the address. The gap counts as one piece. -/
def readPieces? : Nat → Pieces → List Char → Option Pieces
  | _, found, [] => some found
  | 0, _, _ => none
  | fuel + 1, found, cs =>
    if found.pieces.length = 8 then none
    else if cs.head? = some ':' then
      if found.gap.isSome then none
      else
        let pieces := found.pieces ++ [0]
        readPieces? fuel ⟨pieces, some pieces.length⟩ cs.tail
    else
      let digits := (cs.take 4).takeWhile fun c => (Hex.value? c).isSome
      let rest := cs.drop digits.length
      match rest with
      | '.' :: _ =>
        if digits.isEmpty ∨ 6 < found.pieces.length then none
        else (dottedPieces? cs).map fun last => ⟨found.pieces ++ last, found.gap⟩
      | ':' :: rest =>
        if rest.isEmpty then none
        else do readPieces? fuel ⟨found.pieces ++ [← numberIn? 16 digits], found.gap⟩ rest
      | [] => do some ⟨found.pieces ++ [← numberIn? 16 digits], found.gap⟩
      | _ => none

/-- An IPv6 address without its brackets. -/
def ipv6? (cs : List Char) : Option (List Nat) := do
  let found ← match cs with
    | ':' :: ':' :: rest => readPieces? rest.length ⟨[0], some 1⟩ rest
    | ':' :: _ => none
    | cs => readPieces? cs.length ⟨[], none⟩ cs
  match found.gap with
  | none => if found.pieces.length = 8 then some found.pieces else none
  | some gap =>
    if 8 < found.pieces.length then none
    else some (found.pieces.take gap ++ List.replicate (8 - found.pieces.length) 0 ++
      found.pieces.drop gap)

/-- The length of the run of zeros at the start of a list. -/
def zeroRun (pieces : List Nat) : Nat := (pieces.takeWhile (· == 0)).length

/-- Where the first longest run of zeros starts, and its length. -/
def longestRun (pieces : List Nat) : Nat × Nat :=
  (List.range pieces.length).foldl
    (fun best i =>
      let run := zeroRun (pieces.drop i)
      if best.2 < run then (i, run) else best)
    (0, 0)

/-- Pieces separated by colons. -/
def piecesText : List Nat → List Char
  | [] => []
  | [p] => Hex.digits p
  | p :: rest => Hex.digits p ++ ':' :: piecesText rest

/-- The text of an IPv6 address. -/
def ipv6Text (pieces : List Nat) : List Char :=
  let (start, run) := longestRun pieces
  if run < 2 then piecesText pieces
  else piecesText (pieces.take start) ++ ':' :: ':' :: piecesText (pieces.drop (start + run))

/-! ## Names -/

/-- Characters that no name may contain: controls, the blank, and everything with a meaning in
URLs. -/
def isForbidden (c : Char) : Bool :=
  c.toNat ≤ 0x20 || c.toNat == 0x7F ||
    ['%', '#', '/', ':', '<', '>', '?', '@', '[', '\\', ']', '^', '|'].contains c

/-- Characters that a host outside of web URLs may not contain. -/
def isForbiddenVerbatim (c : Char) : Bool :=
  ['\x00', '\t', '\n', '\r', ' '].contains c ||
    ['#', '/', ':', '<', '>', '?', '@', '[', '\\', ']', '^', '|'].contains c

/-- The host in brackets or an error about it. -/
def bracketed (cs : List Char) : Except Url.Fault Host :=
  match ipv6? (cs.tail.dropLast) with
  | some pieces => if cs.getLast? = some ']' then .ok (.ipv6 pieces) else .error .invalidIpv6
  | none => .error .invalidIpv6

/-- The host of a web URL. A name may be written with escapes. -/
def ofWebText (idna : Idna) (cs : List Char) : Except Url.Fault Host :=
  if cs.isEmpty then .error .emptyHost
  else if cs.head? = some '[' then bracketed cs
  else
    match (Utf8.decodeChars? (Percent.decode (Utf8.encodeChars cs))).bind idna.toAscii with
    | none => .error .invalidName
    | some mapped =>
      if mapped.any isForbidden then .error .invalidName
      else if mapped.isEmpty then .error .emptyHost
      else if endsInNumber mapped then
        match ipv4? mapped with
        | some address => .ok (.ipv4 address)
        | none => .error .invalidIpv4
      else .ok (.name (String.ofList mapped))

/-- The host of another URL, kept as it is written. -/
def ofVerbatimText (cs : List Char) : Except Url.Fault Host :=
  if cs.head? = some '[' then bracketed cs
  else if cs.any isForbiddenVerbatim then .error .invalidNameCharacter
  else .ok (.name (String.ofList (Percent.encode Percent.isControl cs)))

/-- The text of a host as it stands in a URL. -/
def render : Host → List Char
  | name text => text.toList
  | ipv4 address => ipv4Text address
  | ipv6 pieces => '[' :: ipv6Text pieces ++ [']']

end Host

end HmcClient
