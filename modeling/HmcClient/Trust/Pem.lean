import HmcClient.Text.Blank

/-!
# Certificate files

A file of sections, each between a line that begins it and a line that ends it, with base64 between
them. Text outside of sections does not count. Lines end at a line feed or a carriage return.

A line that begins a section must end in exactly five hyphens, and a section that is begun must be
ended; the content of a section with a known label must be base64. Sections with other labels are
passed over. A section that is begun inside another takes its place and keeps what was gathered.
-/

namespace HmcClient.Pem

/-- The bytes of an ASCII text. -/
def ascii (s : String) : List UInt8 := s.toList.map fun c => c.toNat.toUInt8

/-! ## Base64 -/

/-- What a byte is in base64. -/
inductive Symbol where
  | value (n : Nat)
  | padding
  | blank
  | invalid
  deriving DecidableEq, Repr

/-- The meaning of a byte. -/
def symbol (b : UInt8) : Symbol :=
  let n := b.toNat
  if 65 ≤ n ∧ n ≤ 90 then .value (n - 65)
  else if 97 ≤ n ∧ n ≤ 122 then .value (n - 71)
  else if 48 ≤ n ∧ n ≤ 57 then .value (n + 4)
  else if n = 43 then .value 62
  else if n = 47 then .value 63
  else if n = 61 then .padding
  else if n = 32 ∨ n = 9 ∨ n = 10 ∨ n = 13 then .blank
  else .invalid

/-- The values before the padding and the number of padding signs; `none` if a byte is invalid or a
value follows padding. -/
def gather? : List UInt8 → Option (List Nat × Nat)
  | [] => some ([], 0)
  | b :: rest =>
    match symbol b with
    | .blank => gather? rest
    | .invalid => none
    | .padding =>
      match gather? rest with
      | some ([], n) => some ([], n + 1)
      | _ => none
    | .value v => (gather? rest).map fun (values, n) => (v :: values, n)

/-- The bytes of values of six bits; a single value left over stands for no byte. -/
def assemble? : List Nat → Option (List UInt8)
  | a :: b :: c :: d :: rest => do
    let n := ((a * 64 + b) * 64 + c) * 64 + d
    return (n / 65536).toUInt8 :: (n / 256 % 256).toUInt8 :: (n % 256).toUInt8 :: (← assemble? rest)
  | [a, b, c] => let n := (a * 64 + b) * 64 + c; some [(n / 1024).toUInt8, (n / 4 % 256).toUInt8]
  | [a, b] => some [((a * 64 + b) / 16).toUInt8]
  | [_] => none
  | [] => some []

/-- The bytes written in base64. Padding may be left out, but what there is must fill the last
group. -/
def decodeBase64? (bytes : List UInt8) : Option (List UInt8) := do
  let (values, padding) ← gather? bytes
  if padding ≠ 0 ∧ (values.length % 4 = 0 ∨ values.length % 4 + padding ≠ 4) then none
  else assemble? values

/-! ## Sections -/

/-- A section with a known label, decoded. -/
structure Section where
  label : List UInt8
  content : List UInt8
  deriving Repr

/-- The labels of sections that are decoded. -/
def knownLabels : List (List UInt8) :=
  ["CERTIFICATE", "PUBLIC KEY", "RSA PRIVATE KEY", "PRIVATE KEY", "EC PRIVATE KEY", "X509 CRL",
    "CERTIFICATE REQUEST", "ECHCONFIG"].map ascii

/-- The lines of a file. -/
def lines : List UInt8 → List (List UInt8)
  | [] => []
  | b :: rest =>
    if b = 10 ∨ b = 13 then [] :: lines rest
    else
      match lines rest with
      | [] => [[b]]
      | line :: more => (b :: line) :: more

/-- The label of a line that begins a section: `none` if the line begins none, and `some none` if it
does not end as it must, in five dashes. Blanks after or between them do not count. -/
def beginLabel? (line : List UInt8) : Option (Option (List UInt8)) :=
  let opening := ascii "-----BEGIN "
  if opening.isPrefixOf line then
    let ending := (line.reverse.takeWhile fun b => b == 45 || b == 32).reverse
    let label := line.take (line.length - ending.length) ++ ending.takeWhile (· == 32)
    some (if ending.count 45 = 5 then some (label.drop opening.length) else none)
  else none

/-- Reads sections. The first argument is the label of the section that is open, the second what has
been gathered since the last section ended. -/
def readFrom? : Option (List UInt8) → List UInt8 → List (List UInt8) → Option (List Section)
  | none, _, [] => some []
  | some _, _, [] => none
  | label, content, line :: rest =>
    match beginLabel? line with
    | some none => none
    | some (some label) => readFrom? (some label) content rest
    | none =>
      match label with
      | none => readFrom? none content rest
      | some open_ =>
        if (ascii "-----END " ++ open_ ++ ascii "-----").isPrefixOf line then
          if knownLabels.contains open_ then do
            let decoded ← decodeBase64? content
            return ⟨open_, decoded⟩ :: (← readFrom? none [] rest)
          else readFrom? none [] rest
        else readFrom? label (content ++ line) rest

/-- The sections of a file; `none` if it is malformed. -/
def read? (file : List UInt8) : Option (List Section) := readFrom? none [] (lines file)

/-- The certificates of a file, as they are encoded. -/
def certificates? (file : List UInt8) : Option (List (List UInt8)) :=
  (read? file).map fun sections =>
    (sections.filter (·.label == ascii "CERTIFICATE")).map (·.content)

end HmcClient.Pem
