import HmcClient.Url.Host

/-!
# Paths

The path of most URLs is a list of segments, each written after a slash. Reading a path resolves
its dot segments: a single dot is dropped and two dots drop the segment before them, also when the
dots are percent-encoded. If the last segment is dropped or drops another, an empty one takes its
place, so the path ends in a slash. A segment that starts with a drive is not dropped.

Some URLs have no slash after the scheme; their path is one text without structure.
-/

namespace HmcClient.Url

/-- The path of a URL. -/
inductive Path where
  | segments (items : List String)
  /-- A path that does not start with a slash and is not split. -/
  | verbatim (text : String)
  deriving DecidableEq, Repr

namespace Path

/-- The text of a list of segments. -/
def segmentsText (items : List String) : List Char := items.flatMap fun s => '/' :: s.toList

/-- The text of a path. -/
def render : Path → List Char
  | segments items => segmentsText items
  | verbatim text => text.toList

/-- Whether a character separates segments. In web URLs the backslash does too. -/
def isSeparator (web : Bool) (c : Char) : Bool := c == '/' || (web && c == '\\')

/-- What a segment means. -/
inductive Meaning where
  | single
  | double
  | ordinary
  deriving DecidableEq, Repr

/-- The segment with encoded dots replaced by dots. -/
def decodeDots : List Char → List Char
  | '%' :: '2' :: 'e' :: rest => '.' :: decodeDots rest
  | '%' :: '2' :: 'E' :: rest => '.' :: decodeDots rest
  | c :: rest => c :: decodeDots rest
  | [] => []

/-- What a segment means: one dot, two dots, or itself. -/
def meaning (segment : List Char) : Meaning :=
  match decodeDots segment with
  | ['.'] => .single
  | ['.', '.'] => .double
  | _ => .ordinary

/-- Whether a segment is a drive: a letter and a colon or a bar. -/
def isDrive : List Char → Bool
  | [letter, mark] => letter.isAlpha && (mark == ':' || mark == '|')
  | _ => false

/-- Whether a segment is a drive up to its first backslash, if it has one. -/
def startsWithDrive (segment : List Char) : Bool := isDrive (segment.takeWhile (· != '\\'))

/-- Drops the last segment; the segments are in reverse order. -/
def dropLastSegment : List String → List String
  | [] => []
  | last :: before => if startsWithDrive last.toList then last :: before else before

/-- A segment as it is kept. -/
def encodeSegment (segment : List Char) : String :=
  String.ofList (Percent.encode Percent.inPath segment)

/-- Resolves dot segments. The first list holds the segments kept so far in reverse order. -/
def resolve : List String → List (List Char) → List String
  | kept, [] => kept.reverse
  | kept, [last] =>
    match meaning last with
    | .single => ("" :: kept).reverse
    | .double => ("" :: dropLastSegment kept).reverse
    | .ordinary => (encodeSegment last :: kept).reverse
  | kept, segment :: rest =>
    match meaning segment with
    | .single => resolve kept rest
    | .double => resolve (dropLastSegment kept) rest
    | .ordinary => resolve (encodeSegment segment :: kept) rest

/-- The text without the separator it starts with. -/
def dropLeading (web : Bool) : List Char → List Char
  | [] => []
  | c :: rest => if isSeparator web c then rest else c :: rest

/-- The path given by a text. A web URL always has one; elsewhere an empty text is no path. -/
def ofText (web : Bool) (cs : List Char) : List String :=
  if !web && cs.isEmpty then []
  else resolve [] (Host.splitOn (isSeparator web) (dropLeading web cs))

end Path

end HmcClient.Url
