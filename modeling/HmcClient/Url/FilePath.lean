import HmcClient.Url.Input
import HmcClient.Url.Path

/-!
# Paths of files

The path of a file may start with a drive: a letter and a colon or a bar, of which the colon is
kept. A drive is on the machine itself, whatever host stands before it. Only the very first segment
is a drive, so `/c|` after two slashes and no host is none: there the slash belongs to the path,
and its first segment is the empty one before that slash.

A break after the colon of a first segment parts it from the rest of the segment, as a slash would.
What stands before such a break names no machine, and what stands after it is kept as it is, dots
included.

A path read to its end has no empty segments at its start.
-/

namespace HmcClient.Url

/-- The path of a file. -/
structure FilePath where
  segments : List String
  /-- Whether the path starts with a drive, and so is on the machine itself. -/
  onDrive : Bool
  deriving DecidableEq, Repr

namespace FilePath

/-- A first segment that a break after its colon parts: the letter and the colon, and the rest. -/
def partedDrive? (segment : List Char) : Option (List Char × List Char) :=
  match skipBreaks segment with
  | letter :: rest =>
    match skipBreaks rest with
    | ':' :: rest =>
      let beforeBreak := rest.takeWhile fun c => !isSkipped c
      if letter.isAlpha && beforeBreak.isEmpty && !(skim rest).isEmpty then
        some ([letter, ':'], skim rest)
      else none
    | _ => none
  | [] => none

/-- The first segment of a path. -/
def ofFirst (segment : List Char) : FilePath :=
  match partedDrive? segment with
  | some (drive, rest) => ⟨[Path.encodeSegment rest, String.ofList drive], false⟩
  | none =>
    if Path.isDrive (skim segment) then ⟨[String.ofList ((skim segment).take 1 ++ [':'])], true⟩
    else ⟨[Path.encodeSegment (skim segment)], false⟩

/-- Adds a segment to a path whose segments are in reverse order. -/
def push (path : FilePath) (segment : List Char) : FilePath :=
  if path.segments.isEmpty then ofFirst segment
  else { path with segments := Path.encodeSegment (skim segment) :: path.segments }

/-- Drops the last segment of a path whose segments are in reverse order. -/
def pop (path : FilePath) : FilePath :=
  { path with segments := Path.dropLastSegment path.segments }

/-- Resolves dot segments. The segments of the first path, those kept so far, are in reverse
order. -/
def resolve : FilePath → List (List Char) → FilePath
  | kept, [] => kept
  | kept, [last] =>
    match Path.meaning (skim last) with
    | .single => kept.push []
    | .double => kept.pop.push []
    | .ordinary => kept.push last
  | kept, segment :: rest =>
    match Path.meaning (skim segment) with
    | .single => resolve kept rest
    | .double => resolve kept.pop rest
    | .ordinary => resolve (kept.push segment) rest

/-- The segments from the first that is not empty; at least one is left. -/
def dropEmptySegments (items : List String) : List String :=
  match items.dropWhile (· == "") with
  | [] => [""]
  | kept => kept

/-- The path given by the text after its first slash. -/
def ofText (cs : List Char) : FilePath :=
  let path := resolve ⟨[], false⟩ (Host.splitOn (Path.isSeparator true) cs)
  { path with segments := dropEmptySegments path.segments.reverse }

end FilePath

end HmcClient.Url
