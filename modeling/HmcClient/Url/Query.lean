import HmcClient.Url.Parse

/-!
# Queries

The query of a URL is a list of name and value pairs, joined by ampersands and written with the
form encoding: letters, digits and `*-._` stand for themselves, a blank is a plus sign, and every
other byte is an escape.

Filters are gathered as `Query` values. A pair with an empty value says nothing, so it is not sent,
and if no pair is left the URL stays exactly as it is.
-/

namespace HmcClient

/-! ## Form encoding -/

namespace Form

/-- Whether a character stands for itself. -/
def isPlain (c : Char) : Bool := c.isAlphanum || ['*', '-', '.', '_'].contains c

/-- One character as it is written. -/
def encodeChar (c : Char) : List Char :=
  if c = ' ' then ['+']
  else if isPlain c then [c]
  else (Utf8.encodeChar c).flatMap Percent.escape

/-- A name or value as it is written. -/
def encode (s : String) : List Char := s.toList.flatMap encodeChar

/-- A name and value pair as it is written. -/
def encodePair (pair : String × String) : List Char := encode pair.1 ++ '=' :: encode pair.2

/-- Pairs joined by ampersands. -/
def encodePairs : List (String × String) → List Char
  | [] => []
  | [pair] => encodePair pair
  | pair :: rest => encodePair pair ++ '&' :: encodePairs rest

/-- A name or value that was written. -/
def decode (cs : List Char) : String :=
  let blanks := cs.map fun c => if c = '+' then ' ' else c
  Utf8.decodeLossy (Percent.decode (Utf8.encodeChars blanks))

/-- A pair that was written; the first equals sign separates it. -/
def decodePair (cs : List Char) : String × String :=
  (decode (cs.takeWhile (· != '=')), decode (cs.dropWhile (· != '=')).tail)

/-- The pairs of a query. Nothing between two ampersands is no pair. -/
def decodePairs (query : String) : List (String × String) :=
  ((Host.splitOn (· == '&') query.toList).filter (!·.isEmpty)).map decodePair

end Form

namespace Url

/-- The pairs of the query of a URL. -/
def queryPairs (u : Url) : List (String × String) :=
  match u.query with
  | some query => Form.decodePairs query
  | none => []

/-- Appends pairs to the query. Pairs with an empty value are left out. -/
def appendQuery (u : Url) (pairs : List (String × String)) : Url :=
  match pairs.filter (!·.2.isEmpty) with
  | [] => u
  | kept =>
    let query := (u.query.getD "").toList
    let joint := if query.isEmpty then [] else ['&']
    { u with query := some (String.ofList (query ++ joint ++ Form.encodePairs kept)) }

end Url

/-! ## Filters -/

/-- Pairs to be sent with a request. -/
structure Query where
  pairs : List (String × String)
  deriving DecidableEq, Repr

namespace Query

/-- No pairs. -/
def empty : Query := ⟨[]⟩

/-- Adds a pair at the end. -/
def add (q : Query) (name value : String) : Query := ⟨q.pairs ++ [(name, value)]⟩

/-- Adds a pair if there is a value. -/
def addOptional (q : Query) (name : String) : Option String → Query
  | some value => q.add name value
  | none => q

/-- Collects pairs. -/
def ofPairs (pairs : List (String × String)) : Query :=
  pairs.foldl (fun q (name, value) => q.add name value) empty

/-- Whether nothing would be sent. -/
def isEmpty (q : Query) : Bool := q.pairs.all (·.2.isEmpty)

/-- The URL with the pairs appended. -/
def apply (q : Query) (u : Url) : Url := u.appendQuery q.pairs

end Query

/-- The filters that lists of resources accept. -/
structure ListFilter where
  name : Option String
  type : Option String
  status : Option String
  deriving DecidableEq, Repr

/-- A filter as pairs. -/
def ListFilter.toQuery (f : ListFilter) : Query :=
  ((Query.empty.addOptional "name" f.name).addOptional "type" f.type).addOptional "status" f.status

end HmcClient
