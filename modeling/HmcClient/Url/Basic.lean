import HmcClient.Url.Path

/-!
# URLs

A URL in its normal form: what reading any of its spellings gives. Every part is stored as it is
written, that is, percent-encoded.
-/

namespace HmcClient

/-- The parts of a URL. -/
structure Url where
  scheme : String
  /-- The user name, empty if there is none. -/
  username : String
  password : Option String
  host : Option Host
  /-- The port, unless it is the usual one of the scheme. -/
  port : Option Nat
  path : Url.Path
  query : Option String
  fragment : Option String
  deriving DecidableEq, Repr

namespace Url

/-- The usual port of a scheme. The schemes that have one are those of the web. -/
def defaultPort? (scheme : String) : Option Nat :=
  if scheme = "https" ∨ scheme = "wss" then some 443
  else if scheme = "http" ∨ scheme = "ws" then some 80
  else if scheme = "ftp" then some 21
  else none

/-- Whether a scheme is one of the web: a host is required and a backslash counts as a slash. -/
def isWebScheme (scheme : String) : Bool := (defaultPort? scheme).isSome

/-- Whether a URL belongs to the web. -/
def isWeb (u : Url) : Bool := isWebScheme u.scheme

/-- The text of the path. -/
def pathText (u : Url) : String := String.ofList u.path.render

/-- The text of the host. A host without a name is none. -/
def hostText? (u : Url) : Option String :=
  match u.host with
  | none => none
  | some (.name "") => none
  | some host => some (String.ofList host.render)

/-- Whether the path is one text without structure. -/
def isVerbatim (u : Url) : Bool :=
  match u.path with
  | .verbatim _ => true
  | .segments _ => false

/-! ## Text -/

/-- User name and password with the sign that ends them, if there are any. -/
def userInfoChars (u : Url) : List Char :=
  match u.password with
  | some password => u.username.toList ++ ':' :: password.toList ++ ['@']
  | none => if u.username.isEmpty then [] else u.username.toList ++ ['@']

/-- The port with the colon before it. -/
def portChars (u : Url) : List Char :=
  match u.port with
  | some port => ':' :: Host.natText port
  | none => []

/-- The part between the scheme and the path. A path that starts with two slashes would be read as a
host, so without one a dot segment is put before it. -/
def authorityChars (u : Url) : List Char :=
  match u.host with
  | some host => '/' :: '/' :: u.userInfoChars ++ host.render ++ u.portChars
  | none =>
    match u.path with
    | .segments ("" :: _ :: _) => ['/', '.']
    | _ => []

/-- A part with its sign before it, if it is there. -/
def partChars (sign : Char) : Option String → List Char
  | some text => sign :: text.toList
  | none => []

/-- The characters of a URL. -/
def renderChars (u : Url) : List Char :=
  u.scheme.toList ++ ':' :: (u.authorityChars ++ u.path.render ++ partChars '?' u.query ++
    partChars '#' u.fragment)

/-- The text of a URL. -/
def render (u : Url) : String := String.ofList u.renderChars

/-- Path and query, as they stand in the first line of a request. -/
def target (u : Url) : String :=
  String.ofList (u.path.render ++ partChars '?' u.query)

end Url

end HmcClient
