import HmcClient.Url.Basic
import HmcClient.Url.FilePath
import HmcClient.Text.Blank

/-!
# Reading URLs

Blanks and control characters around the text are dropped first, and the scheme is split off. The
scheme decides how the rest is read. In a web URL any number of slashes after the scheme precedes
the host, which is required. A file URL has a host only between its second and third slash. Any
other URL has a host if two slashes follow the scheme, and a path without structure if none does.

Everything up to the last at sign before the path is user name and password. A port is digits up to
the path. Outside of the web a backslash ends a port too, and starts the path.
-/

namespace HmcClient.Url

/-! ## Scheme -/

/-- Whether a character may stand in a scheme after the first letter. -/
def isSchemeChar (c : Char) : Bool := c.isAlphanum || c == '+' || c == '-' || c == '.'

/-- The scheme in lower case and what follows its colon. -/
def splitScheme? (cs : List Char) : Option (String × List Char) :=
  let scheme := skim (cs.takeWhile fun c => isSchemeChar c || isSkipped c)
  match scheme, cs.dropWhile fun c => isSchemeChar c || isSkipped c with
  | first :: _, ':' :: rest =>
    if first.isAlpha then some (String.ofList (scheme.map Literal.lowerAscii), rest) else none
  | _, _ => none

/-! ## Authority -/

/-- Whether a character ends the authority. -/
def endsAuthority (web : Bool) (c : Char) : Bool :=
  Path.isSeparator web c || c == '?' || c == '#'

/-- Splits before the last occurrence of an element. -/
def splitLast? {α : Type} [BEq α] (a : α) (xs : List α) : Option (List α × List α) :=
  match xs.reverse.dropWhile (· != a) with
  | [] => none
  | _ :: before => some (before.reverse, xs.drop (before.length + 1))

/-- A user name and a password. -/
structure UserInfo where
  username : String
  password : Option String

/-- Whether there is neither user name nor password. -/
def UserInfo.isNone (user : UserInfo) : Bool := user.username.isEmpty && user.password.isNone

/-- Reads user name and password. The first colon separates them, and an empty password is none. -/
def UserInfo.ofText (cs : List Char) : UserInfo :=
  let encoded (cs : List Char) := String.ofList (Percent.encode Percent.inUserInfo cs)
  let password := (cs.dropWhile (· != ':')).tail
  ⟨encoded (cs.takeWhile (· != ':')), if password.isEmpty then none else some (encoded password)⟩

/-- The host and the rest: up to the first colon outside of brackets. -/
def splitHost : Bool → List Char → List Char × List Char
  | _, [] => ([], [])
  | inBrackets, c :: rest =>
    if c == ':' && !inBrackets then ([], c :: rest)
    else
      let (host, rest) := splitHost (c == '[' || (inBrackets && c != ']')) rest
      (c :: host, rest)

/-- Reads a port and gives back what follows it, which is nothing unless it starts with a backslash.
A missing port and the usual one of the scheme are none. -/
def readPort (scheme : String) (cs : List Char) : Except Fault (Option Nat × List Char) :=
  let digits := cs.takeWhile Literal.isDigit
  let rest := cs.dropWhile Literal.isDigit
  let port := Literal.ofDigits digits
  if !rest.isEmpty ∧ rest.head? ≠ some '\\' then .error .invalidPort
  else if 65535 < port then .error .invalidPort
  else if digits.isEmpty ∨ defaultPort? scheme = some port then .ok (none, rest)
  else .ok (some port, rest)

/-- What stands between the slashes and the path. -/
structure Authority where
  user : UserInfo
  host : Option Host
  port : Option Nat

/-- The user information of an authority, and the rest. -/
def splitUser (cs : List Char) : UserInfo × List Char :=
  match splitLast? '@' cs with
  | some (user, rest) => (UserInfo.ofText user, rest)
  | none => (⟨"", none⟩, cs)

/-- Reads an authority and gives back what follows its port. Only a URL outside of the web may do
without a host, and then it has neither user nor port. A lone at sign stands for no user, but only
where the URL ends with it. -/
def Authority.ofText (idna : Idna) (scheme : String) (cs : List Char) (isLast : Bool) :
    Except Fault (Authority × List Char) := do
  let (user, rest) := splitUser cs
  let (hostText, rest) := splitHost false rest
  let host ←
    if isWebScheme scheme then Host.ofWebText idna hostText else Host.ofVerbatimText hostText
  if host = .name "" then
    if user.isNone && rest.isEmpty && (isLast || cs != ['@']) then return (⟨user, none, none⟩, [])
    else throw .emptyHost
  let (port, rest) ← readPort scheme rest.tail
  return (⟨user, some host, port⟩, rest)

/-! ## The rest -/

/-- A text up to the first character of a kind, and the part after it if there is one. -/
def splitAtSign (sign : Char) (cs : List Char) : List Char × Option (List Char) :=
  match cs.dropWhile (· != sign) with
  | [] => (cs, none)
  | _ :: rest => (cs.takeWhile (· != sign), some rest)

/-- A query as it is kept. -/
def encodeQuery (web : Bool) (cs : List Char) : String :=
  String.ofList (Percent.encode (if web then Percent.inWebQuery else Percent.inQuery) cs)

/-- A fragment as it is kept. -/
def encodeFragment (cs : List Char) : String :=
  String.ofList (Percent.encode Percent.inFragment cs)

/-- The URL with the given parts, from the text of its path. -/
def build (scheme : String) (authority : Option Authority) (path : Path)
    (query fragment : Option (List Char)) (web : Bool) : Url where
  scheme := scheme
  username := (authority.map (·.user.username)).getD ""
  password := authority.bind (·.user.password)
  host := authority.bind (·.host)
  port := authority.bind (·.port)
  path := path
  query := query.map (encodeQuery web)
  fragment := fragment.map encodeFragment

/-- Reads a web URL after its scheme. -/
def readWeb (idna : Idna) (scheme : String) (cs : List Char)
    (query fragment : Option (List Char)) : Except Fault Url := do
  let rest := cs.dropWhile (Path.isSeparator true)
  let path := rest.dropWhile fun c => !endsAuthority true c
  let (authority, _) ← Authority.ofText idna scheme (rest.takeWhile fun c => !endsAuthority true c)
    (path.isEmpty && query.isNone && fragment.isNone)
  return build scheme authority (.segments (Path.ofText true path)) query fragment true

/-- A file URL from its host and the text of its path after the first slash. A path that starts
with a drive is on the machine itself. -/
def buildFile (host : Host) (text : List Char) (query fragment : Option (List Char)) : Url :=
  let path := FilePath.ofText text
  let authority : Authority := ⟨⟨"", none⟩, some (if path.onDrive then .name "" else host), none⟩
  build "file" (some authority) (.segments path.segments) query fragment true

/-- What follows two slashes, if a text starts with them. -/
def afterTwoSlashes? (cs : List Char) : Option (List Char) :=
  match skipBreaks cs with
  | [] => none
  | first :: rest =>
    match skipBreaks rest with
    | [] => none
    | second :: rest =>
      if Path.isSeparator true first && Path.isSeparator true second then some rest else none

/-- Reads a file URL after its scheme. The machine itself is no host, and where there is none the
path keeps the slash that it starts with. -/
def readFile (idna : Idna) (cs : List Char) (query fragment : Option (List Char)) :
    Except Fault Url := do
  match afterTwoSlashes? cs with
  | none => return buildFile (.name "") (Path.dropLeading true (skipBreaks cs)) query fragment
  | some rest =>
    let hostText := skim (rest.takeWhile fun c => !endsAuthority true c)
    if Path.isDrive hostText then return buildFile (.name "") rest query fragment
    let host ← if hostText.isEmpty then pure (.name "") else Host.ofWebText idna hostText
    let path := rest.dropWhile fun c => !endsAuthority true c
    if host = .name "" ∨ host = .name "localhost" then
      return buildFile (.name "") path query fragment
    return buildFile host (Path.dropLeading true path) query fragment

/-- Reads any other URL after its scheme. -/
def readOther (idna : Idna) (scheme : String) (cs : List Char)
    (query fragment : Option (List Char)) : Except Fault Url := do
  match cs with
  | '/' :: '/' :: rest =>
    let path := rest.dropWhile fun c => !endsAuthority false c
    let (authority, afterPort) ← Authority.ofText idna scheme
      (rest.takeWhile fun c => !endsAuthority false c)
      (path.isEmpty && query.isNone && fragment.isNone)
    let path := if afterPort.isEmpty then path else '/' :: afterPort ++ path
    let host := authority.host.getD (.name "")
    return build scheme (some { authority with host := some host })
      (.segments (Path.ofText false path)) query fragment false
  | '/' :: rest =>
    return build scheme none (.segments (Path.ofText false ('/' :: rest))) query fragment false
  | cs =>
    let text := String.ofList (Percent.encode Percent.isControl cs)
    return build scheme none (.verbatim text) query fragment false

/-- Reads a URL. -/
def parse (idna : Idna) (s : String) : Except Fault Url :=
  match splitScheme? (Blank.trimWhile isPadding s.toList) with
  | none => .error .relative
  | some (scheme, rest) =>
    let (rest, fragment) := splitAtSign '#' rest
    let (rest, query) := splitAtSign '?' rest
    let query := query.map skim
    let fragment := fragment.map skim
    if scheme = "file" then readFile idna rest query fragment
    else if isWebScheme scheme then readWeb idna scheme (skim rest) query fragment
    else readOther idna scheme (skim rest) query fragment

/-! ## Replacing the path -/

/-- A path without structure from a text. It cannot start with a slash, which is encoded there. -/
def verbatimPath (cs : List Char) : String :=
  let encoded (cs : List Char) := Percent.encode Percent.isControl (skim cs)
  match cs with
  | '/' :: rest => String.ofList (Percent.escape 0x2F ++ encoded rest)
  | cs => String.ofList (encoded cs)

/-- The URL with its path read from a text. Question mark and number sign do not end a path given
this way; they are encoded. -/
def setPath (u : Url) (text : String) : Url :=
  let cs := text.toList
  match u.path with
  | .segments _ =>
    if u.scheme = "file" then
      { u with path := .segments (FilePath.ofText (Path.dropLeading true (skipBreaks cs))).segments }
    else { u with path := .segments (Path.ofText u.isWeb (skim cs)) }
  | .verbatim _ => { u with path := .verbatim (verbatimPath cs) }

end HmcClient.Url
