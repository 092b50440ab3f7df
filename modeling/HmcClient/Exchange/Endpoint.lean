import HmcClient.Exchange.Message

/-!
# Endpoints

The address of a console: a secure URL with a host, and a path under which everything else lies. Its
path never ends in a slash unless it is the root, and it has neither query nor fragment.

A resource is named by a path below the endpoint, or by the full path that the console itself gave
out. `Endpoint.resourceUrl` takes either: a text that is the base path or starts with it and a slash
replaces the path, and anything else is appended.
-/

namespace HmcClient

/-- The address of a console. -/
structure Endpoint where
  url : Url
  deriving DecidableEq, Repr

namespace Endpoint

/-- The characters without trailing slashes. -/
def trimSlashes (cs : List Char) : List Char := Blank.dropEndWhile (· == '/') cs

/-- The endpoint at a URL of any scheme. -/
def ofUrl (u : Url) : Result Endpoint :=
  if u.hostText?.isNone then .error (.ofCause (.endpointWithoutHost u.render))
  else if u.isVerbatim then .error (.ofCause (.endpointWithoutPath u.render))
  else
    let trimmed := u.setPath (String.ofList (trimSlashes u.path.render))
    .ok ⟨{ trimmed with query := none, fragment := none }⟩

/-- Reads an endpoint. Only secure URLs are accepted. -/
def parse (idna : Idna) (text : String) : Result Endpoint :=
  match Url.parse idna text with
  | .error fault => .error (.ofCause (.unreadableEndpoint text fault))
  | .ok u =>
    if u.scheme ≠ "https" then .error (.ofCause (.endpointScheme u.scheme)) else ofUrl u

/-- The characters of the base path, empty if the endpoint is the root of its host. -/
def basePathChars (e : Endpoint) : List Char := trimSlashes e.url.path.render

/-- The base path, empty if the endpoint is the root of its host. -/
def basePath (e : Endpoint) : String := String.ofList e.basePathChars

/-- The path of a resource before it is normalised. -/
def resourcePath (base uri : List Char) : List Char :=
  if !base.isEmpty && (uri == base || (base ++ ['/']).isPrefixOf uri) then uri
  else base ++ '/' :: uri.dropWhile (· == '/')

/-- The URL of a resource. -/
def resourceUrl (e : Endpoint) (uri : String) : Url :=
  e.url.setPath (String.ofList (resourcePath e.basePathChars uri.toList))

/-- The text of an endpoint. -/
def render (e : Endpoint) : String := e.url.render

end Endpoint

end HmcClient
