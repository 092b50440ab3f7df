import HmcClient.Failure
import HmcClient.Json.Printer
import HmcClient.Url.Query

/-!
# Requests and responses

One call to the console and its answer. A request is complete in itself: method, URL, body and
content type are fixed before it is sent, so sending it a second time sends the same thing.

Two classifications of an answer are made before anyone looks at what it is for. A status is
*expected* if the console uses it for regular answers, errors that concern the operation included.
An answer *needs a logon* if it says that the session is not valid, which status 401 always does
and status 403 does for two reasons.
-/

namespace HmcClient

/-! ## Requests -/

/-- The body of a request. -/
inductive Body where
  | empty
  | json (value : Json)
  | raw (bytes : List UInt8)
  deriving BEq, Repr

namespace Body

/-- The bytes that are sent. -/
def bytes : Body → List UInt8
  | empty => []
  | json value => Utf8.encodeChars value.renderChars
  | raw bytes => bytes

end Body

/-- A call to the console. -/
structure Request where
  method : String
  url : Url
  body : Body
  contentType : Option String
  /-- Whether the caller may cancel it. -/
  cancellable : Bool
  deriving BEq, Repr

namespace Request

/-- The content type of documents. -/
def documentType : String := "application/json"

/-- The content type of raw bytes. -/
def bytesType : String := "application/octet-stream"

/-- A request without a body. -/
def new (method : String) (url : Url) : Request := ⟨method, url, .empty, none, false⟩

/-- A request to read. -/
def get (url : Url) : Request := new "GET" url

/-- A request to create, change or operate. -/
def post (url : Url) : Request := new "POST" url

/-- A request to delete. -/
def delete (url : Url) : Request := new "DELETE" url

/-- The request with a document. -/
def withJson (r : Request) (value : Json) : Request := { r with body := .json value }

/-- The request with a document, if the body can be written as one. -/
def withJson? (r : Request) (value : Option Json) : Result Request :=
  match value with
  | some value => .ok (r.withJson value)
  | none => .error (.ofCause .unserializableBody)

/-- The request with raw bytes. -/
def withRaw (r : Request) (bytes : List UInt8) : Request := { r with body := .raw bytes }

/-- The request with a content type. -/
def withContentType (r : Request) (contentType : String) : Request :=
  { r with contentType := some contentType }

/-- A request that sends raw bytes. -/
def upload (method : String) (url : Url) (bytes : List UInt8) : Request :=
  ((new method url).withRaw bytes).withContentType bytesType

/-- The content type that is sent. -/
def effectiveContentType (r : Request) : String := r.contentType.getD documentType

/-- Whether a list of characters ends with another. -/
def endsWith (cs ending : List Char) : Bool := ending.reverse.isPrefixOf cs.reverse

/-- Whether the request is itself a logon, which must not lead to another one. -/
def isLogon (r : Request) : Bool :=
  r.method == "POST" && endsWith r.url.path.render "/sessions".toList

end Request

/-! ## Responses -/

/-- The answer to a request. -/
structure Response where
  status : Nat
  body : List UInt8
  deriving DecidableEq, Repr

/-- The statuses that the console uses for regular answers. -/
def expectedStatuses : List Nat := [200, 201, 202, 204, 206, 400, 404, 409, 500, 503]

/-- Whether a status is one of regular answers. -/
def isExpectedStatus (status : Nat) : Bool := expectedStatuses.contains status

/-- Whether an answer with this status and reason says that the session is not valid. -/
def needsLogon (status : Nat) (reason : Int) : Bool :=
  status == 401 || (status == 403 && (reason == 4 || reason == 5))

namespace Response

/-- Whether the status is one of regular answers. -/
def isExpected (r : Response) : Bool := isExpectedStatus r.status

/-- The fault that the answer reports. -/
def failure (r : Response) : Failure := (Failure.ofBody r.body).withStatus r.status

/-- Whether the answer says that the session is not valid. -/
def rejectsSession (r : Response) : Bool := needsLogon r.status r.failure.reason

end Response

end HmcClient
