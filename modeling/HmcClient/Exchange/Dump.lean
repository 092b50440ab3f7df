import HmcClient.Exchange.Header
import HmcClient.Exchange.Redaction

/-!
# Dumps of exchanges

The text that the trace shows for a request or an answer: the first line, the header fields, an
empty line and the body. A session in a header is hidden, a document is shown with its secrets
hidden, and raw bytes of a request only by their number. The body of an answer is a document if it
reads as one, and otherwise is shown as it is.
-/

namespace HmcClient.Dump

/-- The lines of a header list. -/
def headerLines (hs : Headers) : String :=
  String.join <| hs.grouped.map fun h =>
    let shown := if h.name == Header.sessionName then Redaction.mark else h.text?.getD "<binary>"
    h.name ++ ": " ++ shown ++ "\r\n"

/-- The line that names the host, if the URL has one. -/
def hostLine (u : Url) : String :=
  match u.hostText? with
  | none => ""
  | some host =>
    match u.port with
    | some port => "Host: " ++ host ++ ":" ++ toString port ++ "\r\n"
    | none => "Host: " ++ host ++ "\r\n"

/-- The body of a request as it is shown. -/
def requestBody : Body → String
  | .empty => ""
  | .json value => (Redaction.redact value).render ++ "\n"
  | .raw bytes => "<" ++ toString bytes.length ++ " bytes of binary data>\n"

/-- The dump of a request with the given header fields. -/
def request (r : Request) (hs : Headers) : String :=
  r.method ++ " " ++ r.url.target ++ " HTTP/1.1\r\n" ++ hostLine r.url ++ headerLines hs ++
    "\r\n" ++ requestBody r.body

/-- The usual phrase for a status. -/
def reasonPhrase : Nat → String
  | 100 => "Continue"
  | 101 => "Switching Protocols"
  | 102 => "Processing"
  | 103 => "Early Hints"
  | 200 => "OK"
  | 201 => "Created"
  | 202 => "Accepted"
  | 203 => "Non Authoritative Information"
  | 204 => "No Content"
  | 205 => "Reset Content"
  | 206 => "Partial Content"
  | 207 => "Multi-Status"
  | 208 => "Already Reported"
  | 226 => "IM Used"
  | 300 => "Multiple Choices"
  | 301 => "Moved Permanently"
  | 302 => "Found"
  | 303 => "See Other"
  | 304 => "Not Modified"
  | 305 => "Use Proxy"
  | 307 => "Temporary Redirect"
  | 308 => "Permanent Redirect"
  | 400 => "Bad Request"
  | 401 => "Unauthorized"
  | 402 => "Payment Required"
  | 403 => "Forbidden"
  | 404 => "Not Found"
  | 405 => "Method Not Allowed"
  | 406 => "Not Acceptable"
  | 407 => "Proxy Authentication Required"
  | 408 => "Request Timeout"
  | 409 => "Conflict"
  | 410 => "Gone"
  | 411 => "Length Required"
  | 412 => "Precondition Failed"
  | 413 => "Payload Too Large"
  | 414 => "URI Too Long"
  | 415 => "Unsupported Media Type"
  | 416 => "Range Not Satisfiable"
  | 417 => "Expectation Failed"
  | 418 => "I'm a teapot"
  | 421 => "Misdirected Request"
  | 422 => "Unprocessable Entity"
  | 423 => "Locked"
  | 424 => "Failed Dependency"
  | 425 => "Too Early"
  | 426 => "Upgrade Required"
  | 428 => "Precondition Required"
  | 429 => "Too Many Requests"
  | 431 => "Request Header Fields Too Large"
  | 451 => "Unavailable For Legal Reasons"
  | 500 => "Internal Server Error"
  | 501 => "Not Implemented"
  | 502 => "Bad Gateway"
  | 503 => "Service Unavailable"
  | 504 => "Gateway Timeout"
  | 505 => "HTTP Version Not Supported"
  | 506 => "Variant Also Negotiates"
  | 507 => "Insufficient Storage"
  | 508 => "Loop Detected"
  | 510 => "Not Extended"
  | 511 => "Network Authentication Required"
  | _ => ""

/-- The body of an answer as it is shown. -/
def responseBody (body : List UInt8) : String :=
  if body.isEmpty then ""
  else
    match Json.read? body with
    | some value => (Redaction.redact value).render ++ "\n"
    | none => Utf8.decodeLossy body ++ "\n"

/-- The dump of an answer. -/
def response (status : Nat) (hs : Headers) (body : List UInt8) : String :=
  "HTTP/1.1 " ++ toString status ++ " " ++ reasonPhrase status ++ "\r\n" ++ headerLines hs ++
    "\r\n" ++ responseBody body

end HmcClient.Dump
