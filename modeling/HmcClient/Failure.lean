import HmcClient.Duration
import HmcClient.Json.Reader
import HmcClient.Json.Record
import HmcClient.Text.Quoted
import HmcClient.Url.Host

/-!
# Failures

Every operation of the client fails in one way: with a `Failure`, whether the client found the
fault itself or the console reported one. The kind tells which. A fault found by the client has a
kind with a fixed code from 1000 on, and the code is its reason. A fault reported by the console
has the kind `server` with the console's reason. The console's reasons may overlap the client's
codes, so the kind is kept beside the reason and never worked out from it.

What the client itself can find wrong is listed in `Cause`, and `Cause.message` has all the
wording.

The console reports a fault as a document, the `Envelope`. `Failure.envelope` writes any failure in
that form and `Failure.ofBody` reads a body; a body that is no such document is a fault without a
known reason.
-/

namespace HmcClient

/-! ## Kinds -/

/-- Who found a fault, and of which sort it is. -/
inductive FailureKind where
  | invalidUrl
  | badRequest
  | emptyResponse
  | readResponse
  | traceRequest
  | execute
  | marshal
  | unmarshal
  | emptyJobUri
  /-- A fault reported by the console. -/
  | server (reason : Int)
  deriving DecidableEq, Repr

namespace FailureKind

/-- The reason that goes with a kind. -/
def code : FailureKind → Int
  | invalidUrl => 1000
  | badRequest => 1001
  | emptyResponse => 1002
  | readResponse => 1003
  | traceRequest => 1004
  | execute => 1005
  | marshal => 1006
  | unmarshal => 1007
  | emptyJobUri => 1008
  | server reason => reason

/-- The client's kind for a code, and the console's kind for any other number. -/
def ofCode (n : Int) : FailureKind :=
  if n = 1000 then invalidUrl
  else if n = 1001 then badRequest
  else if n = 1002 then emptyResponse
  else if n = 1003 then readResponse
  else if n = 1004 then traceRequest
  else if n = 1005 then execute
  else if n = 1006 then marshal
  else if n = 1007 then unmarshal
  else if n = 1008 then emptyJobUri
  else server n

end FailureKind

/-! ## Causes -/

/-- What the client itself finds wrong. -/
inductive Cause where
  | unreadableUrl (fault : Url.Fault)
  | unreadableEndpoint (text : String) (fault : Url.Fault)
  | endpointScheme (scheme : String)
  | endpointWithoutHost (url : String)
  | endpointWithoutPath (url : String)
  | missingCertificateFile (path : String)
  | malformedCertificateFile (path : String)
  | noUsableCertificate (path : String)
  | missingSetting (name : String)
  | invalidSetting (name : String) (fault : Literal.IntegerFault)
  /-- A header that cannot be sent; `what` says which. -/
  | invalidHeader (what : String)
  | unexpectedStatus (status : Nat)
  | emptyBody
  | noObjectUri
  | noSessionId
  | noConsoleSession
  | noPowerMetric (metric : String)
  | noPowerReading (metric uri : String)
  | brokenBody
  | requestFailed
  | cancelled (method url : String)
  | jobTimedOut (timeout : Duration) (uri : String)
  | jobWaitCancelled (uri : String)
  | unserializableBody
  | undecodableBody
  | metricsTimestamp (lineNumber : Nat) (line : String)
  | metricsCutOff
  | noJobUri
  deriving DecidableEq, Repr

namespace Cause

/-- The kind of failure a cause leads to. -/
def kind : Cause → FailureKind
  | unreadableUrl _ | unreadableEndpoint .. | endpointScheme _ | endpointWithoutHost _
  | endpointWithoutPath _ | missingCertificateFile _ | malformedCertificateFile _
  | noUsableCertificate _ => .invalidUrl
  | missingSetting _ | invalidSetting .. | invalidHeader _ | unexpectedStatus _ => .badRequest
  | emptyBody | noObjectUri | noSessionId | noConsoleSession | noPowerMetric _
  | noPowerReading .. => .emptyResponse
  | brokenBody => .readResponse
  | requestFailed | cancelled .. | jobTimedOut .. | jobWaitCancelled _ => .execute
  | unserializableBody => .marshal
  | undecodableBody | metricsTimestamp .. | metricsCutOff => .unmarshal
  | noJobUri => .emptyJobUri

/-- The wording of a cause. -/
def message : Cause → String
  | unreadableUrl fault => "invalid URL: " ++ fault.message
  | unreadableEndpoint text fault =>
    "cannot parse endpoint " ++ Quoted.quote text ++ ": " ++ fault.message
  | endpointScheme scheme => "endpoint scheme must be https, got " ++ Quoted.quote scheme
  | endpointWithoutHost url => "endpoint " ++ Quoted.quote url ++ " has no host"
  | endpointWithoutPath url => "endpoint " ++ Quoted.quote url ++ " cannot carry a path"
  | missingCertificateFile path => "cannot read CA certificate " ++ path
  | malformedCertificateFile path => "cannot parse CA certificate " ++ path
  | noUsableCertificate path => "no usable certificate in " ++ path
  | missingSetting name => name ++ " is required"
  | invalidSetting name fault => "invalid " ++ name ++ ": " ++ fault.message
  | invalidHeader what => "invalid " ++ what ++ " header: failed to parse header value"
  | unexpectedStatus status => "unexpected HTTP status " ++ toString status
  | emptyBody => "response body is empty"
  | noObjectUri => "created object has no object-uri"
  | noSessionId => "logon response carries no session id"
  | noConsoleSession => "no session for the console websocket"
  | noPowerMetric metric => "metrics context does not offer " ++ metric
  | noPowerReading metric uri => "no " ++ metric ++ " reading for " ++ uri
  | brokenBody => "failed to read response body"
  | requestFailed => "HTTP request failed"
  | cancelled method url => method ++ " " ++ url ++ " cancelled"
  | jobTimedOut timeout uri => "timed out after " ++ timeout.render ++ " waiting for job " ++ uri
  | jobWaitCancelled uri => "waiting for job " ++ uri ++ " cancelled"
  | unserializableBody => "failed to serialize request body"
  | undecodableBody => "failed to parse response body"
  | metricsTimestamp lineNumber line =>
    "line " ++ toString lineNumber ++ ": invalid metrics timestamp " ++ Quoted.quote line
  | metricsCutOff => "metrics data ends before the timestamp line"
  | noJobUri => "accepted response carries no job URI"

end Cause

/-! ## Failures -/

/-- The failure of an operation. -/
structure Failure where
  kind : FailureKind
  reason : Int
  message : String
  /-- The HTTP status that came with the fault, if one did. -/
  status : Option Nat
  deriving DecidableEq, Repr

/-- What an operation gives. -/
abbrev Result := Except Failure

namespace Failure

/-- The reason of a fault that the console reported in no readable way. -/
def unknownReason : Int := -1

/-- The message of such a fault. -/
def unknownMessage : String := "Unknown error."

/-- A failure of a kind, with the kind's own reason. -/
def new (kind : FailureKind) (message : String) : Failure := ⟨kind, kind.code, message, none⟩

/-- A fault reported by the console. -/
def server (reason : Int) (message : String) : Failure := ⟨.server reason, reason, message, none⟩

/-- The failure a cause leads to. -/
def ofCause (cause : Cause) : Failure := new cause.kind cause.message

/-- The failure with a status. -/
def withStatus (f : Failure) (status : Nat) : Failure := { f with status := some status }

/-- The text of a failure. -/
def display (f : Failure) : String := f.message ++ " (reason " ++ toString f.reason ++ ")"

end Failure

/-! ## Envelopes -/

/-- A fault as the console reports it. -/
structure Envelope where
  reason : Int
  message : String
  httpStatus : Option Nat
  requestUri : Option String
  deriving DecidableEq, Repr

/-- How an envelope is read and written. -/
def Envelope.codec : Codec Envelope :=
  ((((Record.make Envelope Envelope.mk).required "reason" .int64 (·.reason)).required
    "message" .text (·.message)).elided
    "http-status" .nat16 (·.httpStatus)).elided
    "request-uri" .text (·.requestUri) |>.codec

namespace Failure

/-- The failure as the console would report it. -/
def envelope (f : Failure) : Envelope := ⟨f.reason, f.message, f.status, none⟩

/-- The fault that a body reports. -/
def ofBody (body : List UInt8) : Failure :=
  match Document.read? body >>= Envelope.codec.read? with
  | some e => { server e.reason e.message with status := e.httpStatus }
  | none => server unknownReason unknownMessage

end Failure

end HmcClient
