import HmcClient.Exchange.Endpoint
import HmcClient.Exchange.Reading
import HmcClient.Program

/-!
# Talking to a console

What an operation on a resource can ask for: that a request be executed, which session is held,
what time it is, and that some time pass. Everything about sessions, retries and connections is
left to who answers, so an operation is the same whether a client or a script answers it.

An operation that can fail is an `Operation`; its first failure ends it.
-/

namespace HmcClient

namespace Talk

/-- What an operation asks for. -/
inductive Effect where
  /-- Executes a request. An answer is given only if its status is an expected one. -/
  | execute (request : Request)
  /-- The session that is held. -/
  | sessionId
  /-- The time since some fixed start. -/
  | now
  /-- Lets time pass. A cancellable pause ends at once when the operation is cancelled. -/
  | pause (interval : Duration) (cancellable : Bool)
  deriving BEq, Repr

/-- What is answered. A pause tells whether it was cancelled. -/
abbrev Answer : Effect → Type
  | .execute _ => Result Response
  | .sessionId => Option String
  | .now => Duration
  | .pause .. => Bool

end Talk

/-- Talking to a console. -/
abbrev Talk : Signature := ⟨Talk.Effect, Talk.Answer⟩

/-- An operation on the resources of a console. -/
abbrev Operation (α : Type) := ExceptT Failure (Program Talk) α

namespace Talk

/-- Executes a request. -/
def execute (request : Request) : Operation Response :=
  ExceptT.mk (Program.ask (S := Talk) (.execute request))

/-- Executes a request that sends raw bytes. -/
def upload (method : String) (url : Url) (bytes : List UInt8) : Operation Response :=
  execute (.upload method url bytes)

/-- The session that is held. -/
def sessionId : Operation (Option String) :=
  ExceptT.lift (Program.ask (S := Talk) .sessionId)

/-- Executes a request and reads its answer. -/
def expect {α : Type} (request : Request) (read : Response → Result α) : Operation α := do
  ExceptT.mk (pure (read (← execute request)))

end Talk

namespace Endpoint

/-- A request to read a resource. -/
def get (e : Endpoint) (uri : String) : Request := .get (e.resourceUrl uri)

/-- A request to read a list of resources, as far as a query lets them through. -/
def getFiltered (e : Endpoint) (uri : String) (query : Query) : Request :=
  .get (query.apply (e.resourceUrl uri))

/-- A request to operate on a resource. -/
def post (e : Endpoint) (uri : String) : Request := .post (e.resourceUrl uri)

/-- A request to send a document to a resource. -/
def postJson (e : Endpoint) (uri : String) (body : Json) : Request := (e.post uri).withJson body

/-- A request to delete a resource. -/
def delete (e : Endpoint) (uri : String) : Request := .delete (e.resourceUrl uri)

end Endpoint

end HmcClient
