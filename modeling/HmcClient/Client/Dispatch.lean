import HmcClient.Client.Identity
import HmcClient.Client.Steps
import HmcClient.Exchange.Dump

/-!
# One exchange

A request is sent once and its answer is taken as it is; nothing here knows about sessions beyond
the token that goes with the request. The exchange is counted when it has ended, however it ended,
and both sides of it are traced, the answer only if it is complete. A request that cannot be sent
because of a header is neither sent nor counted.
-/

namespace HmcClient.Client

/-- A result that is known already. -/
def ofResult {α : Type} (result : Result α) : Task α := ExceptT.mk (.done result)

/-- Traces a text if the trace is on. -/
def traced (text : String) : Action Unit := do
  if ← touch .isTraced then touch (.trace text)

/-- Counts an exchange that has ended. -/
def counted (answered : Bool) : Action Unit :=
  locked .statistics .exclusive (touch (.countRequest answered))

/-- Sends a message and waits for what becomes of it. -/
def deliver (message : Message) : Action Delivery :=
  Program.ask (S := Steps) (.exchange message message.request.cancellable)

/-- What an exchange gives. -/
def settle (r : Request) : Delivery → Task Response
  | .answered status headers body => do
    traced (Dump.response status headers body)
    return ⟨status, body⟩
  | .brokenOff status => throw ((Failure.ofCause .brokenBody).withStatus status)
  | .lost => throw (.ofCause .requestFailed)
  | .cancelled => throw (.ofCause (.cancelled r.method r.url.render))

/-- Whether a message was answered. -/
def Delivery.isAnswered : Delivery → Bool
  | .answered .. => true
  | _ => false

/-- Sends a request that belongs to a session. -/
def dispatch (r : Request) (token : Option String) : Task Response := do
  let headers ← ofResult (Headers.ofRequest Identity.userAgent r token)
  traced (Dump.request r headers)
  let verification ← readCell .connection .verification
  let delivery ← deliver ⟨r, headers, token, verification⟩
  counted delivery.isAnswered
  settle r delivery

end HmcClient.Client
