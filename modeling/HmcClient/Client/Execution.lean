import HmcClient.Client.Logon
import HmcClient.Exchange.Talk

/-!
# Executing requests

A request is executed within a session. If none is held, one is opened first. If the answer says
that the session is not valid, a new one is opened and the request is sent once more; that is the
last time, whatever the answer.

Many requests may find at once that a session is missing or not valid. Each then waits for the lock
of the session, and looks again once it is let in: the first to be let in logs on, and those after
it find its session. What a request compares with is the token that it was sent with, so a
rejection that arrives late does not touch a newer session.

A logon that is sent as a request is executed as it is: it needs no session and is not repeated.
-/

namespace HmcClient.Client

/-- Opens a session if none is held. -/
def ensureLoggedOn (e : Endpoint) : Task Unit := ExceptT.mk do
  if (← readCell .session .session).isAuthenticated then return .ok ()
  locked .session .exclusive do
    if (← touch .session).isAuthenticated then return .ok ()
    (installLogon e).run

/-- Replaces the session of a rejected request, unless another one is held by now. A failure leaves
no session. -/
def relogon (e : Endpoint) (stale : Option String) : Task Unit :=
  ExceptT.mk <| locked .session .exclusive do
    let session ← touch .session
    if session.isAuthenticated && session.token? != stale then return .ok ()
    match ← (requestLogon e none).run with
    | .ok data =>
      touch (.install data)
      return .ok ()
    | .error failure =>
      touch .clear
      return .error failure

/-- The answer if it is a regular one, else the fault that it reports. -/
def regular (response : Response) : Result Response :=
  if response.isExpected then .ok response else .error response.failure

/-- Sends a request within the session that is held, and gives the token it was sent with. -/
def attempt (r : Request) : Task (Option String × Response) := do
  let token ← currentToken
  return (token, ← dispatch r token)

/-- Executes a request. -/
def execute (e : Endpoint) (r : Request) : Task Response := do
  if !r.isLogon then untilCancelled r (ensureLoggedOn e)
  let (token, response) ← attempt r
  if response.isExpected then return response
  if r.isLogon || !response.rejectsSession then throw response.failure
  untilCancelled r (relogon e token)
  let (_, second) ← attempt r
  ofResult (regular second)

/-! ## Operations on resources -/

/-- How the client answers what an operation on a resource asks for. -/
def answerTalk (e : Endpoint) : (effect : Talk.Effect) → Action (Talk.Answer effect)
  | .execute r => (execute e r).run
  | .sessionId => currentToken
  | .now => touch .now
  | .pause interval cancellable => Program.ask (S := Steps) (.pause interval cancellable)

/-- An operation on a resource, done by the client. -/
def perform {α : Type} (e : Endpoint) (operation : Program Talk α) : Action α :=
  operation.interpret (answerTalk e)

end HmcClient.Client
