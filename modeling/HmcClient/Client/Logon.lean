import HmcClient.Client.Dispatch
import HmcClient.Exchange.Endpoint

/-!
# Logging on and off

A logon opens a session. `requestLogon` does no more than that; whether the session becomes the
client's own is decided by who asked for it. The client's own session changes only while its lock is
held by one operation alone, and the lock is held from before the logon is sent until the session is
installed, so there is never a second logon on the way.

Logging off empties the session before the console is told, so the client is without a session
whatever the console answers.
-/

namespace HmcClient.Client

/-- The token of the session that is held. -/
def currentToken : Action (Option String) := do
  return (← readCell .session .session).token?

/-- The request for a session. -/
def logonRequest (e : Endpoint) (o : Options) (newPassword : Option String) : Request :=
  (Request.post (e.resourceUrl Logon.sessionsUri)).withJson
    (Logon.body o.username o.password newPassword)

/-- Counts a logon. -/
def countedLogon : Action Unit := locked .statistics .exclusive (touch .countLogon)

/-- Opens a session, and changes the password if there is a new one. -/
def requestLogon (e : Endpoint) (newPassword : Option String) : Task LogonData := do
  let options ← readCell .options .options
  let answer ← ExceptT.lift (dispatch (logonRequest e options newPassword) none).run
  countedLogon
  let response ← ofResult answer
  ofResult (Logon.opened response)

/-- Opens a session and installs it if that succeeds. The lock of the session is held. -/
def installLogon (e : Endpoint) : Task Unit := do
  let data ← requestLogon e none
  touch (.install data)

/-- Logs on. -/
def logon (e : Endpoint) : Task Unit :=
  ExceptT.mk (locked .session .exclusive (installLogon e).run)

/-- The request that ends the session it belongs to. -/
def logoffRequest (e : Endpoint) : Request := .delete (e.resourceUrl Logon.thisSessionUri)

/-- Ends a session. -/
def closeSession (e : Endpoint) (token : String) : Task Unit := do
  let response ← dispatch (logoffRequest e) (some token)
  ofResult (response.nothing [200, 204])

/-- Ends the client's own session, if there is one. -/
def logoff (e : Endpoint) : Task Unit :=
  ExceptT.mk <| locked .session .exclusive do
    match (← touch .session).token? with
    | none => return .ok ()
    | some token =>
      touch .clear
      (closeSession e token).run

/-- Opens a session that is not the client's own. -/
def logonConsole (e : Endpoint) : Task LogonData := requestLogon e none

/-- Ends a session that is not the client's own. -/
def logoffConsole (e : Endpoint) (sessionId : String) : Task Unit := closeSession e sessionId

/-- Changes the password. The session that this takes is closed again. -/
def changePassword (e : Endpoint) (newPassword : String) : Task Unit := do
  let data ← requestLogon e (some newPassword)
  logoffConsole e data.sessionId

/-! ## Asking -/

/-- The request by which the client finds out whether its session is valid. -/
def probeRequest (e : Endpoint) : Request := .get (e.resourceUrl "/console")

/-- Gives up a session that the console has rejected, unless another one is held by now. -/
def giveUp (token : String) : Action Unit :=
  locked .session .exclusive do
    if (← touch .session).token? = some token then touch .clear

/-- Whether the console still accepts a session; one that it rejects is given up. -/
def probe (e : Endpoint) (token : String) : Action Bool := do
  match ← (dispatch (probeRequest e) (some token)).run with
  | .error _ => return false
  | .ok response =>
    if response.status = 200 then return true
    if response.rejectsSession then giveUp token
    return false

/-- Whether a session is held and, with `refresh`, whether the console still accepts it. -/
def isLoggedOn (e : Endpoint) (refresh : Bool) : Action Bool := do
  match ← currentToken with
  | none => return false
  | some token => if refresh then probe e token else return true

/-- The topics of the session that is held. -/
def topics : Action Topics := return (← readCell .session .session).topics

end HmcClient.Client
