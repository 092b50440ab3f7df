import HmcClient.Client.Steps
import HmcClient.Exchange.Endpoint

/-!
# Making and changing a client

A client is made for an endpoint, with options; nothing is sent for that. What can be changed while
a client is in use: whether certificates are checked, and where the trace goes. The check is worked
out before anything is changed, so a change that fails changes nothing. The options stay locked
over the whole change, so nobody sees new options with an old check.
-/

namespace HmcClient.Client

/-- A new client: the endpoint it is for, and its cells. -/
def new (idna : Idna) (usable : AnchorTest) (files : Files) (endpoint : String) (o : Options) :
    Result (Endpoint × Shared) := do
  let e ← Endpoint.parse idna endpoint
  return (e, ← Shared.new usable files o)

/-- Turns the check of certificates off or on. -/
def setSkipCertVerify (skip : Bool) : Task Unit :=
  ExceptT.mk <| locked .options .exclusive do
    let updated := { ← touch .options with skipCertVerify := skip }
    match ← touch (.verify updated) with
    | .error failure => return .error failure
    | .ok verification =>
      locked .connection .exclusive (touch (.setVerification verification))
      touch (.setOptions updated)
      return .ok ()

/-- Sends the trace to a writer. -/
def traceOn (writer : Writer) : Action Unit := touch (.redirectTrace (some writer))

/-- Ends the trace. -/
def traceOff : Action Unit := touch (.redirectTrace none)

/-- What has been counted. -/
def statistics : Action Statistics := readCell .statistics .statistics

end HmcClient.Client
