import HmcClient.Client.Execution
import HmcClient.Client.Settings
import HmcClient.Client.World

/-!
# Calls

Everything that can be asked of one client, as one type, with one type for what comes back. Calls
of different kinds can then run in one world.
-/

namespace HmcClient.Client

/-- A call on the client. -/
inductive Call where
  | logon
  | logoff
  | logonConsole
  | logoffConsole (sessionId : String)
  | changePassword (newPassword : String)
  | isLoggedOn (refresh : Bool)
  | execute (r : Request)
  | setSkipCertVerify (skip : Bool)
  | traceOn (writer : Writer)
  | traceOff
  | topics
  | statistics
  deriving BEq, Repr

/-- What comes back from a call. -/
inductive Outcome where
  | done (result : Result Unit)
  | opened (result : Result LogonData)
  | answered (result : Result Response)
  | told (answer : Bool)
  | topics (t : Topics)
  | statistics (s : Statistics)

namespace Call

/-- The operation that a call starts. -/
def operation (e : Endpoint) : Call → Action Outcome
  | logon => .done <$> (Client.logon e).run
  | logoff => .done <$> (Client.logoff e).run
  | logonConsole => .opened <$> (Client.logonConsole e).run
  | logoffConsole sessionId => .done <$> (Client.logoffConsole e sessionId).run
  | changePassword newPassword => .done <$> (Client.changePassword e newPassword).run
  | isLoggedOn refresh => .told <$> Client.isLoggedOn e refresh
  | execute r => .answered <$> (Client.execute e r).run
  | setSkipCertVerify skip => .done <$> (Client.setSkipCertVerify skip).run
  | traceOn writer => (fun _ => .done (.ok ())) <$> Client.traceOn writer
  | traceOff => (fun _ => .done (.ok ())) <$> Client.traceOff
  | topics => .topics <$> Client.topics
  | statistics => .statistics <$> Client.statistics

end Call

/-- A world in which calls on one client start. -/
def World.ofCalls (e : Endpoint) (shared : Shared) (calls : List Call) : World Outcome :=
  .start shared (calls.map (·.operation e))

end HmcClient.Client
