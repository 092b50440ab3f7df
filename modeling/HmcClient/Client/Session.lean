import HmcClient.Exchange.Reading

/-!
# Sessions

A logon is answered with a session: a token that goes with every later request, and two topics under
which notifications are announced. The client holds at most one session. The empty token means that
there is none, and then the topics are empty too.
-/

namespace HmcClient

/-- What the console answers to a logon. -/
structure LogonData where
  sessionId : String
  notifTopic : String
  jobNotifTopic : String
  apiMajorVersion : Option Nat
  apiMinorVersion : Option Nat
  /-- Days until the password expires. -/
  passwordExpires : Option Int
  deriving DecidableEq, Repr

/-- How the answer to a logon is read and written. -/
def LogonData.codec : Codec LogonData :=
  ((((((Record.make LogonData LogonData.mk).required "api-session" .text (·.sessionId)).defaulted
    "notif-topic" .text "" (·.notifTopic)).defaulted
    "job-notif-topic" .text "" (·.jobNotifTopic)).optional
    "api-major-version" .nat32 (·.apiMajorVersion)).optional
    "api-minor-version" .nat32 (·.apiMinorVersion)).optional
    "password-expires" .int64 (·.passwordExpires) |>.codec

/-- Where notifications are announced. -/
structure Topics where
  objectTopic : String
  jobTopic : String
  deriving DecidableEq, Repr

/-- The session that the client holds. -/
structure Session where
  token : String
  topics : Topics
  deriving DecidableEq, Repr

namespace Session

/-- No session. -/
def none : Session := ⟨"", ⟨"", ""⟩⟩

/-- The session that a logon opened. -/
def ofLogon (d : LogonData) : Session := ⟨d.sessionId, ⟨d.notifTopic, d.jobNotifTopic⟩⟩

/-- The token, if there is a session. -/
def token? (s : Session) : Option String := if s.token.isEmpty then .none else some s.token

/-- Whether there is a session. -/
def isAuthenticated (s : Session) : Bool := !s.token.isEmpty

end Session

namespace Logon

/-- Where sessions are opened. -/
def sessionsUri : String := "/sessions"

/-- The session that a request itself belongs to. -/
def thisSessionUri : String := "/sessions/this-session"

/-- The document that asks for a session, and for a new password if there is one. -/
def body (username password : String) (newPassword : Option String) : Json :=
  .ofEntries <| [("userid", .string username), ("password", .string password)] ++
    Json.memberOf "new-password" .string newPassword

/-- The session that an answer opens; one without an id is no session. -/
def opened (r : Response) : Result LogonData := do
  let data ← r.document LogonData.codec [200, 201]
  if data.sessionId.isEmpty then throw (r.fault .noSessionId)
  return data

end Logon

end HmcClient
