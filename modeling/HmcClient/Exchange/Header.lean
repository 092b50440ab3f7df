import HmcClient.Exchange.Message

/-!
# Headers

A list of header fields. Names are in lower case, values are bytes. A field that repeats a name
belongs to the first field of that name, so iteration visits repeated names together
(`Headers.grouped`).

A value can be sent if it has no control characters other than the tab. It is shown as text only
if, beyond that, it is ASCII.
-/

namespace HmcClient

/-- A header field. -/
structure Header where
  name : String
  value : List UInt8
  deriving DecidableEq, Repr

/-- Header fields in the order in which they were added. -/
abbrev Headers := List Header

namespace Header

/-- The header that carries the session. -/
def sessionName : String := "x-api-session"

/-- A field with a text as its value. -/
def ofText (name value : String) : Header :=
  ⟨String.ofList (name.toList.map Literal.lowerAscii), Utf8.encode value⟩

/-- Whether a byte may stand in a value. -/
def isSendable (b : UInt8) : Bool := (0x20 ≤ b && b ≠ 0x7F) || b = 0x09

/-- Whether a byte of a value is shown. -/
def isShown (b : UInt8) : Bool := (0x20 ≤ b && b < 0x7F) || b = 0x09

/-- The value as text, if all of it can be shown. -/
def text? (h : Header) : Option String :=
  if h.value.all isShown then
    some (String.ofList (h.value.map fun b => Char.ofNat b.toNat))
  else none

/-- A field whose value can be sent; otherwise a failure that says what could not. -/
def sendable (what name value : String) : Result Header :=
  let h := ofText name value
  if h.value.all isSendable then .ok h else .error (.ofCause (.invalidHeader what))

end Header

namespace Headers

/-- The names in the order of their first fields. -/
def names (hs : Headers) : List String := (hs.map (·.name)).eraseDups

/-- The fields with repeated names together, at the place of the first. -/
def grouped (hs : Headers) : Headers :=
  hs.names.flatMap fun name => hs.filter (·.name == name)

/-- The fields of a request, with the session it belongs to. -/
def ofRequest (userAgent : String) (r : Request) (token : Option String) : Result Headers := do
  let agent := Header.ofText "user-agent" userAgent
  let contentType ← Header.sendable "content-type" "content-type" r.effectiveContentType
  match token with
  | none => return [agent, contentType]
  | some token => return [agent, contentType, ← Header.sendable "session" Header.sessionName token]

end Headers

end HmcClient
