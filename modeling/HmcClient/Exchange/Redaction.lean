import HmcClient.Json.Basic

/-!
# Redaction

Credentials are hidden before a document is shown. Wherever a member has one of the secret names, at
any depth, its value is replaced by a mark; everything else stays as it is.
-/

namespace HmcClient.Redaction

/-- Shown in place of a secret. -/
def mark : String := "********"

/-- The names of members that hold secrets. -/
def secretNames : List String := ["password", "new-password", "api-session"]

/-- Whether a member with this name holds a secret. -/
def isSecret (name : String) : Bool := secretNames.contains name

mutual

/-- The value with its secrets hidden. -/
def redact : Json → Json
  | .array items => .array (redactItems items)
  | .object members => .object (redactMembers members)
  | v => v

/-- The items of an array with their secrets hidden. -/
def redactItems : List Json → List Json
  | [] => []
  | v :: rest => redact v :: redactItems rest

/-- The members of an object with their secrets hidden. -/
def redactMembers : List (String × Json) → List (String × Json)
  | [] => []
  | (name, v) :: rest =>
    (name, if isSecret name then .string mark else redact v) :: redactMembers rest

end

end HmcClient.Redaction
