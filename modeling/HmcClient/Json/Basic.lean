import HmcClient.Number.Binary64

/-!
# JSON values

The value a document stands for. An integer that fits 64 bits stays an integer; every other number
is a double. The members of an object are kept in ascending order of their names, each name once:
`Members.insert` is the only way members are added, and a later member replaces an earlier one of
the same name.
-/

namespace HmcClient

/-- The number a document gives. -/
inductive Number where
  | integer (n : Int)
  | float (x : Binary64)
  deriving DecidableEq, Repr

/-- The double nearest to a number. -/
def Number.toBinary64 : Number → Binary64
  | integer n => .ofInt n
  | float x => x

/-- The value of a document. -/
inductive Json where
  | null
  | bool (value : Bool)
  | number (value : Number)
  | string (value : String)
  | array (items : List Json)
  | object (members : List (String × Json))
  deriving BEq, Repr

instance : Inhabited Json := ⟨.null⟩

/-- The members of an object, in ascending order of their names. -/
abbrev Members := List (String × Json)

namespace Members

/-- Adds a member, replacing the one of the same name. -/
def insert (name : String) (value : Json) : Members → Members
  | [] => [(name, value)]
  | (n, v) :: rest =>
    if name < n then (name, value) :: (n, v) :: rest
    else if name = n then (name, value) :: rest
    else (n, v) :: insert name value rest

/-- The members given by a list in which the last of several values for a name counts. -/
def ofList (entries : List (String × Json)) : Members :=
  entries.foldl (fun members (name, value) => members.insert name value) []

/-- The value of a member. -/
def get? (members : Members) (name : String) : Option Json := List.lookup name members

/-- The members without one. -/
def erase (members : Members) (name : String) : Members :=
  members.filter fun (n, _) => n != name

end Members

namespace Json

/-- The object with the given members, the last value for a name counting. -/
def ofEntries (entries : List (String × Json)) : Json := .object (Members.ofList entries)

/-- An integer value. -/
def int (n : Int) : Json := .number (.integer n)

/-- A natural number as a value. -/
def nat (n : Nat) : Json := .number (.integer n)

/-- The value if there is one, else null. -/
def ofOption {α : Type} (f : α → Json) : Option α → Json
  | none => .null
  | some a => f a

/-- A double as a value; what is not finite has no number and becomes null. -/
def ofBinary64 (x : Binary64) : Json :=
  if x.isFinite then .number (.float x) else .null

/-- The member that says a value, or no member if there is no value. -/
def memberOf {α : Type} (name : String) (f : α → Json) : Option α → List (String × Json)
  | none => []
  | some a => [(name, f a)]

/-- An object with the given values. There is none if a key has no name. -/
def ofKeys? {κ : Type} (name? : κ → Option String) (entries : List (κ × Json)) : Option Json :=
  (entries.mapM fun entry => (name? entry.1).map fun name => (name, entry.2)).map ofEntries

/-- The text of a string value. -/
def text? : Json → Option String
  | .string s => some s
  | _ => none

/-- A member of an object value. -/
def get? (v : Json) (name : String) : Option Json :=
  match v with
  | .object members => Members.get? members name
  | _ => none

end Json

end HmcClient
