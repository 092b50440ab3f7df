import HmcClient.Json.Basic

/-!
# JSON documents

What a JSON text says, before anyone asks what it stands for. The tree keeps members in the order
in which they are written, repeated names included, and has a place for the leaves that are well
formed but stand for nothing: a number beyond the doubles, a string with half a surrogate pair or
with bytes that are no text.

Two readings of the same tree differ in what they look at. The value (`Document.value?`) needs
every leaf and allows a limited nesting. A record looks only at the members that it declares, so a
value that it ignores may hold anything well formed, to any depth.
-/

namespace HmcClient

/-- What a JSON text says. -/
inductive Document where
  | null
  | bool (value : Bool)
  /-- A number; `none` if it is beyond the doubles. -/
  | number (value : Option Number)
  /-- A string; `none` if its escapes or bytes stand for no text. -/
  | string (text : Option String)
  | array (items : List Document)
  | object (members : List (Option String × Document))
  deriving Repr

namespace Document

instance : Inhabited Document := ⟨.null⟩

/-- The deepest nesting of arrays and objects that is read. -/
def maxDepth : Nat := 127

mutual

/-- The value of a document whose arrays and objects are nested at most `depth` deep. -/
def value? (depth : Nat) : Document → Option Json
  | null => some .null
  | bool b => some (.bool b)
  | number n => n.map .number
  | string s => s.map .string
  | array items =>
    if depth = 0 then none else (values? (depth - 1) items).map .array
  | object members =>
    if depth = 0 then none
    else (memberValues? (depth - 1) members).map fun entries => .ofEntries entries

/-- The values of the items of an array. -/
def values? (depth : Nat) : List Document → Option (List Json)
  | [] => some []
  | d :: rest => do
    let v ← value? depth d
    return v :: (← values? depth rest)

/-- The names and values of the members of an object. -/
def memberValues? (depth : Nat) : List (Option String × Document) → Option (List (String × Json))
  | [] => some []
  | (name, d) :: rest => do
    let name ← name
    let v ← value? depth d
    return (name, v) :: (← memberValues? depth rest)

end

mutual

/-- A document that says a value. -/
def ofValue : Json → Document
  | .null => null
  | .bool b => bool b
  | .number n => number (some n)
  | .string s => string (some s)
  | .array items => array (ofValues items)
  | .object members => object (ofMembers members)

/-- Documents that say the items of an array. -/
def ofValues : List Json → List Document
  | [] => []
  | v :: rest => ofValue v :: ofValues rest

/-- Documents that say the members of an object. -/
def ofMembers : List (String × Json) → List (Option String × Document)
  | [] => []
  | (name, v) :: rest => (some name, ofValue v) :: ofMembers rest

end

end Document

end HmcClient
