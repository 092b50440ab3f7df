import HmcClient.Json.Document

/-!
# Typed documents

How a type is read from a document and written as a value. A `Codec` does both, so that reading and
writing of a type are stated in one place and can be compared.

A `Record` describes a type with named fields. It is built up field by field from the constructor
of the type: each field adds its name, how it is read, and how it is written. Three rules concern
what may be missing. A required field must be there. A defaulted field may be missing, and then has
its default. An optional field may be missing or null, and both mean none.

A record is read from an object or, unless it keeps unknown members, from an array that gives the
fields in their order and may end early if the fields left out may be missing. In an object a
declared name may occur once. Members of other names are ignored without being looked at, or kept
if the record has a place for them; then they must have a value.
-/

namespace HmcClient

/-- How a type is read and written. `decode` is given how deep arrays and objects may still nest. -/
structure Codec (α : Type) where
  decode : Nat → Document → Option α
  encode : α → Json

namespace Codec

/-- The type's reading of a document that stands alone. -/
def read? {α : Type} (c : Codec α) (d : Document) : Option α := c.decode Document.maxDepth d

/-- The type's reading of a value. -/
def ofValue? {α : Type} (c : Codec α) (v : Json) : Option α := c.read? (.ofValue v)

/-- Any value. -/
def value : Codec Json where
  decode depth d := d.value? depth
  encode v := v

/-- A string. -/
def text : Codec String where
  decode
    | _, .string s => s
    | _, _ => none
  encode := .string

/-- A truth value. -/
def bool : Codec Bool where
  decode
    | _, .bool b => some b
    | _, _ => none
  encode := .bool

/-- An integer of a range; numbers written with a fraction or an exponent are none. -/
def integer (low high : Int) : Codec Int where
  decode
    | _, .number (some (.integer n)) => if low ≤ n ∧ n ≤ high then some n else none
    | _, _ => none
  encode := .int

/-- A natural number of at most `high`. -/
def nat (high : Nat) : Codec Nat where
  decode depth d := ((integer 0 high).decode depth d).map Int.toNat
  encode := .nat

/-- An HTTP status and other 16-bit numbers. -/
def nat16 : Codec Nat := nat Width.maxNat16

/-- A 32-bit number. -/
def nat32 : Codec Nat := nat Width.maxNat32

/-- A 64-bit number. -/
def nat64 : Codec Nat := nat Width.maxNat64

/-- A signed 64-bit number. -/
def int64 : Codec Int := integer Width.minInt64 Width.maxInt64

/-- A double, from any number. -/
def float : Codec Binary64 where
  decode
    | _, .number n => n.map Number.toBinary64
    | _, _ => none
  encode := .ofBinary64

/-- A list. -/
def list {α : Type} (c : Codec α) : Codec (List α) where
  decode
    | depth, .array items => if depth = 0 then none else items.mapM (c.decode (depth - 1))
    | _, _ => none
  encode items := .array (items.map c.encode)

/-- Null for none. -/
def option {α : Type} (c : Codec α) : Codec (Option α) where
  decode
    | _, .null => some none
    | depth, d => (c.decode depth d).map some
  encode := .ofOption c.encode

end Codec

/-! ## Records -/

/-- What a document gives for a record. -/
structure Given where
  /-- How deep the values of fields may nest. -/
  depth : Nat
  /-- What is given for a declared name. -/
  field : String → Option Document
  /-- The members of other names. -/
  extra : Members

/-- A reading and a writing of fields: `α` is what has been read so far, `R` the type written. -/
structure Record (R α : Type) where
  names : List String
  read : Given → Option α
  write : R → List (String × Json)

namespace Record

variable {R α β : Type}

/-- The record with no fields yet; `mk` is to be applied to them. -/
def make (R : Type) (mk : α) : Record R α := ⟨[], fun _ => some mk, fun _ => []⟩

/-- Adds a field: how it is read, and how it is written. -/
def add (r : Record R (β → α)) (name : String) (readField : Given → Option β)
    (writeField : R → List (String × Json)) : Record R α where
  names := r.names ++ [name]
  read given := do
    let f ← r.read given
    return f (← readField given)
  write value := r.write value ++ writeField value

/-- Adds a field that must be there. -/
def required (r : Record R (β → α)) (name : String) (c : Codec β) (get : R → β) : Record R α :=
  r.add name
    (fun given => do c.decode given.depth (← given.field name))
    (fun value => [(name, c.encode (get value))])

/-- Adds a field that has `default` if it is missing. -/
def defaulted (r : Record R (β → α)) (name : String) (c : Codec β) (default : β) (get : R → β) :
    Record R α :=
  r.add name
    (fun given => match given.field name with
      | none => some default
      | some d => c.decode given.depth d)
    (fun value => [(name, c.encode (get value))])

/-- How an optional field is read. -/
def readOptional (name : String) (c : Codec β) (given : Given) : Option (Option β) :=
  match given.field name with
  | none => some none
  | some d => c.option.decode given.depth d

/-- Adds an optional field, written as null if it is none. -/
def optional (r : Record R (Option β → α)) (name : String) (c : Codec β) (get : R → Option β) :
    Record R α :=
  r.add name (readOptional name c) (fun value => [(name, c.option.encode (get value))])

/-- Adds an optional field that is not written if it is none. -/
def elided (r : Record R (Option β → α)) (name : String) (c : Codec β) (get : R → Option β) :
    Record R α :=
  r.add name (readOptional name c)
    (fun value => match get value with
      | none => []
      | some b => [(name, c.encode b)])

/-- Adds the place for members of other names. -/
def others (r : Record R (Members → α)) (get : R → Members) : Record R α where
  names := r.names
  read given := do
    let f ← r.read given
    return f given.extra
  write value := r.write value ++ get value

/-! ### Reading -/

/-- The members with a declared name; `none` if a name is no text or a declared name occurs
twice. -/
def declared? (names : List String) :
    List (Option String × Document) → Option (List (String × Document))
  | [] => some []
  | (name, d) :: rest => do
    let name ← name
    let found ← declared? names rest
    if names.contains name then
      if (found.lookup name).isSome then none else some ((name, d) :: found)
    else some found

/-- What an object gives: its declared members, and no others. -/
def ofObject? (names : List String) (depth : Nat) (members : List (Option String × Document)) :
    Option Given := do
  let found ← declared? names members
  return ⟨depth, fun name => found.lookup name, []⟩

/-- What an object gives if its other members are kept. -/
def ofObjectKeeping? (names : List String) (depth : Nat)
    (members : List (Option String × Document)) : Option Given := do
  let given ← ofObject? names depth members
  let extra := members.filter fun (name, _) => name.all fun name => !names.contains name
  return { given with extra := Members.ofList (← Document.memberValues? depth extra) }

/-- What an array gives: its items for the declared names in order, and not more items than
names. -/
def ofArray? (names : List String) (depth : Nat) (items : List Document) : Option Given :=
  if names.length < items.length then none
  else some ⟨depth, fun name => (names.zip items).lookup name, []⟩

/-- The codec of a record that ignores members of other names. -/
def codec (r : Record R R) : Codec R where
  decode
    | 0, _ => none
    | depth + 1, .object members => do r.read (← ofObject? r.names depth members)
    | depth + 1, .array items => do r.read (← ofArray? r.names depth items)
    | _, _ => none
  encode value := .ofEntries (r.write value)

/-- The codec of a record that keeps members of other names. -/
def codecKeeping (r : Record R R) : Codec R where
  decode
    | 0, _ => none
    | depth + 1, .object members => do r.read (← ofObjectKeeping? r.names depth members)
    | _, _ => none
  encode value := .ofEntries (r.write value)

end Record

end HmcClient
