import HmcClient.Number.Literal
import HmcClient.Text.Blank

/-!
# Metric values

One field of a metrics row. A field in double quotes is a string in which a quote is written twice.
Any other field is what it reads as: a truth value, an integer of 64 bits, a number, or else a
string. Blanks around a field do not count.
-/

namespace HmcClient

/-- The value of a metric. -/
inductive MetricValue where
  | integer (n : Int)
  | double (x : Binary64)
  | boolean (b : Bool)
  | string (s : String)
  deriving DecidableEq, Repr

namespace MetricValue

/-- What stands between a pair of double quotes. -/
def unquote? : List Char → Option (List Char)
  | '"' :: rest => if rest.getLast? = some '"' then some rest.dropLast else none
  | _ => none

/-- The text with every two quotes replaced by one. -/
def undouble : List Char → List Char
  | '"' :: '"' :: rest => '"' :: undouble rest
  | c :: rest => c :: undouble rest
  | [] => []

/-- The value of a field that is not quoted. -/
def ofBare (cs : List Char) : MetricValue :=
  if cs = "true".toList then .boolean true
  else if cs = "false".toList then .boolean false
  else
    match Literal.readInt64 cs with
    | .ok n => .integer n
    | .error _ =>
      match Literal.readNumber? cs with
      | some x => .double x
      | none => .string (String.ofList cs)

/-- The value of a field. -/
def ofField (field : List Char) : MetricValue :=
  let cs := Blank.trim field
  match unquote? cs with
  | some inner => .string (String.ofList (undouble inner))
  | none => ofBare cs

/-- The value as an integer of 64 bits; a double is rounded, halves away from zero. -/
def toInt64? : MetricValue → Option Int
  | integer n => some n
  | double x => some x.toInt64
  | _ => none

/-- The value as a double. -/
def toBinary64? : MetricValue → Option Binary64
  | integer n => some (.ofInt n)
  | double x => some x
  | _ => none

end MetricValue

end HmcClient
