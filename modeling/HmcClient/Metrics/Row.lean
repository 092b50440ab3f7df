import HmcClient.Metrics.Value

/-!
# Rows of values

A row is split at the commas that stand outside double quotes. Whether a comma does is a matter of
parity: it separates exactly if an even number of quotes precedes it in its field. The quotes stay
with their field, so joining the fields with commas gives the row back.
-/

namespace HmcClient.Row

/-- Splits a row. `quoted` tells whether an odd number of quotes precedes in the current field. -/
def splitFrom : Bool → List Char → List (List Char)
  | _, [] => [[]]
  | quoted, c :: rest =>
    if c = ',' ∧ !quoted then [] :: splitFrom false rest
    else
      match splitFrom (if c = '"' then !quoted else quoted) rest with
      | [] => [[c]]
      | field :: fields => (c :: field) :: fields

/-- The fields of a row. -/
def split (row : List Char) : List (List Char) := splitFrom false row

/-- The values of a row. -/
def values (row : List Char) : List MetricValue := (split row).map MetricValue.ofField

end HmcClient.Row
