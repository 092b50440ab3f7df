import HmcClient.Exchange.Reading
import HmcClient.Metrics.Row

/-!
# Metrics texts

The console reports metrics as lines of text. A group is its name, the blocks of its objects and an
empty line. A block is the object's URI, a timestamp, the rows of values and an empty line. The
reader `Sample.readFrom` walks over the lines and is always at one of four places, told by `Place`;
the end of the text may come anywhere except where a timestamp is due.

Lines end at line feeds, and carriage returns at the end of a line do not belong to it. Names and
URIs may stand in double quotes.
-/

namespace HmcClient

/-- The values reported for one object. -/
structure Sample where
  group : String
  objectUri : String
  /-- Milliseconds since the epoch. -/
  timestamp : Int
  rows : List (List MetricValue)
  deriving DecidableEq, Repr

namespace Sample

/-- A value of the first row. -/
def value? (s : Sample) (index : Nat) : Option MetricValue := s.rows.head?.bind (·[index]?)

/-! ## Lines -/

/-- The lines of a text: what precedes each line feed, and what follows the last one if anything
does. -/
def splitLines : List Char → List (List Char)
  | [] => []
  | c :: rest =>
    if c = '\n' then [] :: splitLines rest
    else
      match splitLines rest with
      | [] => [[c]]
      | line :: lines => (c :: line) :: lines

/-- The lines of a text without the carriage returns at their ends. -/
def lines (text : List Char) : List (List Char) :=
  (splitLines text).map (Blank.dropEndWhile (· == '\r'))

/-- A name or URI without the quotes around it. -/
def unquote (line : List Char) : String :=
  let cs := Blank.trim line
  String.ofList ((MetricValue.unquote? cs).getD cs)

/-! ## The reader -/

/-- Where the reader is, and what it has read of the current group. -/
inductive Place where
  /-- Before the name of a group. -/
  | group
  /-- In a group, before the URI of an object or the end of the group. -/
  | object (group : String)
  /-- Before the timestamp of an object. -/
  | timestamp (group objectUri : String)
  /-- Among the rows of an object. -/
  | rows (sample : Sample)

/-- Reads lines from a place on. The first argument counts the lines read before. -/
def readFrom : Nat → Place → List (List Char) → Result (List Sample)
  | _, .group, [] => .ok []
  | _, .object _, [] => .ok []
  | _, .timestamp .., [] => .error (.ofCause .metricsCutOff)
  | _, .rows sample, [] => .ok [sample]
  | n, .group, line :: rest =>
    if line.isEmpty then readFrom (n + 1) .group rest
    else readFrom (n + 1) (.object (unquote line)) rest
  | n, .object group, line :: rest =>
    if line.isEmpty then readFrom (n + 1) .group rest
    else readFrom (n + 1) (.timestamp group (unquote line)) rest
  | n, .timestamp group objectUri, line :: rest =>
    match Literal.readInt64 (Blank.trim line) with
    | .ok t => readFrom (n + 1) (.rows ⟨group, objectUri, t, []⟩) rest
    | .error _ => .error (.ofCause (.metricsTimestamp (n + 1) (String.ofList line)))
  | n, .rows sample, line :: rest =>
    if line.isEmpty then
      (readFrom (n + 1) (.object sample.group) rest).map fun samples => sample :: samples
    else readFrom (n + 1) (.rows { sample with rows := sample.rows ++ [Row.values line] }) rest

/-- Reads a metrics text. -/
def readText (text : List Char) : Result (List Sample) := readFrom 0 .group (lines text)

/-- The samples in the body of an answer. -/
def ofResponse (r : Response) : Result (List Sample) :=
  if r.status = 200 ∨ r.status = 206 then readText (Utf8.decodeCharsLossy r.body)
  else .error r.unexpected

end Sample

/-! ## Contexts -/

/-- A metric of a group. -/
structure MetricInfo where
  metricName : String
  metricType : String
  deriving DecidableEq, Repr

/-- How the description of a metric is read and written. -/
def MetricInfo.codec : Codec MetricInfo :=
  ((Record.make MetricInfo MetricInfo.mk).required "metric-name" .text (·.metricName)).required
    "metric-type" .text (·.metricType) |>.codec

/-- A group of metrics and the order of its columns. -/
structure MetricGroupInfo where
  groupName : String
  metricInfos : List MetricInfo
  deriving DecidableEq, Repr

/-- How the description of a group is read and written. -/
def MetricGroupInfo.codec : Codec MetricGroupInfo :=
  ((Record.make MetricGroupInfo MetricGroupInfo.mk).required
    "group-name" .text (·.groupName)).defaulted
    "metric-infos" (.list MetricInfo.codec) [] (·.metricInfos) |>.codec

/-- A subscription to groups of metrics. -/
structure MetricsContext where
  uri : String
  groups : List MetricGroupInfo
  deriving DecidableEq, Repr

/-- How a context is read and written. -/
def MetricsContext.codec : Codec MetricsContext :=
  ((Record.make MetricsContext MetricsContext.mk).required
    "metrics-context-uri" .text (·.uri)).defaulted
    "metric-group-infos" (.list MetricGroupInfo.codec) [] (·.groups) |>.codec

/-- The column of a metric in the rows of a group. Of several groups with one name the first
counts. -/
def MetricsContext.metricIndex? (c : MetricsContext) (group metric : String) : Option Nat := do
  let info ← c.groups.find? (·.groupName == group)
  info.metricInfos.findIdx? (·.metricName == metric)

end HmcClient
