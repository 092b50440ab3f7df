import HmcClient.Metrics.Context
import HmcClient.Resource.Partition

/-!
# Use of energy

What a partition has drawn in the past, which the console keeps, and what it draws now, which is
read through a metrics context that lives no longer than the reading. The context is deleted
whether the reading succeeds or not, and a failure to delete it is not reported.
-/

namespace HmcClient

/-! ## The past -/

/-- Which part of the past is wanted, and how fine. -/
structure EnergyQuery where
  range : String
  resolution : String
  deriving DecidableEq, Repr

/-- The last day by quarters of an hour. -/
def EnergyQuery.default : EnergyQuery := ⟨"last-day", "fifteen-minutes"⟩

/-- The document that asks for the past. -/
def EnergyQuery.body (q : EnergyQuery) : Json :=
  .ofEntries [("range", .string q.range), ("resolution", .string q.resolution)]

/-- The power drawn at a moment. -/
structure WattageSample where
  watts : Binary64
  /-- Milliseconds since the epoch. -/
  timestamp : Int
  deriving DecidableEq, Repr

/-- How a moment's power is read and written. -/
def WattageSample.codec : Codec WattageSample :=
  ((Record.make WattageSample WattageSample.mk).required "data" .float (·.watts)).required
    "timestamp" .int64 (·.timestamp) |>.codec

/-- What is told of the past. -/
structure EnergyHistory where
  wattage : List WattageSample
  deriving DecidableEq, Repr

/-- How the past is read and written. -/
def EnergyHistory.codec : Codec EnergyHistory :=
  (Record.make EnergyHistory EnergyHistory.mk).defaulted
    "wattage" (.list WattageSample.codec) [] (·.wattage) |>.codec

namespace Partition

/-- What a partition has drawn. -/
def energy (e : Endpoint) (uri : String) (query : EnergyQuery) :
    Operation (List WattageSample) := do
  let history ← Talk.expect
    (e.postJson (operationUri uri "get-historical-sustainability-data") query.body)
    (·.document EnergyHistory.codec [200])
  return history.wattage

/-! ## The present -/

/-- The group of metrics about the use of partitions. -/
def usageGroup : String := "logical-partition-usage"

/-- The metric of the power drawn. -/
def powerMetric : String := "power-consumption-watts"

/-- How often the power is going to be read, in seconds. -/
def readingFrequency : Nat := 15

/-- The first number at a position in the samples of a partition. -/
def reading? (samples : List Sample) (uri : String) (index : Nat) : Option Binary64 :=
  (samples.filter fun s => s.group == usageGroup && s.objectUri == uri).findSome? fun s =>
    (s.value? index).bind MetricValue.toBinary64?

/-- Reads the power through a context. -/
def readPower (e : Endpoint) (context : MetricsContext) (uri : String) : Operation Binary64 := do
  match context.metricIndex? usageGroup powerMetric with
  | none => throw (.ofCause (.noPowerMetric powerMetric))
  | some index =>
    match reading? (← MetricsContext.samples e context.uri) uri index with
    | some watts => return watts
    | none => throw (.ofCause (.noPowerReading powerMetric uri))

/-- What a partition draws now, in watts. -/
def liveEnergy (e : Endpoint) (uri : String) : Operation Binary64 := do
  let context ← MetricsContext.create e [usageGroup] readingFrequency
  let reading ← ExceptT.lift (readPower e context uri).run
  let _ ← ExceptT.lift (MetricsContext.delete e context.uri).run
  ExceptT.mk (pure reading)

end Partition

end HmcClient
