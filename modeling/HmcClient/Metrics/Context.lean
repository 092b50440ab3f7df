import HmcClient.Exchange.Talk
import HmcClient.Metrics.Sample

/-!
# Operations on metrics contexts

A context is created for some groups of metrics, read as often as wanted, and deleted.
-/

namespace HmcClient.MetricsContext

/-- The document that asks for a context. -/
def creationBody (groups : List String) (frequencySeconds : Nat) : Json :=
  .ofEntries [
    ("anticipated-frequency-seconds", .nat frequencySeconds),
    ("metric-groups", .array (groups.map .string))]

/-- Creates a context for groups of metrics. -/
def create (e : Endpoint) (groups : List String) (frequencySeconds : Nat) :
    Operation MetricsContext :=
  Talk.expect (e.postJson "/services/metrics/context" (creationBody groups frequencySeconds))
    (·.document codec [200, 201])

/-- Reads the samples of a context. -/
def samples (e : Endpoint) (uri : String) : Operation (List Sample) :=
  Talk.expect (e.get uri) Sample.ofResponse

/-- Deletes a context. -/
def delete (e : Endpoint) (uri : String) : Operation Unit :=
  Talk.expect (e.delete uri) (·.nothing [204])

end HmcClient.MetricsContext
