import Changefeed.Json.Codec
import Changefeed.Metrics

/-!
# Counters as JSON

Counters are a record with a field for each of them.
-/

namespace Changefeed

open Json (Doc)

/-- All counters but some as a record. -/
def Metrics.toDocWithout (hidden : List String) (m : Metrics) : Doc :=
  .record ((m.entries.filter fun (name, _) => !hidden.contains name).map fun (name, n) =>
    (name, .of n))

/-- All counters as a record. -/
def Metrics.toDoc (m : Metrics) : Doc := m.toDocWithout []

instance : Json.ToDoc Metrics := ⟨Metrics.toDoc⟩

end Changefeed
