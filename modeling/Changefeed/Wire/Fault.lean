import Changefeed.Fault
import Changefeed.Json.Codec

/-!
# The words for faults as JSON

Classes, categories and buckets of faults are written as words.
-/

namespace Changefeed

open Json (Decoder)

namespace FaultClass

/-- The classes in order. -/
def all : List FaultClass := [.configuration, .transient, .internalConsistency, .cancelled]

/-- A class as a word. -/
def word : FaultClass → String
  | .configuration => "configuration"
  | .transient => "transient"
  | .internalConsistency => "internal_consistency"
  | .cancelled => "cancelled"

/-- A class. -/
def decode : Decoder FaultClass := fun a d =>
  (Decoder.nameIn (all.map word) a d).bind fun i => all[i]?

instance : Json.ToDoc FaultClass := ⟨fun w => .text w.word⟩
instance : Json.FromDoc FaultClass := ⟨decode⟩

end FaultClass

namespace FaultCategory

/-- The categories in order. -/
def all : List FaultCategory :=
  [.replication, .schema, .configuration, .network, .serialization, .other]

/-- A category as a word. -/
def word : FaultCategory → String
  | .replication => "replication"
  | .schema => "schema"
  | .configuration => "configuration"
  | .network => "network"
  | .serialization => "serialization"
  | .other => "other"

/-- A category. -/
def decode : Decoder FaultCategory := fun a d =>
  (Decoder.nameIn (all.map word) a d).bind fun i => all[i]?

instance : Json.ToDoc FaultCategory := ⟨fun w => .text w.word⟩
instance : Json.FromDoc FaultCategory := ⟨decode⟩

end FaultCategory

namespace RetryBucket

/-- A bucket as a word. -/
def word : RetryBucket → String
  | .connectionLost => "connection_lost"
  | .connectionRefused => "connection_refused"
  | .timeout => "timeout"
  | .temporaryFailure => "temporary_failure"

/-- A bucket. -/
def decode : Decoder RetryBucket := fun a d =>
  (Decoder.nameIn (all.map word) a d).bind fun i => all[i]?

instance : Json.ToDoc RetryBucket := ⟨fun w => .text w.word⟩
instance : Json.FromDoc RetryBucket := ⟨decode⟩

end RetryBucket

end Changefeed
