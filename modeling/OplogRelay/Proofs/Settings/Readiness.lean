import OplogRelay.Proofs.Number.Magnitudes
import OplogRelay.Proofs.Settings.Validation
import OplogRelay.Run.Blueprint
/-!
From accepted settings to a run. A run is made of settings in steps, each with checks of its own: seeds are
read, a batch and a timer are made, the namespace is read once more and the first timestamp of the window is
computed. The check of the settings foresees all of these.
-/
namespace OplogRelay

namespace Blueprint

variable {b : Blueprint} {s : Settings}

/-- A blueprint that settings make: their values, and numbers that a plan can be made of. -/
structure Follows (b : Blueprint) (s : Settings) : Prop where
  destination : ClientProvider.make? s.destination .primary none = .ok b.destination
  source : ClientProvider.make? s.sourceConnection .nearest none = .ok b.source
  ns : s.source.oplog = .value b.ns
  lookback : s.source.lookback = .value b.lookback
  idle : s.source.idleWait = .value b.idle
  maxBatch : s.batch.maxSize = .value b.maxBatch
  interval : s.batch.flushInterval = .value b.interval
  room : 1 ≤ b.maxBatch
  timer : b.interval.isNonpositive = false

end Blueprint

namespace Settings

variable {s : Settings} {b : Blueprint} {ns : Namespace}

def misnamed : Settings := { source := { host := .value "src", oplog := .value "local" } }

end Settings

end OplogRelay
