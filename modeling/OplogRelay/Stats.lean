import OplogRelay.Value
/-!
Counters that describe a run, and the documents they are reported as.
-/
namespace OplogRelay

/-- A run ends stopped, when it was asked to stop or its source ran dry, or fatal. -/
inductive Lifecycle where
  | initializing
  | streaming
  | stopped
  | fatal
  deriving DecidableEq, Repr, Inhabited

def Lifecycle.name : Lifecycle → String
  | initializing => "initializing"
  | streaming => "streaming"
  | stopped => "stopped"
  | fatal => "fatal"

structure ForwarderStats where
  finished : Bool
  forwarded : Nat
  skipped : Nat
  error : Option String
  deriving DecidableEq, Repr, Inhabited

def ForwarderStats.document (s : ForwarderStats) : Document := [
  ("finished", .bool s.finished),
  ("forwarded_count", .nat s.forwarded),
  ("skipped_noops", .nat s.skipped),
  ("error", .ofText? s.error)]

/-- The forwarder has counters once it exists. -/
structure Stats where
  lifecycle : Lifecycle
  received : Nat
  batchesApplied : Nat
  appliedTotal : Nat
  lastApplied : Option Timestamp
  forwarder : Option ForwarderStats
  deriving DecidableEq, Repr, Inhabited

def secondsValue : Option Timestamp → Value
  | some t => .nat t.seconds
  | none => .null

def Stats.document (s : Stats) : Document := [
  ("state", .text s.lifecycle.name),
  ("received_count", .nat s.received),
  ("batches_applied", .nat s.batchesApplied),
  ("applied_total", .nat s.appliedTotal),
  ("last_applied", secondsValue s.lastApplied),
  ("producer", .document ((s.forwarder.map ForwarderStats.document).getD []))]

end OplogRelay
