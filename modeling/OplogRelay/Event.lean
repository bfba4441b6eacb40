import OplogRelay.Failure
import OplogRelay.Record
import OplogRelay.Stats
/-!
What happens in a run, one event at a time, and the log records that tell of it. The journal of
events is the history that statements about whole runs speak of.
-/
namespace OplogRelay

inductive Trigger where
  | size
  | timer
  | shutdown
  | endOfStream
  deriving DecidableEq, Repr, Inhabited

def Trigger.name : Trigger → String
  | size => "size"
  | timer => "timer"
  | shutdown => "shutdown"
  | endOfStream => "end of stream"

/-- What a run opens, and gives back at its end. -/
inductive Resource where
  | session (side : Side)
  | cursor
  deriving DecidableEq, Repr

def Resource.name : Resource → String
  | session side => side.name ++ " session"
  | cursor => "oplog cursor"

inductive Event where
  | appended (count : Nat)
  | namespaceAccepted (ns : Namespace)
  | requested (resource : Resource)
  | connected (side : Side) (server : String)
  | tailing (ns : Namespace) (threshold : Timestamp) (idle : Quantity)
  | obtained (resource : Resource)
  | streaming
  | skipped (entry : Entry)
  | forwarded (entry : Entry) (count : Nat)
  | idled (ns : Namespace) (idle : Quantity)
  | readFailed (e : StreamError)
  | readDone (count : Nat)
  | received (entry : Entry)
  | shutdownSeen
  | sourceExhausted
  | tickWithoutBatch
  | flushed (trigger : Trigger) (batch : List Entry)
  | applied (count total : Nat) (last : Timestamp)
  | rejected (count : Nat) (reason : Value)
  | stopped (stats : Stats)
  | failed (e : Failure)
  | forwarderEnded
  | released (resource : Resource)
  | releaseFailed (resource : Resource) (f : Fault)
  deriving Repr

namespace Event

private def plain (c : Component) (l : Level) (message : String) : List Record :=
  [⟨c, l, message, []⟩]

/-- The records that tell of an event; most events have one, some have none. -/
def records : Event → List Record
  | appended count =>
    [⟨.oplog, .debug, "documents appended to in-memory oplog", [("count", .nat count)]⟩]
  | namespaceAccepted ns => plain .coordinator .debug s!"using oplog namespace `{ns.render}`"
  | connected side server =>
    plain .coordinator .debug s!"successfully connected to {side.name} server `{server}`"
  | tailing ns threshold idle =>
    [⟨.tail, .debug, "opening tailing cursor", [
      ("namespace", .text ns.render),
      ("threshold", .nat threshold.seconds),
      ("idle_wait_seconds", .number idle)]⟩]
  | streaming => plain .coordinator .debug "applying oplog entries..."
  | skipped entry => plain .forwarder .trace s!"skipping no-op for namespace `{entry.ns.shown}`"
  | forwarded entry count =>
    match count, entry.timestamp with
    | 1, .timestamp t => [
      ⟨.forwarder, .info, s!"Got first oplog with Timestamp: {t.seconds}", []⟩,
      ⟨.forwarder, .info,
        "If this is newer than the destination's last applied oplog, stop this.", []⟩]
    | _, _ => []
  | idled ns idle =>
    [⟨.tail, .debug, s!"no new oplog entries for {idle.text}s, ending tailing cursor",
      [("namespace", .text ns.render)]⟩]
  | readFailed e => plain .forwarder .error s!"error querying oplog: {e.message}"
  | readDone count => plain .forwarder .debug s!"done applying {count} oplog entries"
  | shutdownSeen =>
    plain .coordinator .info "Shutdown requested, flushing buffered oplog entries"
  | sourceExhausted =>
    plain .coordinator .info "Source oplog exhausted, all forwarded entries applied"
  | tickWithoutBatch => plain .coordinator .trace "flush timer fired with an empty batch"
  | flushed trigger batch =>
    [⟨.coordinator, .debug, s!"flushing {batch.length} oplog entries",
      [("trigger", .text trigger.name), ("batch_size", .nat batch.length)]⟩]
  | applied count total last =>
    [⟨.applier, .info,
      s!"{count} oplogs have been applied, total: {total}. Last: {last.seconds}", [
      ("applied", .nat count),
      ("applied_total", .nat total),
      ("last_ts", .nat last.seconds),
      ("last_inc", .nat last.counter)]⟩]
  | rejected count reason =>
    [⟨.applier, .error, "destination rejected batch",
      [("batch_size", .nat count), ("reason", reason)]⟩]
  | stopped stats => [⟨.coordinator, .info, "Oplog mirror stopped", stats.document⟩]
  | failed e => plain .coordinator .error s!"Oplog mirror failed: {e.message}"
  | releaseFailed resource f =>
    plain .coordinator .warning s!"Failed to close {resource.name}: {f.message}"
  | requested _ | obtained _ | received _ | forwarderEnded | released _ => []

end Event

abbrev Journal := List (Nat × Event)

namespace Journal

def records (j : Journal) : List Record := j.flatMap fun e => e.2.records

def note (j : Journal) (now : Nat) (events : List Event) : Journal :=
  j ++ events.map fun e => (now, e)

theorem records_note (j : Journal) (now : Nat) (events : List Event) :
    (j.note now events).records = j.records ++ events.flatMap Event.records := by
  simp [records, note, List.flatMap_append, List.flatMap_map]

end Journal

end OplogRelay
