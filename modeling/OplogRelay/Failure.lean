import OplogRelay.Entry
import OplogRelay.Fault
import OplogRelay.HostString
import OplogRelay.Namespace
import OplogRelay.Number.Numeral
import OplogRelay.Place
import OplogRelay.Settings.Basic
import OplogRelay.Window
/-!
What can end an operation, by cause. Four kinds of failure belong to the relay itself; the rest are
faults that it lets pass and uses that its parts refuse.
-/
namespace OplogRelay

inductive ConfigurationError where
  | ns (e : NamespaceError)
  | host (e : HostError)
  | environment (e : NumeralError)
  | settings (e : SettingsError)
  | client (f : Fault)
  deriving DecidableEq, Repr

def ConfigurationError.message : ConfigurationError → String
  | .ns e => e.message
  | .host e => e.message
  | .environment e => s!"invalid environment setting: {e.message}"
  | .settings e => e.message
  | .client f => f.message

inductive Side where
  | destination
  | source
  deriving DecidableEq, Repr

def Side.name : Side → String
  | destination => "destination"
  | source => "source"

inductive ConnectionError where
  | unreachable (server reason : String)
  | noOplog (ns : Namespace)
  | raised (message : String)
  | connecting (side : Side) (cause : ConnectionError)
  deriving DecidableEq, Repr

def ConnectionError.message : ConnectionError → String
  | .unreachable server reason => s!"{server}: {reason}"
  | .noOplog ns => s!"no oplog attached for {ns.render}"
  | .raised message => message
  | .connecting side cause => s!"error connecting to {side.name} db: {cause.message}"

inductive StreamError where
  | malformed (e : EntryError)
  | opening (f : Fault)
  | reading (f : Fault)
  | raised (message : String)
  deriving DecidableEq, Repr

def StreamError.message : StreamError → String
  | .malformed e => e.message
  | .opening f => s!"error opening oplog cursor: {f.message}"
  | .reading f => s!"error reading oplog: {f.message}"
  | .raised message => message

inductive ApplyError where
  | rejected (reason : Value)
  | failed (f : Fault)
  deriving Repr

def ApplyError.message : ApplyError → String
  | .rejected reason => s!"server gave error applying ops: {reason.shown}"
  | .failed f => s!"error applying ops: {f.message}"

/-- A use that the called part refuses. -/
inductive MisuseError where
  | flushIntervalNotPositive
  | batchSizeTooSmall (given : Int)
  | unboundedHandoff
  | emptyBatch
  | batchFull
  | notConnected
  | alreadyStarted
  deriving DecidableEq, Repr

def MisuseError.message : MisuseError → String
  | .flushIntervalNotPositive => "flush_interval_seconds must be positive"
  | .batchSizeTooSmall given => s!"max_batch_size must be at least 1, got {given}"
  | .unboundedHandoff => "handoff queue must be bounded"
  | .emptyBatch => "cannot apply an empty batch"
  | .batchFull => "batch is full, flush before adding more entries"
  | .notConnected => "cannot flush before the destination session is open"
  | .alreadyStarted => "OplogMirror.run() can only be called once"

/-- A document that cannot be compared with a threshold. -/
inductive UnreadableError where
  | noTimestamp
  | incomparable (e : KindError)
  deriving DecidableEq, Repr

def UnreadableError.message : UnreadableError → String
  | .noTimestamp => "'ts'"
  | .incomparable e => e.message

inductive Failure where
  | configuration (e : ConfigurationError)
  | connection (e : ConnectionError)
  | stream (e : StreamError)
  | apply (e : ApplyError)
  | fault (f : Fault)
  | unreadable (e : UnreadableError)
  | kind (e : KindError)
  | place (e : PlaceError)
  | misuse (e : MisuseError)
  | window (e : Window.Error)
  | conversion (e : ConversionError)
  | numeral (e : NumeralError)
  | cancelled
  deriving Repr

namespace Failure

def message : Failure → String
  | .configuration e => e.message
  | .connection e => e.message
  | .stream e => e.message
  | .apply e => e.message
  | .fault f => f.message
  | .unreadable e => e.message
  | .kind e => e.message
  | .place e => e.message
  | .misuse e => e.message
  | .window e => e.message
  | .conversion e => e.message
  | .numeral e => e.message
  | .cancelled => ""

/-- The failures that the relay itself declares. -/
def isOwn : Failure → Bool
  | .configuration _ | .connection _ | .stream _ | .apply _ => true
  | _ => false

/-- A fault that passes unconverted; two kinds of fault are failures of the relay already. -/
def ofFault (f : Fault) : Failure :=
  match f.kind with
  | .stream => .stream (.raised f.message)
  | .connection => .connection (.raised f.message)
  | _ => .fault f

def ofEntryError : EntryError → Failure
  | .missing fields => .stream (.malformed (.missing fields))

def ofReadFault (f : Fault) : Failure :=
  if f.isDriver || f.isDecoding then .stream (.reading f) else ofFault f

def ofOpenFault (f : Fault) : Failure :=
  if f.isDriver then .stream (.opening f) else ofFault f

def ofApplyFault (f : Fault) : Failure :=
  if f.isDriver then .apply (.failed f) else ofFault f

end Failure

end OplogRelay
