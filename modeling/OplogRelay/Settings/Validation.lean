import OplogRelay.Failure
import OplogRelay.Record
/-!
Checking settings before anything is connected to, and telling of them without the password.
-/
namespace OplogRelay.Settings

def demand (holds : Bool) (e : SettingsError) : Except Failure Unit :=
  if holds then .ok () else .error (.configuration (.settings e))

def operand {α : Type} (given : Given α) (e : String → KindError) : Except Failure α :=
  match given.require e with
  | .ok a => .ok a
  | .error e => .error (.kind e)

def compared (relation : String) (kindName : String) : KindError :=
  .incomparable relation kindName (Value.nat 0).kindName

def ns? (s : Settings) : Except Failure Namespace := do
  match Namespace.parse? (← operand s.source.oplog (.noMember · "partition")) with
  | .ok ns => return ns
  | .error e => .error (.configuration (.ns e))

def hosts? (c : ConnectionSettings) : Except Failure HostSpec := do
  match HostSpec.parse? (← operand c.host (.noMember · "strip")) c.defaultPort? with
  | .ok hosts => return hosts
  | .error e => .error (.configuration (.host e))

def validate (s : Settings) : Except Failure Unit := do
  demand ((s.source.host.value?).any fun host => !host.isEmpty) .sourceHostMissing
  let _ ← s.ns?
  let _ ← hosts? s.sourceConnection
  let _ ← hosts? s.destination
  demand (0 ≤ (← operand s.source.lookback (compared "<"))) .negativeLookback
  demand (!(← operand s.source.idleWait (compared "<=")).isNonpositive) .idleWaitNotPositive
  demand (1 ≤ (← operand s.batch.maxSize (compared "<"))) .batchSizeTooSmall
  demand (!(← operand s.batch.flushInterval (compared "<=")).isNonpositive)
    .flushIntervalNotPositive
  demand ((s.logging.format.value?).any logFormats.contains) (.unknownLogFormat s.logging.format)
  demand (s.destination.user?.isNone || s.destination.password.isSome) .passwordMissing

/-- A password is told by its presence only. -/
def veiled (password : Option (Given String)) : Value :=
  match password with
  | some (.value p) => if p.isEmpty then .null else .text "***"
  | _ => .null

def record (s : Settings) : Record where
  component := .settings
  level := .info
  message := "Oplog mirror configuration loaded"
  extra := [
    ("destination", s.destination.address),
    ("source", s.source.host.toValue .text),
    ("oplog_ns", s.source.oplog.toValue .text),
    ("seconds", s.source.lookback.toValue .int),
    ("idle_wait_seconds", s.source.idleWait.toValue .float),
    ("max_batch_size", s.batch.maxSize.toValue .int),
    ("flush_interval_seconds", s.batch.flushInterval.toValue .float),
    ("username", (s.destination.username.map (·.toValue .text)).getD .null),
    ("password", veiled s.destination.password),
    ("log_level", .text s.logging.level)]

end OplogRelay.Settings
