import OplogRelay.Settings.Basic
/-!
Arguments given on the command line, and settings with these arguments laid over them. An argument
that is given counts whatever its value; one that is not leaves the setting as it was.
-/
namespace OplogRelay

structure Arguments where
  source : Option (Given String) := none
  oplog : Option (Given String) := none
  lookback : Option (Given Int) := none
  idleWait : Option (Given Binary64) := none
  host : Option (Given String) := none
  port : Option (Given Int) := none
  username : Option (Given String) := none
  password : Option (Given String) := none
  authDatabase : Option (Given String) := none
  batchSize : Option (Given Int) := none
  flushInterval : Option (Given Binary64) := none
  verbose : Nat := 0
  quiet : Bool := false
  logFormat : Option (Given String) := none
  deriving DecidableEq, Repr, Inhabited

namespace Arguments

/-- The log level asked for: silence wins over any number of calls for detail. -/
def logLevel? (a : Arguments) : Option String :=
  if a.quiet then some "WARNING"
  else if 2 ≤ a.verbose then some "TRACE"
  else if a.verbose = 1 then some "DEBUG"
  else none

def overlay (a : Arguments) (base : Settings) : Settings where
  destination := { base.destination with
    host := a.host.getD base.destination.host
    port := a.port.or base.destination.port
    username := a.username.or base.destination.username
    password := a.password.or base.destination.password
    authDatabase := a.authDatabase.getD base.destination.authDatabase }
  source := {
    host := a.source.getD base.source.host
    oplog := a.oplog.getD base.source.oplog
    lookback := a.lookback.getD base.source.lookback
    idleWait := a.idleWait.getD base.source.idleWait }
  batch := {
    maxSize := a.batchSize.getD base.batch.maxSize
    flushInterval := a.flushInterval.getD base.batch.flushInterval }
  logging := {
    level := a.logLevel?.getD base.logging.level
    format := a.logFormat.getD base.logging.format }

end Arguments

end OplogRelay
