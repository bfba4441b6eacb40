import OplogRelay.Settings.Given
/-!
Settings of a run: where to read, where to write, how to batch and what to log.
-/
namespace OplogRelay

/-- The destination. The source is reached with the same credentials. -/
structure ConnectionSettings where
  host : Given String := .value "localhost"
  port : Option (Given Int) := none
  username : Option (Given String) := none
  password : Option (Given String) := none
  authDatabase : Given String := .value "admin"
  selectionTimeout : Int := 30000
  deriving DecidableEq, Repr, Inhabited

structure SourceSettings where
  host : Given String := .value ""
  oplog : Given String := .value "local.oplog.rs"
  lookback : Given Int := .value 86400
  idleWait : Given Binary64 := .value (.ofDecimal false 600 0)
  deriving DecidableEq, Repr, Inhabited

structure BatchSettings where
  maxSize : Given Int := .value 10000
  flushInterval : Given Binary64 := .value (.ofDecimal false 5 0)
  deriving DecidableEq, Repr, Inhabited

structure LoggingSettings where
  level : String := "INFO"
  format : Given String := .value "text"
  deriving DecidableEq, Repr, Inhabited

structure Settings where
  destination : ConnectionSettings := {}
  source : SourceSettings := {}
  batch : BatchSettings := {}
  logging : LoggingSettings := {}
  deriving DecidableEq, Repr, Inhabited

namespace ConnectionSettings

/-- The same credentials for another server, whose port stands in its host string. -/
def withHost (c : ConnectionSettings) (host : Given String) : ConnectionSettings :=
  { c with host := host, port := none }

/-- The port for seeds without one; zero is none. -/
def defaultPort? (c : ConnectionSettings) : Option Int :=
  (c.port.bind Given.value?).filter fun p => p != 0

def address (c : ConnectionSettings) : Value :=
  let host := c.host.toValue .text
  match c.defaultPort? with
  | some p => .text s!"{host.shown}:{p}"
  | none => host

def user? (c : ConnectionSettings) : Option String :=
  (c.username.bind Given.value?).filter fun name => !name.isEmpty

end ConnectionSettings

def Settings.sourceConnection (s : Settings) : ConnectionSettings :=
  s.destination.withHost s.source.host

inductive SettingsError where
  | sourceHostMissing
  | negativeLookback
  | idleWaitNotPositive
  | batchSizeTooSmall
  | flushIntervalNotPositive
  | unknownLogFormat (given : Given String)
  | passwordMissing
  deriving DecidableEq, Repr

def logFormats : List String := ["json", "text"]

def SettingsError.message : SettingsError → String
  | .sourceHostMissing => "a source host (--from or OPLOG_FROM) is required"
  | .negativeLookback => "the look-back window must not be negative"
  | .idleWaitNotPositive => "the cursor idle wait must be positive"
  | .batchSizeTooSmall => "the batch size must be at least 1"
  | .flushIntervalNotPositive => "the flush interval must be positive"
  | .unknownLogFormat given =>
    s!"invalid log format '{(given.toValue .text).shown}'. Must be one of: " ++
      ", ".intercalate logFormats
  | .passwordMissing => "a password is required when a username is given"

end OplogRelay
