import OplogRelay.Failure
/-!
Settings from environment variables. A variable that is set counts even if it is empty, except for
the port; numbers are read in a fixed order, and the first that cannot be read is the failure.
-/
namespace OplogRelay

abbrev Environment := List (String × String)

namespace Environment

def recognized : List String := [
  "MONGO_HOST", "MONGO_PORT", "MONGO_USERNAME", "MONGO_PASSWORD", "MONGO_AUTH_DB",
  "MONGO_SERVER_SELECTION_TIMEOUT_MS", "OPLOG_FROM", "OPLOG_NS", "OPLOG_SECONDS",
  "OPLOG_IDLE_WAIT_SECONDS", "APPLY_MAX_BATCH_SIZE", "APPLY_FLUSH_INTERVAL_SECONDS", "LOG_LEVEL",
  "LOG_FORMAT"]

def text? (env : Environment) (name : String) : Option (Given String) :=
  (env.lookup name).map Given.value

def text (env : Environment) (name : String) (default : Given String) : Given String :=
  (env.text? name).getD default

def integer? (env : Environment) (name : String) (default : Int) : Except NumeralError Int :=
  match env.lookup name with
  | some s => Numeral.integer? s
  | none => .ok default

def number? {α : Type} (env : Environment) (read : String → Except NumeralError α) (name : String)
    (default : Given α) : Except NumeralError (Given α) :=
  match env.lookup name with
  | some s => (read s).map Given.value
  | none => .ok default

/-- An empty port is none. -/
def port? (env : Environment) (name : String) : Except NumeralError (Option (Given Int)) :=
  match env.lookup name with
  | some s => if s.isEmpty then .ok none else (Numeral.integer? s).map fun p => some (.value p)
  | none => .ok none

end Environment

def ConnectionSettings.ofEnvironment? (env : Environment) :
    Except NumeralError ConnectionSettings := do
  let d : ConnectionSettings := {}
  let port ← env.port? "MONGO_PORT"
  let timeout ← env.integer? "MONGO_SERVER_SELECTION_TIMEOUT_MS" d.selectionTimeout
  return {
    host := env.text "MONGO_HOST" d.host
    port := port
    username := env.text? "MONGO_USERNAME"
    password := env.text? "MONGO_PASSWORD"
    authDatabase := env.text "MONGO_AUTH_DB" d.authDatabase
    selectionTimeout := timeout }

def SourceSettings.ofEnvironment? (env : Environment) : Except NumeralError SourceSettings := do
  let d : SourceSettings := {}
  let lookback ← env.number? Numeral.integer? "OPLOG_SECONDS" d.lookback
  let idleWait ← env.number? Numeral.decimal? "OPLOG_IDLE_WAIT_SECONDS" d.idleWait
  return {
    host := env.text "OPLOG_FROM" d.host
    oplog := env.text "OPLOG_NS" d.oplog
    lookback := lookback
    idleWait := idleWait }

def BatchSettings.ofEnvironment? (env : Environment) : Except NumeralError BatchSettings := do
  let d : BatchSettings := {}
  let maxSize ← env.number? Numeral.integer? "APPLY_MAX_BATCH_SIZE" d.maxSize
  let flushInterval ← env.number? Numeral.decimal? "APPLY_FLUSH_INTERVAL_SECONDS" d.flushInterval
  return { maxSize := maxSize, flushInterval := flushInterval }

def LoggingSettings.ofEnvironment (env : Environment) : LoggingSettings :=
  let d : LoggingSettings := {}
  { level := (env.lookup "LOG_LEVEL").getD d.level, format := env.text "LOG_FORMAT" d.format }

namespace Settings

def read? (env : Environment) : Except NumeralError Settings := do
  let destination ← ConnectionSettings.ofEnvironment? env
  let source ← SourceSettings.ofEnvironment? env
  let batch ← BatchSettings.ofEnvironment? env
  return {
    destination := destination
    source := source
    batch := batch
    logging := .ofEnvironment env }

/-- Settings that are not checked yet: the command line may still fill in what is missing. -/
def ofEnvironment? (env : Environment) : Except ConfigurationError Settings :=
  match read? env with
  | .ok s => .ok s
  | .error e => .error (.environment e)

end Settings

end OplogRelay
