import OplogRelay.Logging.Stamp
import OplogRelay.Record
import OplogRelay.Settings.Basic
/-!
Writing log records: which ranks have names, which rank the settings let through and the two
formats of a line.
-/
namespace OplogRelay.Logging

/-- The ranks that go by a name. A name that stands first is the one a rank is printed with. -/
def rankNames : List (String × Int) := [
  ("CRITICAL", 50), ("FATAL", 50), ("ERROR", 40), ("WARNING", 30), ("WARN", 30), ("INFO", 20),
  ("DEBUG", 10), ("TRACE", 5), ("NOTSET", 0)]

def rankName (rank : Int) : String :=
  match rankNames.find? fun n => n.2 == rank with
  | some n => n.1
  | none => s!"Level {rank}"

/-- The capital of a letter as far as names of ranks go: besides the small letters there are two
others whose capital is one of the 26. -/
def capital (c : Char) : Char :=
  if c = 'ı' then 'I' else if c = 'ſ' then 'S' else c.toUpper

/-- The lowest rank that is let through; a name that is not known stands for `INFO`. -/
def threshold (level : String) : Int :=
  (rankNames.lookup (String.ofList (level.toList.map capital))).getD Level.info.rank

/-- Chatter of the database driver below this rank is not wanted. -/
def driverThreshold : Int := Level.warning.rank

inductive Format where
  | text
  | json
  deriving DecidableEq, Repr

/-- Whatever is not the one word for the structured format is plain text. -/
def Format.ofSettings (s : LoggingSettings) : Format :=
  if s.format = .value "json" then .json else .text

def ownFields : List String := [
  "args", "asctime", "created", "exc_info", "exc_text", "filename", "funcName", "levelname",
  "levelno", "lineno", "module", "msecs", "message", "msg", "name", "pathname", "process",
  "processName", "relativeCreated", "stack_info", "taskName", "thread", "threadName"]

/-- A trailer begins on a line of its own. -/
def addTrailer (text trailer : String) : String :=
  if text.endsWith "\n" then text ++ trailer else text ++ "\n" ++ trailer

def textLine (logger rank message : String) (trailers : List String) : String :=
  trailers.foldl addTrailer s!" - {logger} - {rank} - {message}"

def replaced (extra : Document) (key own : String) : String :=
  ((extra.get? key).map Value.shown).getD own

inductive LineError where
  | kind (e : KindError)
  | message (e : Template.FillError)
  | stamp (e : StampError)
  | traceTooShort (kindName : String)
  | traceNotNumbered
  deriving DecidableEq, Repr

def LineError.text : LineError → String
  | .kind e => e.message
  | .message e => e.message
  | .stamp e => e.message
  | .traceTooShort "str" => "string index out of range"
  | .traceTooShort kindName => s!"{kindName} index out of range"
  | .traceNotNumbered => "2"

def given? (extra : Document) (key : String) : Option Value :=
  (extra.get? key).filter Value.isTruthy

def message? (extra : Document) (own : String) : Except LineError String :=
  let template := replaced extra "msg" own
  match extra.get? "getMessage", given? extra "args" with
  | some v, _ => .error (.kind (.notCallable v.kindName))
  | none, none => .ok template
  | none, some v =>
    match Template.fill? template v with
    | .ok message => .ok message
    | .error e => .error (.message e)

/-- An exception is three items, of which the second is the exception itself and the third its
trace. No value is either, but both may be missing. -/
def exceptionText? (error trace : Value) : Except LineError String :=
  match trace, error with
  | .null, .null => .ok "NoneType: None"
  | .null, v => .error (.kind (.noMember v.kindName "__suppress_context__"))
  | v, _ => .error (.kind (.noMember v.kindName "tb_frame"))

def exception? (extra : Document) : Except LineError (List String) :=
  match given? extra "exc_info" with
  | none => .ok []
  | some (.document _) => .error .traceNotNumbered
  | some v =>
    match v.parts? with
    | none => .error (.kind (.noItems v.kindName))
    | some (_ :: error :: trace :: _) => (exceptionText? error trace).map ([·])
    | some _ => .error (.traceTooShort v.kindName)

def trailer? (extra : Document) (key : String) : Except LineError (List String) :=
  match given? extra key with
  | none => .ok []
  | some (.text t) => .ok [t]
  | some v => .error (.kind (.notText v.kindName))

/-- The time a line begins with, of the usual length unless the record says otherwise. -/
def stamp? (extra : Document) : Except LineError String := do
  let time ← match extra.get? "created" with
    | none | some .null => pure Stamp.usual
    | some v =>
      match Stamp.seconds? v >>= Stamp.text? with
      | .ok time => pure time
      | .error e => .error (.stamp e)
  match Template.fill? "%03d" ((extra.get? "msecs").getD (.nat 0)) with
  | .ok milliseconds => return time ++ "," ++ milliseconds
  | .error e => .error (.message e)

def jsonFields (message : String) (extra : Document) : Document :=
  (extra.filter fun f => !ownFields.contains f.1 && f.1 != "time") ++ [("message", .text message)]

def line? (f : Format) (logger : String) (rank : Int) (own : String) (extra : Document) :
    Except LineError Value := do
  let message ← message? extra own
  match f with
  | .json =>
    let exception ← exception? extra
    return .document (jsonFields message extra ++ exception.map fun t => ("exc_info", .text t))
  | .text =>
    let time ← stamp? extra
    let cached ← trailer? extra "exc_text"
    let trace ← if cached.isEmpty then exception? extra else pure cached
    let stack ← trailer? extra "stack_info"
    let line := textLine (replaced extra "name" logger)
      (replaced extra "levelname" (rankName rank)) message (trace ++ stack)
    return .text (String.ofList ((time ++ line).toList.drop Stamp.width))

def loggerName (c : Component) : String := "mongotools.oplog_mirror." ++ c.path

def formatted (f : Format) (r : Record) : Value :=
  match f with
  | .text => .text (textLine (loggerName r.component) (rankName r.level.rank) r.message [])
  | .json => .document (jsonFields r.message r.extra)

def passes (threshold : Int) (r : Record) : Bool := decide (threshold ≤ r.level.rank)

end OplogRelay.Logging
