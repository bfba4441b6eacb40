import OplogRelay.CommandLine.Help
import OplogRelay.Json.Writer
import OplogRelay.Program
import Std.Time.Format
/-!
The command line: reads the arguments and the environment, prints what the program says and gives
its exit code. There is no transport to servers, so every launched program finds them out of reach.
-/
namespace OplogRelay.Program

/-- The variables that settings are read from, as far as they are set. -/
def environment : IO Environment := do
  let found ← Environment.recognized.mapM fun name => return (name, ← IO.getEnv name)
  return found.filterMap fun (name, value) => value.map fun text => (name, text)

def complain (lines : List String) : IO Unit := do
  for line in lines do IO.eprintln line

def printEarly (e : Early) : IO Unit := do
  let output := match e with
    | .help => CommandLine.help name
    | _ => e.output
  for line in output do IO.println line
  complain e.complaint

def logLine (format : Logging.Format) (time : String) (r : Record) : String :=
  match Logging.formatted format r with
  | .text line => time ++ line
  | .document fields => Json.write Json.plain (.document (fields ++ [("time", .text time)]))
  | v => Json.write Json.plain v

def exitStatus : Ending → IO UInt32
  | .exit code => return code.toUInt32
  | .escaped e => do
    complain [e.message]
    return 1

def printReport (settings : Settings) (report : Report) : IO UInt32 := do
  let time := (← Std.Time.PlainDateTime.now).format "uuuu-MM-dd HH:mm:ss,SSS"
  let format := Logging.Format.ofSettings settings.logging
  let shown := report.records.filter (Logging.passes (Logging.threshold settings.logging.level))
  complain (shown.map (logLine format time))
  complain report.complaint
  exitStatus report.ending

/-- Without any incident from outside. -/
def run (args : List String) : IO UInt32 := do
  match configure args (← environment) with
  | .error e =>
    printEarly e
    exitStatus e.ending
  | .ok settings =>
    let seconds := (← Std.Time.Timestamp.now).toSecondsSinceUnixEpoch.val
    printReport settings (launch settings (.outOfReach (.whole seconds)) [])

end OplogRelay.Program

def main (args : List String) : IO UInt32 := OplogRelay.Program.run args
