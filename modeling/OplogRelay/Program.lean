import OplogRelay.CommandLine.Parse
import OplogRelay.Logging
import OplogRelay.Run.Blueprint
import OplogRelay.Run.Turns
import OplogRelay.Settings.Environment
import OplogRelay.Settings.Validation
/-!
The whole program: from the command line and the environment to an exit code, with what is printed
and logged on the way.
-/
namespace OplogRelay.Program

def name : String := "oplog-mirror"

def version : String := "0.1.0"

inductive Ending where
  | exit (code : Nat)
  | escaped (e : Failure)
  deriving Repr

inductive Early where
  | help
  | version
  | usage (e : CommandLine.UsageError)
  | configuration (e : ConfigurationError)
  | escaped (e : Failure)
  deriving Repr

namespace Early

def ofStop : CommandLine.Stop → Early
  | .help => .help
  | .version => .version
  | .usage e => .usage e

/-- Settings that cannot even be checked are no configuration failure. -/
def ofFailure : Failure → Early
  | .configuration e => .configuration e
  | e => .escaped e

def ending : Early → Ending
  | .help | .version => .exit 0
  | .usage _ => .exit 2
  | .configuration _ => .exit 1
  | .escaped e => .escaped e

def output : Early → List String
  | .version => [s!"{name} {Program.version}"]
  | _ => []

def complaint : Early → List String
  | .usage e => [s!"{name}: error: {e.message}"]
  | .configuration e => [s!"Configuration error: {e.message}"]
  | _ => []

end Early

/-- Arguments, laid over settings from the environment; the arguments are looked at first. -/
def configure (words : List String) (env : Environment) : Except Early Settings :=
  match CommandLine.parse words with
  | .error stop => .error (.ofStop stop)
  | .ok arguments =>
    match Settings.ofEnvironment? env with
    | .error e => .error (.configuration e)
    | .ok base =>
      let settings := arguments.overlay base
      match settings.validate with
      | .error e => .error (.ofFailure e)
      | .ok () => .ok settings

structure Surroundings where
  world : World
  clock : Quantity
  sourceError : Option String := none
  destinationError : Option String := none
  openFault : Option Fault := none
  deriving Repr, Inhabited

def Surroundings.outOfReach (clock : Quantity) : Surroundings where
  world := {}
  clock := clock
  sourceError := some "no reachable servers"
  destinationError := some "no reachable servers"

def say (message : String) : Record := ⟨.program, .info, message, []⟩

structure Report where
  ending : Ending
  complaint : List String := []
  records : List Record
  run : Option Run := none
  deriving Repr

/-- What the end of a run means for the program, which has told of its settings and of every signal
that it heeded. -/
def conclude (settings : Settings) (t : Turns) : Report :=
  let spoken := settings.record ::
    t.signals.map fun number => say s!"Received signal {number}, initiating shutdown"
  let reported (spoken : List Record) (ending : Ending) (complaint : List String) : Report :=
    { ending := ending
      complaint := complaint
      records := spoken ++ t.run.world.journal.records
      run := some t.run }
  match t.run.outcome with
  | some (.ok stats) =>
    let done := say (s!"done, {stats.appliedTotal} oplog entries applied in " ++
      s!"{stats.batchesApplied} batches")
    reported (spoken ++ [done]) (.exit 0) []
  | some (.error e) =>
    if e.isOwn then reported spoken (.exit 1) [s!"Failed: {e.message}"]
    else reported spoken (.escaped e) []
  | none => reported spoken (.escaped .cancelled) []

def prepare (settings : Settings) (s : Surroundings) : Except Failure Run := do
  let blueprint ← Blueprint.ofSettings? settings
  match blueprint.plan? s.clock with
  | .error e => .error (.misuse e)
  | .ok plan =>
    return {
      plan := { plan with
        source := { plan.source with refusal := s.sourceError }
        destination := { plan.destination with refusal := s.destinationError }
        opening := { plan.opening with fault := s.openFault } }
      stage := .before s.world }

def launch (settings : Settings) (s : Surroundings) (incidents : List (Span × Incident)) : Report :=
  match prepare settings s with
  | .error e => { ending := .escaped e, records := [settings.record] }
  | .ok run =>
    match run.start? with
    | .error e => { ending := .escaped (.misuse e), records := [settings.record] }
    | .ok started => conclude settings ((Turns.ofStarted started incidents).play Timed.fuel)

end OplogRelay.Program
