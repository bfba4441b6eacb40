import OplogRelay.Transfer.Step
/-!
A run from its first connection to the release of everything it obtained. The destination session,
the source session and the cursor are requested in this order; they are released in the order
cursor, source, destination, whatever ended the run.
-/
namespace OplogRelay

/-- A server as a run meets it: its name, why it cannot be reached, and the fault of its release. -/
structure Endpoint where
  name : String
  refusal : Option String := none
  releaseFault : Option Fault := none
  deriving Repr, Inhabited

namespace Run

structure Plan where
  ns : String := "local.oplog.rs"
  opening : Opening
  idle : Quantity := .whole 600
  capacity : Nat := 10000
  interval : Quantity := .whole 5
  source : Endpoint
  destination : Endpoint
  cursorFault : Option Fault := none
  deriving Repr, Inhabited

def Plan.make? (plan : Plan) (maxBatch : Int) (flush : Quantity) : Except MisuseError Plan :=
  if flush.isNonpositive then .error .flushIntervalNotPositive
  else match Batch.make? maxBatch with
    | .error e => .error e
    | .ok batch => .ok { plan with capacity := batch.capacity, interval := flush }

def Plan.endpoint (plan : Plan) : Side → Endpoint
  | .source => plan.source
  | .destination => plan.destination

def Plan.releaseFault (plan : Plan) : Resource → Option Fault
  | .session side => (plan.endpoint side).releaseFault
  | .cursor => plan.cursorFault

inductive Stage where
  | before (w : World)
  | moving (t : Transfer)
  deriving Repr

instance : Inhabited Stage := ⟨.before default⟩

def Stage.world : Stage → World
  | .before w => w
  | .moving t => t.toWorld

def Stage.onWorld (f : World → World) : Stage → Stage
  | .before w => .before (f w)
  | .moving t => .moving (t.onWorld f)

end Run

/-- Requests to shut down can be made to the run itself or through an event that its caller gives;
a run that is given an event waits on that one alone. -/
structure Run where
  plan : Run.Plan
  stage : Run.Stage
  lifecycle : Lifecycle := .initializing
  started : Bool := false
  ownRequest : Bool := false
  callerRequest : Option Bool := none
  outcome : Option (Except Failure Stats) := none
  endedAt : Option Nat := none
  deriving Repr, Inhabited

namespace Run

def world (r : Run) : World := r.stage.world

def onWorld (f : World → World) (r : Run) : Run := { r with stage := r.stage.onWorld f }

def note (r : Run) (events : List Event) : Run := r.onWorld (·.note events)

def transfer? (r : Run) : Option Transfer :=
  match r.stage with
  | .before _ => none
  | .moving t => some t

def buffered (r : Run) : Nat := (r.transfer?.map fun t => t.batch.size).getD 0

def stats (r : Run) : Stats where
  lifecycle := r.lifecycle
  received := (r.transfer?.map Transfer.received).getD 0
  batchesApplied := (r.transfer?.map Transfer.batchesApplied).getD 0
  appliedTotal := (r.transfer?.map fun t => t.applier.total).getD 0
  lastApplied := r.transfer?.bind fun t => t.applier.last.timestamp?
  forwarder := r.transfer?.map fun t => t.forwarder.stats

def stopForwarder (r : Run) : Run :=
  match r.stage with
  | .before _ => r
  | .moving t =>
    { r with stage := .moving ({ t with forwarder := t.forwarder.cancel }.note [.forwarderEnded]) }

/-- Releases resources in order. A driver's fault is only told; any other fault takes the place of
the outcome, and what is left is not released. -/
def release (r : Run) : List Resource → Run
  | [] => r
  | resource :: rest =>
    let released := r.note [.released resource]
    match r.plan.releaseFault resource with
    | none => released.release rest
    | some f =>
      if f.isDriver then (released.note [.releaseFailed resource f]).release rest
      else { released with outcome := some (.error (.ofFault f)) }

/-- Stopped after a clean end, fatal after a failure of the relay's own, and else as it was. -/
def settle (r : Run) : Except Failure Unit → Run
  | .ok () =>
    let stopped := { r with lifecycle := .stopped }
    { stopped with outcome := some (.ok stopped.stats) }.note [.stopped stopped.stats]
  | .error e =>
    let ended := { r with outcome := some (.error e) }
    if e.isOwn then { ended with lifecycle := .fatal }.note [.failed e] else ended

def close (r : Run) (held : List Resource) : Run :=
  { (r.stopForwarder.release held) with endedAt := some r.world.now }

def finish (r : Run) (outcome : Except Failure Unit) (held : List Resource) : Run :=
  (r.settle outcome).close held

def allResources : List Resource := [.cursor, .session .source, .session .destination]

def connect (r : Run) (side : Side) : Run × Option Failure :=
  let endpoint := r.plan.endpoint side
  let asked := r.note [.requested (.session side)]
  match endpoint.refusal with
  | some reason =>
    (asked, some (.connection (.connecting side (.unreachable endpoint.name reason))))
  | none => (asked.note [.obtained (.session side), .connected side endpoint.name], none)

/-- Opens the cursor and begins to stream. A run whose timer cannot be set ends there, before its
forwarder has begun. -/
def openCursor (r : Run) (ns : Namespace) : Run :=
  let sessions := [Resource.session .source, .session .destination]
  let (events, opening) := r.plan.opening.tail ns r.plan.idle r.world.now
  let asked := r.note events
  match opening with
  | .error e => asked.finish (.error e) sessions
  | .ok tail =>
    let opened := { asked.note [.obtained .cursor, .streaming] with lifecycle := .streaming }
    let begin (interval : Span) : Run := { opened with
      stage := .moving (.start opened.world tail r.plan.capacity interval) }
    match r.plan.interval.wait? with
    | .ok interval => begin interval
    | .error e =>
      let stuck := begin .unbounded
      { (stuck.settle (.error (.conversion e))).release allResources with
        endedAt := some stuck.world.now }

/-- The namespace is looked at before any server is. -/
def openAll (r : Run) : Run :=
  match Namespace.parse? r.plan.ns with
  | .error e =>
    { r with outcome := some (.error (.configuration (.ns e))), endedAt := some r.world.now }
  | .ok ns =>
    match (r.note [.namespaceAccepted ns]).connect .destination with
    | (asked, some e) => asked.finish (.error e) []
    | (connected, none) =>
      match connected.connect .source with
      | (asked, some e) => asked.finish (.error e) [.session .destination]
      | (both, none) => both.openCursor ns

/-- Starts a run; only once. -/
def start? (r : Run) : Except MisuseError Run :=
  if r.started then .error .alreadyStarted
  else
    let shutdown := r.callerRequest.getD r.ownRequest
    .ok ({ r with started := true }.onWorld fun w => { w with shutdown := shutdown }).openAll

/-- A request made to the run itself: before the start it goes to the run's own event, from then
on to the event that it waits on. -/
def requestShutdown (r : Run) : Run :=
  if r.started then r.onWorld fun w => { w with shutdown := true }
  else { r with ownRequest := true }

def signalCaller (r : Run) : Run :=
  match r.callerRequest with
  | none => r
  | some _ =>
    let set := { r with callerRequest := some true }
    if r.started then set.onWorld fun w => { w with shutdown := true } else set

def append (docs : List Document) (r : Run) : Run :=
  match r.stage with
  | .before w => { r with stage := .before (w.append docs) }
  | .moving t => { r with stage := .moving (t.append docs) }

def inject (f : Fault) (r : Run) : Run :=
  match r.stage with
  | .before w => { r with stage := .before (w.inject f) }
  | .moving t => { r with stage := .moving (t.inject f) }

def onDestination (f : Destination → Destination) (r : Run) : Run :=
  r.onWorld fun w => { w with destination := f w.destination }

/-- A batch can be sent only once there is a session to send it over. -/
def requireSession (r : Run) : Except MisuseError Unit :=
  match r.stage with
  | .before _ => .error .notConnected
  | .moving _ => .ok ()

def isOver (r : Run) : Bool := r.endedAt.isSome

def step? (r : Run) : Option Run :=
  if r.isOver then none
  else match r.stage with
    | .before _ => none
    | .moving t =>
      match t.phase with
      | .done outcome => some (r.finish outcome allResources)
      | _ => t.step?.map fun t' => { r with stage := .moving t' }

def due? (r : Run) : Option Nat :=
  if r.isOver then none
  else match r.stage with
    | .before _ => none
    | .moving t => t.due?

instance : Timed Run where
  now r := r.world.now
  moveTo now r := r.onWorld fun w => { w with now := now }
  step? := step?
  due? := due?

def released (r : Run) (resource : Resource) : Bool :=
  r.world.journal.any fun e =>
    match e.2 with
    | .released given => given == resource
    | _ => false

def sessionRequests (r : Run) (side : Side) : Nat :=
  r.world.journal.countP fun e =>
    match e.2 with
    | .requested asked => asked == .session side
    | _ => false

end Run

end OplogRelay
