import OplogRelay.Clock
import OplogRelay.Transfer.Basic
/-!
The steps of a transfer. The forwarder goes as far as it can before the coordinator moves, a request is
heard before that, and a wait for new entries runs out only when the coordinator has nothing to do at that
moment.
-/
namespace OplogRelay.Transfer

/-- A round begins: the next entry is claimed unless a claim is open already. A request that was made
before is heard in it. -/
def beginRound (t : Transfer) : Transfer :=
  { t with
    phase := .waiting (!t.forwarder.finished)
    alarm := alarmFor t.now t.nextTick
    heard := t.heard || t.shutdown
    claim := match t.claim with
      | .none => .outstanding
      | claim => claim }

def flush (t : Transfer) (f : Flush) : Transfer :=
  match t.applier.send? t.batch.entries with
  | .error e => { t with batch := t.batch.clear }.fail e
  | .ok (command, applier) =>
    let told := { t with applier := applier }.note [.flushed f.trigger t.batch.entries]
    let (start, world) := told.toWorld.send command
    { told with
      toWorld := world
      phase := match start with
        | .fault e => .answered f (.fault e)
        | .reply r => .answered f (.reply r)
        | .working ops duration => .applying f ops (duration.arrival world.now) }

/-- The forwarder's end is the end of the transfer, with its failure if it has one. -/
def conclude (t : Transfer) : Transfer :=
  match t.forwarder.ending with
  | some (.escaped e) => t.fail e
  | some (.failed e) => t.fail (.stream e)
  | some .cancelled => t.fail .cancelled
  | some .exhausted | none => (t.note [.sourceExhausted]).finish (.ok ())

/-- The rest of a round, after an entry that was there has been received: a request to shut down
comes before the end of the stream, and that before the timer. -/
def proceed (t : Transfer) (shutdownSeen : Bool) : Transfer :=
  if shutdownSeen then
    let told := t.note [.shutdownSeen]
    if t.batch.isEmpty then told.finish (.ok ()) else told.flush { trigger := .shutdown }
  else if t.drained then
    if t.batch.isEmpty then t.conclude else t.flush { trigger := .endOfStream }
  else if t.tickDue then
    let reset := { t with nextTick := t.interval.after t.now }
    if t.batch.isEmpty then (reset.note [.tickWithoutBatch]).beginRound
    else reset.flush { trigger := .timer }
  else t.beginRound

/-- Takes an entry into the batch, and sends the batch if that fills it. -/
def receive (t : Transfer) (e : Entry) (shutdownSeen : Bool) : Transfer :=
  let taken := { t with claim := .none, received := t.received + 1 }.note [.received e]
  match taken.batch.add e with
  | (.error m, _) => taken.fail (.misuse m)
  | (.ok full, batch) =>
    let filled := { taken with batch := batch }
    if full then filled.flush { trigger := .size, shutdownSeen := shutdownSeen }
    else filled.proceed shutdownSeen

def roused (t : Transfer) (watching : Bool) : Bool :=
  t.claim.isFilled || t.heard || (watching && t.forwarder.finished) || t.alarmDue

/-- What follows from the answer to a batch. The batch is given up in any case. -/
def settle (t : Transfer) (f : Flush) (answer : Answer) : Transfer :=
  let (outcome, applier) := t.applier.receive t.batch.entries answer
  let cleared := { t with applier := applier, batch := t.batch.clear }
  match outcome with
  | .error e => cleared.fail e
  | .ok verdict =>
    let told := cleared.note [applier.event t.batch.entries verdict]
    match verdict with
    | .rejected reason => told.fail (.apply (.rejected reason))
    | .applied _ _ =>
      let counted := { told with batchesApplied := t.batchesApplied + 1 }
      match f.trigger with
      | .size => counted.proceed f.shutdownSeen
      | .timer => counted.beginRound
      | .shutdown => counted.finish (.ok ())
      | .endOfStream => counted.conclude

def fill? (t : Transfer) : Option Transfer :=
  match t.claim, t.forwarder.queue with
  | .outstanding, e :: rest =>
    some { t with claim := .filled e, forwarder := { t.forwarder with queue := rest } }
  | _, _ => none

def forward? (t : Transfer) : Option Transfer :=
  match t.forwarder.step? t.now t.oplog with
  | none => none
  | some (oplog, forwarder, events) =>
    some ({ t with oplog := oplog, forwarder := forwarder }.note events)

def coordinate? (t : Transfer) : Option Transfer :=
  match t.phase with
  | .waiting watching =>
    if t.roused watching then
      some (match t.claim with
        | .filled e => t.receive e t.heard
        | _ => t.proceed t.heard)
    else none
  | .applying f ops due =>
    if due ≤ t.now then
      let (reply, world) := t.toWorld.complete ops
      some { t with toWorld := world, phase := .answered f (.ofReply reply) }
    else none
  | .answered f answer => some (t.settle f answer)
  | .done _ => none

/-- Whether the coordinator goes on without a pause: with an answer, or where there is nothing to
wait for until there is one. -/
def isUnderWay (t : Transfer) : Bool :=
  match t.phase with
  | .answered _ _ => true
  | .applying _ _ _ => t.destination.isPrompt
  | _ => false

/-- The coordinator goes on for as long as it need not wait. One batch can be answered at once, and
one more that follows from it. -/
def goOn : Nat → Transfer → Transfer
  | 0, t => t
  | rounds + 1, t =>
    match t.coordinate? with
    | none => t
    | some t' => if t'.isUnderWay then goOn rounds t' else t'

def hear? (t : Transfer) : Option Transfer :=
  if t.shutdown && !t.heard then some { t with heard := true } else none

def expire? (t : Transfer) : Option Transfer :=
  (t.forwarder.expire? t.now).map fun forwarder => { t with forwarder := forwarder }

def isDone (t : Transfer) : Bool :=
  match t.phase with
  | .done _ => true
  | _ => false

def step? (t : Transfer) : Option Transfer :=
  if t.isDone then none
  else t.fill?.orElse fun _ => t.forward?.orElse fun _ => t.hear?.orElse fun _ =>
    t.coordinate?.orElse fun _ => t.expire?

def sooner : Option Nat → Option Nat → Option Nat
  | some a, some b => some (min a b)
  | some a, none => some a
  | none, b => b

def due? (t : Transfer) : Option Nat :=
  match t.phase with
  | .waiting _ => sooner t.forwarder.due? t.alarm
  | .applying _ _ due => sooner t.forwarder.due? (some due)
  | .answered _ _ => some t.now
  | .done _ => none

instance : Timed Transfer where
  now t := t.now
  moveTo now t := { t with now := now }
  step? := step?
  due? := due?

def append (t : Transfer) (docs : List Document) : Transfer :=
  { t.onWorld (·.append docs) with forwarder := t.forwarder.wake }

def inject (t : Transfer) (f : Fault) : Transfer :=
  { t.onWorld (·.inject f) with forwarder := t.forwarder.wake }

end OplogRelay.Transfer
