import OplogRelay.Applier
import OplogRelay.Batch
import OplogRelay.Source.Forwarder
import OplogRelay.World
/-!
A transfer moves entries from the forwarder's hand-off queue to the destination, a batch at a time.
The coordinator waits for an entry, a request to shut down, the forwarder's end or the flush timer;
while the destination works on a batch it waits for nothing else.

A request is heard a little later than it is made: a coordinator that is woken for another reason at the
very moment may not know of it yet. For the timer it sets an alarm, which goes off where the clock makes
out that the time left has passed; that need not be the very moment for which the timer is set.
-/
namespace OplogRelay

namespace Transfer

/-- The coordinator's claim on the next entry. A filled claim holds an entry that is no longer
queued and not yet received. -/
inductive Claim where
  | none
  | outstanding
  | filled (e : Entry)
  deriving Repr, Inhabited

/-- A batch under way: why it was sent, and whether the round that sent it had seen a request to
shut down. -/
structure Flush where
  trigger : Trigger
  shutdownSeen : Bool := false
  deriving DecidableEq, Repr, Inhabited

/-- `watching` tells that the forwarder had not ended when the round began; only then does its end
wake the coordinator. -/
inductive Phase where
  | waiting (watching : Bool)
  | applying (flush : Flush) (ops : Value) (due : Nat)
  | answered (flush : Flush) (answer : Answer)
  | done (outcome : Except Failure Unit)
  deriving Repr

instance : Inhabited Phase := ⟨.waiting true⟩

end Transfer

structure Transfer extends World where
  forwarder : Forwarder
  interval : Span
  nextTick : Option Nat
  alarm : Option Nat
  heard : Bool
  batch : Batch
  applier : Applier := {}
  claim : Transfer.Claim := .outstanding
  received : Nat := 0
  batchesApplied : Nat := 0
  phase : Transfer.Phase := .waiting true
  deriving Repr, Inhabited

namespace Transfer

def onWorld (f : World → World) (t : Transfer) : Transfer := { t with toWorld := f t.toWorld }

def note (t : Transfer) (events : List Event) : Transfer := t.onWorld (·.note events)

/-- When a wait that begins now for a later moment is over. -/
def alarmFor (now : Nat) (tick : Option Nat) : Option Nat :=
  tick.map fun tick => (Span.finite (Moment.gap now tick)).arrival now

def start (w : World) (tail : Tail) (capacity : Nat) (interval : Span) : Transfer where
  toWorld := w
  forwarder := { tail := tail, capacity := 1 }
  interval := interval
  nextTick := interval.after w.now
  alarm := alarmFor w.now (interval.after w.now)
  heard := w.shutdown
  batch := { capacity := capacity }

def isDue (now : Nat) (moment : Option Nat) : Bool := moment.any fun due => decide (due ≤ now)

def tickDue (t : Transfer) : Bool := isDue t.now t.nextTick

def alarmDue (t : Transfer) : Bool := isDue t.now t.alarm

def Claim.isFilled : Claim → Bool
  | .filled _ => true
  | _ => false

/-- The forwarder has ended and nothing it put on the queue is left. -/
def drained (t : Transfer) : Bool :=
  t.forwarder.finished && t.forwarder.queue.isEmpty && !t.claim.isFilled

def finish (t : Transfer) (outcome : Except Failure Unit) : Transfer :=
  { t with phase := .done outcome }

def fail (t : Transfer) (e : Failure) : Transfer := t.finish (.error e)

end Transfer

end OplogRelay
