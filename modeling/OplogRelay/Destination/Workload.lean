import OplogRelay.Destination
import OplogRelay.Failure
import OplogRelay.Value.Order
/-!
A destination with several commands under way, each of which is completed in its own time.
-/
namespace OplogRelay

structure Workload where
  now : Nat := 0
  destination : Destination := {}
  underWay : List (Nat × Value) := []
  deriving Repr, Inhabited

namespace Workload

/-- Completes what is due by a moment, the earliest first, and goes there. -/
def moveTo (w : Workload) (moment : Nat) : Workload :=
  let due := (w.underWay.filter fun c => decide (c.1 ≤ moment)).mergeSort fun a b =>
    decide (a.1 ≤ b.1)
  { w with
    now := moment
    destination := due.foldl (fun d c => (d.complete c.2).2) w.destination
    underWay := w.underWay.filter fun c => !decide (c.1 ≤ moment) }

def start (w : Workload) (c : Command) : Destination.Start × Workload :=
  let (start, destination) := w.destination.start c
  let begun := { w with destination := destination }
  match start with
  | .working ops duration =>
    (start, { begun with underWay := w.underWay ++ [(duration.arrival w.now, ops)] }.moveTo w.now)
  | _ => (start, begun)

def run (w : Workload) (c : Command) : Except Fault Document × Workload :=
  let (start, destination) := w.destination.start c
  let begun := { w with destination := destination }
  match start with
  | .fault f => (.error f, begun)
  | .reply r => (.ok r, begun)
  | .working ops duration =>
    let settled := begun.moveTo (duration.arrival w.now)
    let (reply, after) := settled.destination.complete ops
    (reply, { settled with destination := after })

def moments (w : Workload) : List Nat := (w.underWay.map Prod.fst).mergeSort (· ≤ ·)

def isShort (w : Workload) (count : Value) : Except KindError Bool :=
  (Value.nat w.destination.appliedEntries.length).relate .less count

/-- How long a wait may last; the clock is set forward even by a time that is not positive. -/
def timeLimit? (timeout : Value) : Except Failure Span :=
  match timeout.amount? with
  | none => .error (.kind (.unsupported "+" (Value.float default).kindName timeout.kindName))
  | some q =>
    match q.clockable? with
    | .ok () => .ok q.span
    | .error e => .error (.conversion e)

/-- Waits until so many entries are applied. What is completed at the deadline is too late. -/
def waitFor (w : Workload) (count timeout : Value) : Except Failure Bool × Workload :=
  match timeLimit? timeout, w.isShort count with
  | .error e, _ => (.error e, w)
  | _, .error e => (.error (.kind e), w)
  | .ok _, .ok false => (.ok true, w)
  | .ok span, .ok true =>
    let deadline := span.after w.now
    let early := w.moments.filter fun m => deadline.all fun last => decide (m < last)
    match (early.map w.moveTo).find? fun w' => w'.isShort count matches .ok false with
    | some w' => (.ok true, w')
    | none => (.ok false, w.moveTo (deadline.getD (early.getLastD w.now)))

end Workload

end OplogRelay
