import OplogRelay.Clock
import OplogRelay.Source.Tail
/-!
Reading a tail directly: entries are taken as they come, with a pause after each.
-/
namespace OplogRelay

/-- An entry with the moment at which it was taken and what it goes by. -/
structure Taken where
  moment : Nat
  entry : Entry
  identity : Value
  deriving Repr

structure Reading where
  now : Nat := 0
  oplog : Oplog
  tail : Tail
  pause : Span
  pausedUntil : Option Nat := none
  got : List Taken := []
  outcome : Option (Except Failure Unit) := none
  endedAt : Nat := 0
  journal : Journal := []
  deriving Repr

namespace Reading

def open? (nsText : String) (docs : List Document) (opening : Opening) (idle : Quantity)
    (pause : Span) : Except Failure Reading :=
  match Namespace.parse? nsText with
  | .error e => .error (.configuration (.ns e))
  | .ok ns =>
    let (events, outcome) := opening.tail ns idle 0
    match outcome with
    | .error e => .error e
    | .ok tail => .ok {
        oplog := { documents := docs }
        tail := tail
        pause := pause
        journal := Journal.note [] 0 (.appended docs.length :: events) }

def conclude (r : Reading) (outcome : Except Failure Unit) : Reading :=
  { r with outcome := some outcome, endedAt := r.now }

/-- An entry that goes by nothing ends the reading. -/
def onOutcome (r : Reading) : Tail.Outcome → Reading
  | .pending => r
  | .entry e =>
    match e.identity? with
    | .error k => r.conclude (.error (.kind k))
    | .ok identity =>
      let got := { r with got := r.got ++ [Taken.mk r.now e identity] }
      if r.pause.IsPositive then { got with pausedUntil := some (r.pause.arrival r.now) }
      else { got with tail := got.tail.resume }
  | .ended => r.conclude (.ok ())
  | .failed e => r.conclude (.error e)

def note (r : Reading) (events : List Event) : Reading :=
  { r with journal := r.journal.note r.now events }

def step? (r : Reading) : Option Reading :=
  if r.outcome.isSome then none
  else match r.pausedUntil with
    | some due =>
      if due ≤ r.now then some { r with pausedUntil := none, tail := r.tail.resume } else none
    | none =>
      match r.tail.step? r.now r.oplog with
      | some (outcome, oplog, tail, events) =>
        some (({ r with oplog := oplog, tail := tail }.note events).onOutcome outcome)
      | none => (r.tail.expire? r.now).map fun tail => { r with tail := tail }

def due? (r : Reading) : Option Nat :=
  if r.outcome.isSome then none
  else match r.pausedUntil with
    | some due => some due
    | none => r.tail.due?

instance : Timed Reading where
  now r := r.now
  moveTo now r := { r with now := now }
  step? := step?
  due? := due?

inductive Action where
  | advance (span : Span)
  | append (docs : List Document)
  | inject (f : Fault)
  | close
  deriving Repr

def append (r : Reading) (docs : List Document) : Reading :=
  { r with oplog := r.oplog.append docs, tail := r.tail.wake }.note [.appended docs.length]

def act (r : Reading) : Action → Reading
  | .advance span => Timed.advance span r
  | .append docs => r.append docs
  | .inject f => { r with oplog := r.oplog.inject f }.append []
  | .close => { r with tail := r.tail.close }

def perform (r : Reading) (a : Action) : Reading := Timed.settle (r.act a)

end Reading

end OplogRelay
