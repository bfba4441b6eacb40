import OplogRelay.Event
import OplogRelay.Source.Oplog
/-!
Tailing the oplog: entries are handed out one by one as they are asked for. A look that finds
nothing waits for an append; a wait that brings nothing ends the tail once it has been idle for
long enough, and else starts over.
-/
namespace OplogRelay

namespace Tail

/-- A wait that has run out is not woken any more. -/
inductive Phase where
  | resting
  | looking
  | waiting (until? : Option Nat) (woken : Bool)
  | lapsed
  | over
  deriving DecidableEq, Repr, Inhabited

inductive Outcome where
  | pending
  | entry (e : Entry)
  | ended
  | failed (e : Failure)
  deriving Repr

end Tail

structure Tail where
  ns : Namespace
  threshold : Timestamp
  idle : Quantity
  cursor : Cursor
  lastSeen : Nat := 0
  closed : Bool := false
  phase : Tail.Phase := .looking
  deriving Repr, Inhabited

namespace Tail

def start (ns : Namespace) (threshold : Timestamp) (idle : Quantity) (now : Nat) : Tail where
  ns := ns
  threshold := threshold
  idle := idle
  cursor := { threshold := .timestamp threshold, await := .number idle }
  lastSeen := now

end Tail

/-- What a tail is opened with: the look-back window, the wall clock it counts from, and whether
there is an oplog that lets itself be tailed. -/
structure Opening where
  lookback : Int := 86400
  clock : Quantity
  hasOplog : Bool := true
  fault : Option Fault := none
  deriving Repr, Inhabited

def Opening.tail (o : Opening) (ns : Namespace) (idle : Quantity) (now : Nat) :
    List Event × Except Failure Tail :=
  match Window.threshold? o.lookback o.clock with
  | .error e => ([], .error (.window e))
  | .ok threshold =>
    ([.tailing ns threshold idle, .requested .cursor],
      if o.hasOplog then
        match o.fault with
        | some f => .error (.ofOpenFault f)
        | none => .ok (.start ns threshold idle now)
      else .error (.connection (.noOplog ns)))

namespace Tail

def render (t : Tail) : String :=
  s!"StreamCursor(ns={t.ns.render}, " ++
    s!"threshold={t.threshold.seconds}:{t.threshold.counter})"

def resume (t : Tail) : Tail :=
  match t.phase with
  | .resting => { t with phase := .looking }
  | _ => t

def wake (t : Tail) : Tail :=
  match t.phase with
  | .waiting until? _ => { t with phase := .waiting until? true }
  | _ => t

/-- Closing does not wake a tail that waits. -/
def close (t : Tail) : Tail := { t with closed := true, cursor := t.cursor.close }

def fail (t : Tail) (e : Failure) : Outcome × Tail × List Event :=
  (.failed e, { t with phase := .over }, [])

/-- The document counts as seen even if it is no entry. -/
def take (now : Nat) (t : Tail) (d : Document) : Outcome × Tail × List Event :=
  let seen := { t with lastSeen := now }
  match Entry.ofDocument? d with
  | .ok e => (.entry e, { seen with phase := .resting }, [])
  | .error e => seen.fail (.ofEntryError e)

def giveUp (now : Nat) (t : Tail) : Outcome × Tail × List Event :=
  if t.idle.span.elapsed t.lastSeen now then
    (.ended, { t with phase := .over }, [.idled t.ns t.idle])
  else if t.cursor.alive && !t.closed then (.pending, { t with phase := .looking }, [])
  else (.ended, { t with phase := .over }, [])

/-- What follows from a look; `again` tells that the look came after a wait. -/
def onLook (now : Nat) (again : Bool) (t : Tail) : Look → Outcome × Tail × List Event
  | .document d => t.take now d
  | .fault f => t.fail (.ofReadFault f)
  | .unreadable e => t.fail (.unreadable e)
  | .ended => t.giveUp now
  | .nothing =>
    if again then t.giveUp now
    else match t.cursor.wait? with
      | .error e => t.fail e
      | .ok span => (.pending, { t with phase := .waiting (span.after now) false }, [])

/-- One look, if the tail is about to look or was woken; a wait that has run out is not followed by one. -/
def step? (now : Nat) (o : Oplog) (t : Tail) : Option (Outcome × Oplog × Tail × List Event) :=
  let looked (again : Bool) :=
    let (seen, o', cursor) := t.cursor.look o
    let (outcome, t', events) := { t with cursor := cursor }.onLook now again seen
    some (outcome, o', t', events)
  match t.phase with
  | .looking => looked false
  | .waiting _ true => looked true
  | .lapsed =>
    let (outcome, t', events) := t.giveUp now
    some (outcome, o, t', events)
  | _ => none

/-- A wait that nothing has interrupted runs out. What is appended from then on is too late for it. -/
def expire? (now : Nat) (t : Tail) : Option Tail :=
  match t.phase with
  | .waiting (some due) false => if due ≤ now then some { t with phase := .lapsed } else none
  | _ => none

def due? (t : Tail) : Option Nat :=
  match t.phase with
  | .waiting until? false => until?
  | _ => none

end Tail

end OplogRelay
