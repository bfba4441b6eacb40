import OplogRelay.Source.Tail
/-!
The forwarder reads the tail, drops no-ops and puts every other entry on a bounded hand-off queue.
While the queue is full it holds one entry and reads no further.
-/
namespace OplogRelay

namespace Forwarder

inductive Ending where
  | exhausted
  | failed (e : StreamError)
  | escaped (e : Failure)
  | cancelled
  deriving Repr

end Forwarder

structure Forwarder where
  tail : Tail
  capacity : Nat
  queue : List Entry := []
  held : Option Entry := none
  forwarded : Nat := 0
  skipped : Nat := 0
  ending : Option Forwarder.Ending := none
  deriving Repr, Inhabited

namespace Forwarder

/-- A forwarder needs a bound on its queue. -/
def make? (tail : Tail) (capacity : Int) : Except MisuseError Forwarder :=
  if capacity < 1 then .error .unboundedHandoff
  else .ok { tail := tail, capacity := capacity.toNat }

def finished (f : Forwarder) : Bool := f.ending.isSome

def error? (f : Forwarder) : Option StreamError :=
  match f.ending with
  | some (.failed e) => some e
  | _ => none

def stats (f : Forwarder) : ForwarderStats where
  finished := f.finished
  forwarded := f.forwarded
  skipped := f.skipped
  error := f.error?.map StreamError.message

def hasRoom (f : Forwarder) : Bool := decide (f.queue.length < f.capacity)

def put (f : Forwarder) (e : Entry) : Forwarder × List Event :=
  ({ f with
      queue := f.queue ++ [e]
      held := none
      forwarded := f.forwarded + 1
      tail := f.tail.resume },
    [.forwarded e (f.forwarded + 1)])

def accept (f : Forwarder) (e : Entry) : Forwarder × List Event :=
  if e.isNoop then ({ f with skipped := f.skipped + 1, tail := f.tail.resume }, [.skipped e])
  else if f.hasRoom then f.put e
  else ({ f with held := some e }, [])

def finish (f : Forwarder) (ending : Ending) : Forwarder := { f with ending := some ending }

def onOutcome (f : Forwarder) : Tail.Outcome → Forwarder × List Event
  | .pending => (f, [])
  | .entry e => f.accept e
  | .ended => (f.finish .exhausted, [.readDone f.forwarded])
  | .failed (.stream e) => (f.finish (.failed e), [.readFailed e])
  | .failed e => (f.finish (.escaped e), [])

/-- One piece of work: the held entry goes first, then the tail. -/
def step? (now : Nat) (o : Oplog) (f : Forwarder) : Option (Oplog × Forwarder × List Event) :=
  if f.finished then none
  else match f.held with
    | some e =>
      if f.hasRoom then
        let (f', events) := f.put e
        some (o, f', events)
      else none
    | none =>
      match f.tail.step? now o with
      | none => none
      | some (outcome, o', tail, events) =>
        let (f', more) := { f with tail := tail }.onOutcome outcome
        some (o', f', events ++ more)

def expire? (now : Nat) (f : Forwarder) : Option Forwarder :=
  if f.finished then none
  else (f.tail.expire? now).map fun tail => { f with tail := tail }

/-- A forwarder that has ended is not cancelled; a held entry is lost with it. -/
def cancel (f : Forwarder) : Forwarder := if f.finished then f else f.finish .cancelled

def takeUpTo (n : Nat) (f : Forwarder) : List Entry × Forwarder :=
  (f.queue.take n, { f with queue := f.queue.drop n })

def wake (f : Forwarder) : Forwarder := { f with tail := f.tail.wake }

def due? (f : Forwarder) : Option Nat := if f.finished then none else f.tail.due?

end Forwarder

end OplogRelay
