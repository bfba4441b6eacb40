import OplogRelay.Run.Basic
/-!
Timelines of a run: what is done to it from outside, and what can be seen of it after each thing.
-/
namespace OplogRelay.Run

inductive Action where
  | advance (span : Span)
  | append (docs : List Document)
  | inject (f : Fault)
  | signalCaller
  | requestShutdown
  | reject (message : String)
  | raise (f : Fault)
  | delay (seconds : Quantity)
  deriving Repr

def act (r : Run) : Action → Run
  | .advance span => Timed.advance span r
  | .append docs => r.append docs
  | .inject f => r.inject f
  | .signalCaller => r.signalCaller
  | .requestShutdown => r.requestShutdown
  | .reject message => r.onDestination fun d => { d with rejection := some message }
  | .raise f => r.onDestination fun d => { d with fault := some f }
  | .delay seconds => r.onDestination fun d => { d with delay := seconds }

def perform (r : Run) (a : Action) : Run := Timed.settle (r.act a)

structure Snapshot where
  at? : Option Nat
  stats : Stats
  buffered : Nat
  calls : Nat
  batches : List Nat
  done : Bool
  deriving Repr

def snapshot (r : Run) (at? : Option Nat) : Snapshot where
  at? := at?
  stats := r.stats
  buffered := r.buffered
  calls := r.world.destination.applyCalls
  batches := r.world.destination.batches.map fun b => b.parts.length
  done := r.isOver

def states (r : Run) : List Action → List Run
  | [] => []
  | a :: rest =>
    let next := r.perform a
    next :: next.states rest

/-- Snapshots after the start and after each action, and the run in the end. -/
def play (r : Run) (actions : List Action) : List Snapshot × Run :=
  let begun := Timed.settle r
  let states := begun.states actions
  (begun.snapshot none :: states.map fun s => s.snapshot (some s.world.now),
    Timed.finish (states.getLastD begun))

end OplogRelay.Run
