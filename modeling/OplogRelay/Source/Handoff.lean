import OplogRelay.Clock
import OplogRelay.Source.Forwarder
/-!
A forwarder whose queue is emptied from outside, a few entries at a time.
-/
namespace OplogRelay

structure Handoff where
  now : Nat := 0
  oplog : Oplog
  forwarder : Forwarder
  taken : List Entry := []
  endedAt : Nat := 0
  journal : Journal := []
  deriving Repr

namespace Handoff

def open? (nsText : String) (docs : List Document) (opening : Opening) (idle : Quantity)
    (capacity : Int) : Except Failure Handoff :=
  match Namespace.parse? nsText with
  | .error e => .error (.configuration (.ns e))
  | .ok ns =>
    let (events, outcome) := opening.tail ns idle 0
    match outcome with
    | .error e => .error e
    | .ok tail =>
      match Forwarder.make? tail capacity with
      | .error e => .error (.misuse e)
      | .ok forwarder => .ok {
          oplog := { documents := docs }
          forwarder := forwarder
          journal := Journal.note [] 0 (.appended docs.length :: events) }

def note (h : Handoff) (events : List Event) : Handoff :=
  { h with journal := h.journal.note h.now events }

def update (h : Handoff) (f : Forwarder) : Handoff :=
  { h with
    forwarder := f
    endedAt := if f.finished && !h.forwarder.finished then h.now else h.endedAt }

def step? (h : Handoff) : Option Handoff :=
  match h.forwarder.step? h.now h.oplog with
  | some (oplog, forwarder, events) =>
    some (({ h with oplog := oplog }.update forwarder).note events)
  | none => (h.forwarder.expire? h.now).map h.update

instance : Timed Handoff where
  now h := h.now
  moveTo now h := { h with now := now }
  step? := step?
  due? h := h.forwarder.due?

inductive Action where
  | advance (span : Span)
  | append (docs : List Document)
  | inject (f : Fault)
  | take (n : Nat)
  | cancel
  deriving Repr

def append (h : Handoff) (docs : List Document) : Handoff :=
  { h with oplog := h.oplog.append docs, forwarder := h.forwarder.wake }.note
    [.appended docs.length]

def take (h : Handoff) (n : Nat) : Handoff :=
  let (entries, forwarder) := h.forwarder.takeUpTo n
  { h with taken := h.taken ++ entries, forwarder := forwarder }

def act (h : Handoff) : Action → Handoff
  | .advance span => Timed.advance span h
  | .append docs => h.append docs
  | .inject f => { h with oplog := h.oplog.inject f }.append []
  | .take n => h.take n
  | .cancel => h.update h.forwarder.cancel

def perform (h : Handoff) (a : Action) : Handoff := Timed.settle (h.act a)

/-- What the forwarder's end amounts to: a failure of the stream is told by its counters only. -/
def outcome (h : Handoff) : Except Failure Unit :=
  match h.forwarder.ending with
  | some (.escaped e) => .error e
  | some .cancelled => .error .cancelled
  | _ => .ok ()

end Handoff

end OplogRelay
