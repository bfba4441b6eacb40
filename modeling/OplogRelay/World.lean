import OplogRelay.Destination
import OplogRelay.Event
import OplogRelay.Source.Oplog
/-!
The surroundings of a run: the clock, the two servers, the request to shut down and the journal of
what has happened.
-/
namespace OplogRelay

structure World where
  now : Nat := 0
  oplog : Oplog := {}
  destination : Destination := {}
  attached : Bool := true
  shutdown : Bool := false
  journal : Journal := []
  deriving Repr, Inhabited

namespace World

def note (w : World) (events : List Event) : World :=
  { w with journal := w.journal.note w.now events }

@[simp]
theorem journal_note (w : World) (events : List Event) :
    (w.note events).journal = w.journal.note w.now events := rfl

@[simp]
theorem now_note (w : World) (events : List Event) : (w.note events).now = w.now := rfl

@[simp]
theorem oplog_note (w : World) (events : List Event) : (w.note events).oplog = w.oplog := rfl

@[simp]
theorem destination_note (w : World) (events : List Event) :
    (w.note events).destination = w.destination := rfl

@[simp]
theorem shutdown_note (w : World) (events : List Event) :
    (w.note events).shutdown = w.shutdown := rfl

def append (w : World) (docs : List Document) : World :=
  { w with oplog := w.oplog.append docs }.note [.appended docs.length]

/-- A fault comes with an append of nothing, which wakes whoever waits. -/
def inject (w : World) (f : Fault) : World :=
  { w with oplog := w.oplog.inject f }.append []

/-- A session without a destination behind it answers all by itself. -/
def send (w : World) (c : Command) : Destination.Start × World :=
  if w.attached then
    let (start, destination) := w.destination.start c
    (start, { w with destination := destination })
  else (.reply Reply.unattached, w)

def complete (w : World) (ops : Value) : Except Fault Document × World :=
  let (reply, destination) := w.destination.complete ops
  (reply, { w with destination := destination })

end World

end OplogRelay
