import OplogRelay.Source.Oplog
/-!
Several cursors over one oplog. Appends can be put off to a later moment; they happen when the clock
gets there, which it does when a cursor waits.
-/
namespace OplogRelay

structure CursorSet where
  now : Nat := 0
  oplog : Oplog := {}
  cursors : List Cursor := []
  scheduled : List (Nat × List Document) := []
  deriving Repr, Inhabited

namespace CursorSet

def append (s : CursorSet) (docs : List Document) : CursorSet :=
  { s with oplog := s.oplog.append docs }

def inject (s : CursorSet) (f : Fault) : CursorSet := { s with oplog := s.oplog.inject f }

def takeFault (s : CursorSet) : Option Fault × CursorSet :=
  let (f, oplog) := s.oplog.takeFault
  (f, { s with oplog := oplog })

def tail (s : CursorSet) (threshold await : Value) : CursorSet :=
  { s with cursors := s.cursors ++ [{ threshold := threshold, await := await }] }

def close? (s : CursorSet) (number : Int) : Except PlaceError CursorSet :=
  match Place.resolve? s.cursors.length number with
  | .ok i => .ok { s with cursors := s.cursors.modify i Cursor.close }
  | .error e => .error e

def documentAt? (s : CursorSet) (i : Int) : Except PlaceError (Option Document) :=
  if s.oplog.documents.length ≤ i then .ok none
  else match Place.resolve? s.oplog.documents.length i with
    | .ok n => .ok s.oplog.documents[n]?
    | .error e => .error e

def schedule (s : CursorSet) (after : Span) (docs : List Document) : CursorSet :=
  { s with scheduled := s.scheduled ++ [(after.arrival s.now, docs)] }

/-- One look of a cursor; there is none at a cursor that does not exist. -/
def look (s : CursorSet) (i : Nat) : Look × CursorSet :=
  match s.cursors[i]? with
  | none => (.ended, s)
  | some cursor =>
    let (seen, oplog, cursor') := cursor.look s.oplog
    (seen, { s with oplog := oplog, cursors := s.cursors.set i cursor' })

def nextAppend? (s : CursorSet) : Option Nat := (s.scheduled.map Prod.fst).min?

def moveTo (s : CursorSet) (moment : Nat) : CursorSet :=
  let due := s.scheduled.filter fun a => decide (a.1 ≤ moment)
  { s with
    now := moment
    oplog := s.oplog.append (due.flatMap Prod.snd)
    scheduled := s.scheduled.filter fun a => !decide (a.1 ≤ moment) }

def settle (s : CursorSet) : CursorSet := s.moveTo s.now

inductive Next where
  | document (d : Document)
  | ended
  | failed (e : Failure)
  deriving Repr

/-- What a look means if it is the last one. -/
def Next.ofLook : Look → Next
  | .document d => .document d
  | .nothing | .ended => .ended
  | .fault f => .failed (.ofFault f)
  | .unreadable e => .failed (.unreadable e)

/-- A wait that an append up to the deadline ends by another look, and its absence by none. -/
def await (s : CursorSet) (i : Nat) (span : Span) : Next × CursorSet :=
  let deadline := span.after s.now
  match s.nextAppend?, deadline with
  | some moment, some last =>
    if moment ≤ last then
      let (seen, s') := (s.moveTo moment).look i
      (.ofLook seen, s')
    else (.ended, s.moveTo last)
  | some moment, none =>
    let (seen, s') := (s.moveTo moment).look i
    (.ofLook seen, s')
  | none, some last => (.ended, s.moveTo last)
  | none, none => (.ended, s)

def nextOf (s : CursorSet) (i : Nat) : Next × CursorSet :=
  match s.look i with
  | (.nothing, s') =>
    match (s'.cursors[i]?.map Cursor.wait?).getD (.ok (.finite 0)) with
    | .error e => (.failed e, s')
    | .ok span => if span.IsPositive then s'.await i span else (.ended, s')
  | (seen, s') => (.ofLook seen, s')

/-- The next document of a cursor, told by its number. What is due happens in any case. -/
def next (s : CursorSet) (number : Int) : Next × CursorSet :=
  match Place.resolve? s.cursors.length number with
  | .ok i =>
    let (next, s') := s.nextOf i
    (next, s'.settle)
  | .error e => (.failed (.place e), s.settle)

end CursorSet

end OplogRelay
