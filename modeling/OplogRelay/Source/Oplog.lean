import OplogRelay.Failure
import OplogRelay.Value.Order
/-!
The source oplog: documents in append order, and one slot for a fault that the next look meets.
A cursor walks over it from the beginning, past the documents below its threshold.
-/
namespace OplogRelay

structure Oplog where
  documents : List Document := []
  fault : Option Fault := none
  deriving Repr, Inhabited

namespace Oplog

def append (o : Oplog) (docs : List Document) : Oplog :=
  { o with documents := o.documents ++ docs }

@[simp]
theorem documents_append (o : Oplog) (docs : List Document) :
    (o.append docs).documents = o.documents ++ docs := rfl

def inject (o : Oplog) (f : Fault) : Oplog := { o with fault := some f }

@[simp]
theorem documents_inject (o : Oplog) (f : Fault) : (o.inject f).documents = o.documents := rfl

def takeFault (o : Oplog) : Option Fault × Oplog := (o.fault, { o with fault := none })

@[simp]
theorem takeFault_takeFault (o : Oplog) : o.takeFault.2.takeFault.1 = none := rfl

end Oplog

/-- The place of a cursor is the number of documents it has passed. It waits so many seconds for a
new one, or without end if that is `null`. -/
structure Cursor where
  threshold : Value
  await : Value
  position : Nat := 0
  alive : Bool := true
  deriving Repr, Inhabited

inductive Look where
  | document (d : Document)
  | nothing
  | ended
  | fault (f : Fault)
  | unreadable (e : UnreadableError)
  deriving Repr

namespace Cursor

def reaches (threshold : Value) (d : Document) : Except UnreadableError Bool :=
  match d.get? "ts" with
  | none => .error .noTimestamp
  | some ts =>
    match ts.relate .greaterOrEqual threshold with
    | .ok reached => .ok reached
    | .error e => .error (.incomparable e)

theorem reaches_timestamp {d : Document} {ts : Timestamp} (h : d.get? "ts" = some (.timestamp ts))
    (threshold : Timestamp) :
    reaches (.timestamp threshold) d = .ok (decide (threshold ≤ ts)) := by
  simp only [reaches, h, Value.relate_timestamp]

/-- The first document that is not below the threshold, and how many were passed up to it. -/
def scan (threshold : Value) : List Document → Nat × Look
  | [] => (0, .nothing)
  | d :: rest =>
    match reaches threshold d with
    | .error e => (1, .unreadable e)
    | .ok true => (1, .document d)
    | .ok false =>
      let (passed, seen) := scan threshold rest
      (passed + 1, seen)

/-- A fault is met before any document, once, and ends the cursor that meets it. -/
def look (o : Oplog) (c : Cursor) : Look × Oplog × Cursor :=
  if c.alive then
    match o.fault with
    | some f => (.fault f, o.takeFault.2, { c with alive := false })
    | none =>
      let (passed, seen) := scan c.threshold (o.documents.drop c.position)
      (seen, o, { c with position := c.position + passed })
  else (.ended, o, c)

def wait? (c : Cursor) : Except Failure Span :=
  match c.await, c.await.amount? with
  | .null, _ => .ok .unbounded
  | _, some q =>
    match q.wait? with
    | .ok span => .ok span
    | .error e => .error (.conversion e)
  | v, none => .error (.kind (.incomparable "<=" v.kindName (Value.nat 0).kindName))

def close (c : Cursor) : Cursor := { c with alive := false }

end Cursor

end OplogRelay
