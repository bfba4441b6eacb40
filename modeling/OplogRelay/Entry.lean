import OplogRelay.Value
/-!
Log entries: a timestamp, an operation code, the namespace it is about and its payload, with the
document it was read from kept whole.
-/
namespace OplogRelay

inductive OperationKind where
  | insert
  | update
  | delete
  | command
  | noop
  | databaseDeclaration
  deriving DecidableEq, Repr

namespace OperationKind

def code : OperationKind → String
  | insert => "i"
  | update => "u"
  | delete => "d"
  | command => "c"
  | noop => "n"
  | databaseDeclaration => "db"

def all : List OperationKind := [insert, update, delete, command, noop, databaseDeclaration]

end OperationKind

inductive EntryError where
  | missing (fields : List String)
  deriving DecidableEq, Repr

def EntryError.message : EntryError → String
  | .missing fields =>
    "Malformed oplog entry, missing fields: " ++ Text.bracketed (fields.map Text.quoted)

/-- The fields are kept as they were found; only what asks for the moment of an entry needs its
timestamp to be one. -/
structure Entry where
  timestamp : Value
  operation : Value
  ns : Value
  payload : Value
  selector : Value
  raw : Document
  deriving Repr, Inhabited, BEq

namespace Entry

def ofDocument? (d : Document) : Except EntryError Entry :=
  match d.get? "ts", d.get? "op" with
  | some ts, some op =>
    .ok {
      timestamp := ts
      operation := op
      ns := (d.get? "ns").getD (.text "")
      payload := (d.get? "o").getD (.document [])
      selector := (d.get? "o2").getD .null
      raw := d }
  | _, _ => .error (.missing (["ts", "op"].filter fun key => !d.has key))

/-- Codes that are not known are no error; such entries pass through. -/
def kind? (e : Entry) : Option OperationKind :=
  match e.operation with
  | .text s => OperationKind.all.find? fun k => k.code == s
  | _ => none

def isNoop (e : Entry) : Bool := e.kind? == some .noop

def moment? (e : Entry) : Except KindError Timestamp := e.timestamp.requireTimestamp "time"

/-- What the document of the payload goes by; only a document has that. -/
def identity? (e : Entry) : Except KindError Value :=
  match e.payload with
  | .document d => .ok ((Document.get? d "_id").getD .null)
  | v => .error (.noMember v.kindName "get")

def render (e : Entry) (moment : Timestamp) : String :=
  s!"LogEntry(op={e.operation.shown}, ns={e.ns.shown}, ts={moment.seconds}:{moment.counter})"

end Entry

end OplogRelay
