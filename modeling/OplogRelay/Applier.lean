import OplogRelay.Command
import OplogRelay.Event
/-!
Applying batches: one command a batch, and counters that move only if the whole batch was applied.
-/
namespace OplogRelay

inductive Verdict where
  | applied (count : Nat) (last : Timestamp)
  | rejected (reason : Value)
  deriving Repr

namespace Reply

/-- A batch is applied if `ok` counts as true. -/
def accepts (reply : Document) : Bool := ((reply.get? "ok").getD .null).isTruthy

def reason (reply : Document) : Value :=
  let given := (reply.get? "errmsg").getD .null
  if given.isTruthy then given else .text "unknown error"

end Reply

inductive Answer where
  | reply (r : Document)
  | fault (f : Fault)
  deriving Repr

def Answer.ofReply : Except Fault Document → Answer
  | .ok r => .reply r
  | .error f => .fault f

def Command.ofBatch (batch : List Entry) : Command :=
  .applyOps (.array (batch.map fun e => .document e.raw))

/-- The timestamp of the last entry applied is `null` as long as there is none. -/
structure Applier where
  calls : Nat := 0
  total : Nat := 0
  last : Value := .null
  deriving Repr, Inhabited

namespace Applier

/-- The command for a batch; an empty batch gets none. -/
def send? (a : Applier) (batch : List Entry) : Except Failure (Command × Applier) :=
  if batch.isEmpty then .error (.misuse .emptyBatch)
  else .ok (Command.ofBatch batch, { a with calls := a.calls + 1 })

def record (a : Applier) (batch : List Entry) (e : Entry) : Applier :=
  { a with total := a.total + batch.length, last := e.timestamp }

def event (a : Applier) (batch : List Entry) : Verdict → Event
  | .applied count last => .applied count a.total last
  | .rejected reason => .rejected batch.length reason

/-- The outcome of a batch that was sent. An applied batch is counted before the moment of its last
entry is asked for. -/
def receive (a : Applier) (batch : List Entry) : Answer → Except Failure Verdict × Applier
  | .fault f => (.error (.ofApplyFault f), a)
  | .reply r =>
    match batch.getLast? with
    | none => (.error (.misuse .emptyBatch), a)
    | some last =>
      if Reply.accepts r then
        (match last.moment? with
          | .ok moment => .ok (.applied batch.length moment)
          | .error e => .error (.kind e), a.record batch last)
      else (.ok (.rejected (Reply.reason r)), a)

def apply (a : Applier) (batch : List Entry) (answer : Answer) :
    Option Command × Except Failure Verdict × Applier :=
  match a.send? batch with
  | .error e => (none, .error e, a)
  | .ok (command, sent) =>
    let (outcome, settled) := sent.receive batch answer
    (some command, outcome, settled)

/-- Only what counts as true is asked for its seconds. -/
def stats (a : Applier) : Except KindError Document := do
  let last ← if a.last.isTruthy then (a.last.requireTimestamp "time").map some else .ok none
  return [
    ("apply_calls", .nat a.calls),
    ("applied_total", .nat a.total),
    ("last_applied", secondsValue last)]

end Applier

end OplogRelay
