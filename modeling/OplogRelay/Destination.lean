import OplogRelay.Command
import OplogRelay.Fault
/-!
The destination server: it takes its time over each batch, and can be told to reject batches or to
fail. Commands are recorded as they come in, batches as they are applied, whatever they consist of.
-/
namespace OplogRelay

structure Destination where
  delay : Quantity := .whole 0
  rejection : Option String := none
  fault : Option Fault := none
  commands : List Command := []
  batches : List Value := []
  deriving Repr, Inhabited

namespace Destination

inductive Start where
  | fault (f : Fault)
  | reply (r : Document)
  | working (ops : Value) (duration : Span)
  deriving Repr

/-- A fault is decided at once, a rejection at the end of the delay. A delay that no clock can count
is a fault too. -/
def start (d : Destination) (c : Command) : Start × Destination :=
  let d' := { d with commands := d.commands ++ [c] }
  match d.fault, c with
  | some f, _ => (.fault f, d')
  | none, .other fields => (.reply (Reply.unknown fields), d')
  | none, .applyOps ops =>
    match d.delay.wait? with
    | .ok duration => (.working ops duration, d')
    | .error e => (.fault (.ofConversionError e), d')

/-- Without a delay the destination does not pause over a batch. -/
def isPrompt (d : Destination) : Bool := d.delay.isZero

/-- The batch is applied before it is counted, which fails if it has no length. -/
def complete (d : Destination) (ops : Value) : Except Fault Document × Destination :=
  match d.rejection with
  | some message => (.ok (Reply.rejected message), d)
  | none =>
    let d' := { d with batches := d.batches ++ [ops] }
    match ops.length? with
    | .ok count => (.ok (Reply.applied count), d')
    | .error e => (.error (.ofKindError e), d')

def applyCalls (d : Destination) : Nat := (d.commands.filter Command.isApplyOps).length

@[simp]
theorem commands_start (d : Destination) (c : Command) :
    (d.start c).2.commands = d.commands ++ [c] := by
  unfold start
  split
  · rfl
  · rfl
  · split <;> rfl

@[simp]
theorem batches_start (d : Destination) (c : Command) : (d.start c).2.batches = d.batches := by
  unfold start
  split
  · rfl
  · rfl
  · split <;> rfl

def appliedEntries (d : Destination) : List Value := d.batches.flatMap Value.parts

def batchSizes? (d : Destination) : Except KindError (List Nat) := d.batches.mapM Value.length?

end Destination

end OplogRelay
