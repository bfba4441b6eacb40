import OplogRelay.Run.Basic
import OplogRelay.Session.Client
/-!
A run as settings describe it: providers for both servers and the numbers of the run, checked as
far as they are used.
-/
namespace OplogRelay

structure Blueprint where
  destination : ClientProvider
  source : ClientProvider
  ns : String
  lookback : Int
  idle : Binary64
  maxBatch : Int
  interval : Binary64
  deriving Repr, Inhabited

namespace Blueprint

/-- The destination is written to through its primary, the source read from its nearest member;
neither has a socket timeout, so that no slow batch is cut short. -/
def providers? (s : Settings) : Except Failure (ClientProvider × ClientProvider) := do
  let destination ← ClientProvider.make? s.destination .primary none
  let source ← ClientProvider.make? s.sourceConnection .nearest none
  return (destination, source)

def draft (source destination : ClientProvider) (ns : String) (opening : Opening)
    (idle : Quantity) : Run.Plan where
  ns := ns
  opening := opening
  idle := idle
  source := { name := source.describe }
  destination := { name := destination.describe }

def plan? (b : Blueprint) (clock : Quantity) : Except MisuseError Run.Plan :=
  let opening : Opening := { lookback := b.lookback, clock := clock }
  (draft b.source b.destination b.ns opening (.real b.idle)).make? b.maxBatch (.real b.interval)

def ofSettings? (s : Settings) : Except Failure Blueprint := do
  let (destination, source) ← providers? s
  let b : Blueprint := {
    destination := destination
    source := source
    ns := ← Settings.operand s.source.oplog (.noMember · "partition")
    lookback := ← Settings.operand s.source.lookback (Settings.compared "<")
    idle := ← Settings.operand s.source.idleWait (Settings.compared "<=")
    maxBatch := ← Settings.operand s.batch.maxSize (Settings.compared "<")
    interval := ← Settings.operand s.batch.flushInterval (Settings.compared "<=") }
  match b.plan? (.whole 0) with
  | .error e => .error (.misuse e)
  | .ok _ => return b

end Blueprint

end OplogRelay
