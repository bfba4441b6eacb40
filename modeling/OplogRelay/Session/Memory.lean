import OplogRelay.Destination.Workload
import OplogRelay.Source.Oplog
import OplogRelay.Source.Query
/-!
Sessions over servers that live in memory, and the provider that hands out one such session or
always fails.
-/
namespace OplogRelay

structure MemorySession where
  hasOplog : Bool := false
  destination : Option Workload := none
  tails : List Cursor := []
  closed : Bool := false
  deriving Repr, Inhabited

namespace MemorySession

def command (s : MemorySession) (c : Command) : Except Fault Document × MemorySession :=
  match s.destination with
  | none => (.ok Reply.unattached, s)
  | some w =>
    let (reply, w') := w.run c
    (reply, { s with destination := some w' })

def tail (s : MemorySession) (ns : Namespace) (query : Document) (idle : Value) :
    Except Failure Cursor × MemorySession :=
  if s.hasOplog then
    match Query.threshold? query with
    | .error e => (.error (.kind e), s)
    | .ok threshold =>
      let cursor : Cursor := { threshold := threshold, await := idle }
      (.ok cursor, { s with tails := s.tails ++ [cursor] })
  else (.error (.connection (.noOplog ns)), s)

def close (s : MemorySession) : MemorySession := { s with closed := true }

end MemorySession

structure MemoryProvider where
  session : MemorySession := {}
  name : String := "memory"
  error : Option String := none
  requests : Nat := 0
  deriving Repr, Inhabited

namespace MemoryProvider

/-- A request is counted whether it succeeds or not. -/
def request (p : MemoryProvider) : Except ConnectionError MemorySession × MemoryProvider :=
  let asked := { p with requests := p.requests + 1 }
  match p.error with
  | some text => (.error (.unreachable p.name text), asked)
  | none => (.ok p.session, asked)

end MemoryProvider

end OplogRelay
