import OplogRelay.Value
/-!
The query of a tail: documents whose `ts` is not below a bound.
-/
namespace OplogRelay.Query

def fromThreshold (t : Timestamp) : Document := [("ts", .document [("$gte", .timestamp t)])]

/-- The bound of a query, whatever its kind; without one it is the first timestamp of all. -/
def threshold? (query : Document) : Except KindError Value :=
  match query.get? "ts" with
  | none => .ok (.timestamp .origin)
  | some (.document bounds) => .ok ((Document.get? bounds "$gte").getD (.timestamp .origin))
  | some v => .error (.noMember v.kindName "get")

@[simp]
theorem threshold?_fromThreshold (t : Timestamp) :
    threshold? (fromThreshold t) = .ok (.timestamp t) := rfl

end OplogRelay.Query
