/-!
Operations asked of values whose kind does not have them.
-/
namespace OplogRelay

inductive KindError where
  | noMember (kindName member : String)
  | incomparable (relation left right : String)
  | unsupported (operator left right : String)
  | noLength (kindName : String)
  | noInteger (kindName : String)
  | noItems (kindName : String)
  | notText (kindName : String)
  | notCallable (kindName : String)
  deriving DecidableEq, Repr

def KindError.message : KindError → String
  | .noMember kindName member => s!"'{kindName}' object has no attribute '{member}'"
  | .incomparable relation left right =>
    s!"'{relation}' not supported between instances of '{left}' and '{right}'"
  | .unsupported operator left right =>
    s!"unsupported operand type(s) for {operator}: '{left}' and '{right}'"
  | .noLength kindName => s!"object of type '{kindName}' has no len()"
  | .noInteger kindName =>
    s!"int() argument must be a string, a bytes-like object or a real number, not '{kindName}'"
  | .noItems kindName => s!"'{kindName}' object is not subscriptable"
  | .notText kindName => s!"can only concatenate str (not \"{kindName}\") to str"
  | .notCallable kindName => s!"'{kindName}' object is not callable"

end OplogRelay
