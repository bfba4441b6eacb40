import OplogRelay.Value
/-!
What is given for a setting: a value, or nothing, as when a switch is given and the mark that ends
the switches stands in place of its value. Nothing counts as false, is written as an empty array
and takes part in no operation.
-/
namespace OplogRelay

inductive Given (α : Type) where
  | value (a : α)
  | nothing
  deriving DecidableEq, Repr, Inhabited

namespace Given

variable {α : Type}

def toValue (f : α → Value) : Given α → Value
  | value a => f a
  | nothing => .array []

def kindName : String := (Value.array []).kindName

def require (e : String → KindError) : Given α → Except KindError α
  | value a => .ok a
  | nothing => .error (e kindName)

def value? : Given α → Option α
  | value a => some a
  | nothing => none

@[simp]
theorem require_value (e : String → KindError) (a : α) : (value a).require e = .ok a := rfl

end Given

end OplogRelay
