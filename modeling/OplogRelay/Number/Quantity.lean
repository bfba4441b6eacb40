import OplogRelay.Number.Moment
import OplogRelay.Number.Shortest
/-!
Numbers as they are written, whole or with a fraction, and the spans of time they stand for. A span is
exact; the moments that it leads to are those of the clock.
-/
namespace OplogRelay

/-- A whole number and a binary64 number of the same value differ in their text. -/
inductive Quantity where
  | whole (n : Int)
  | real (x : Binary64)
  deriving DecidableEq, Repr, Inhabited

/-- A length of time in least binary64 steps of a second, possibly without end. -/
inductive Span where
  | finite (steps : Int)
  | unbounded
  deriving DecidableEq, Repr, Inhabited

namespace Span

def seconds (n : Nat) : Span := .finite (n * Binary64.one)

/-- The sum of a moment and a span, both as the clock has them. A span that is not positive adds nothing. -/
def after (start : Nat) : Span → Option Nat
  | .finite steps =>
    some (Moment.nearest (Moment.steps start + Moment.steps (Moment.nearest steps.toNat)))
  | .unbounded => none

def arrival (start : Nat) (s : Span) : Nat := (s.after start).getD (max start Moment.infinity)

/-- The moment at which a span from the beginning of time ends, which may be before it. -/
def moment? : Span → Option Int
  | .finite steps =>
    let place := Moment.nearest steps.natAbs
    some (if steps < 0 then -(place : Int) else place)
  | .unbounded => none

def elapsed (start now : Nat) : Span → Bool
  | .finite steps => decide (steps ≤ (Moment.gap start now : Int))
  | .unbounded => false

def IsPositive : Span → Prop
  | .finite steps => 0 < steps
  | .unbounded => True

instance (s : Span) : Decidable s.IsPositive := by
  cases s <;> simp only [IsPositive] <;> infer_instance

end Span

namespace Quantity

def text : Quantity → String
  | .whole n => toString n
  | .real x => x.text

def steps : Quantity → Int
  | .whole n => n * (Binary64.one : Nat)
  | .real (.finite negative units) => if negative then -(units : Int) else (units : Int)
  | .real _ => 0

/-- The span of so many seconds. A NaN, which no moment reaches, has no end. -/
def span (q : Quantity) : Span :=
  match q with
  | .real .nan | .real (.infinity false) => .unbounded
  | .real (.infinity true) => .finite (-1)
  | q => .finite q.steps

def isNonpositive : Quantity → Bool
  | .whole n => decide (n ≤ 0)
  | .real x => x.isNonpositive

def isZero : Quantity → Bool
  | .whole n => n == 0
  | .real x => x.isZero

end Quantity

/-- Why a number has no integer part, or no binary64 number near it. -/
inductive ConversionError where
  | ofNaN
  | ofInfinity
  | tooLarge
  deriving DecidableEq, Repr

def ConversionError.message : ConversionError → String
  | .ofNaN => "cannot convert float NaN to integer"
  | .ofInfinity => "cannot convert float infinity to integer"
  | .tooLarge => "int too large to convert to float"

def Binary64.integerPart? : Binary64 → Except ConversionError Int
  | .nan => .error .ofNaN
  | .infinity _ => .error .ofInfinity
  | .finite negative units => .ok (truncate negative units)

namespace Quantity

def integerPart? : Quantity → Except ConversionError Int
  | .whole n => .ok n
  | .real x => x.integerPart?

def thousandfold? : Quantity → Except ConversionError Int
  | .whole n => .ok (1000 * n)
  | .real x => (x.scale 1000).integerPart?

/-- Whether the clock, which counts in binary64 numbers, can be set forward by so many seconds. -/
def clockable? (q : Quantity) : Except ConversionError Unit :=
  match q with
  | .whole n => if (Binary64.ofInt? n).isSome then .ok () else .error .tooLarge
  | .real _ => .ok ()

/-- The span that a wait of so many seconds lasts. The clock is asked only where there is a wait. -/
def wait? (q : Quantity) : Except ConversionError Span :=
  if q.isNonpositive then .ok q.span
  else match q.clockable? with
    | .ok () => .ok q.span
    | .error e => .error e

def beyond : Quantity → Int
  | .real (.infinity negative) => if negative then -1 else 1
  | _ => 0

/-- The order of two numbers by value, whatever their form; a NaN has no place in it. -/
def order? (a b : Quantity) : Option Ordering :=
  if a = .real .nan ∨ b = .real .nan then none
  else some ((compare a.beyond b.beyond).then (compare a.steps b.steps))

end Quantity

end OplogRelay
