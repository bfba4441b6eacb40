/-!
Binary64 numbers by value: every finite one is a whole number of `2 ^ -1074` steps, so order,
truncation and rounding are exact arithmetic on natural numbers.
-/
namespace OplogRelay

/-- A finite number is `units · 2 ^ -1074` with a sign; the sign of zero counts. -/
inductive Binary64 where
  | nan
  | infinity (negative : Bool)
  | finite (negative : Bool) (units : Nat)
  deriving DecidableEq, Repr, Inhabited

namespace Binary64

/-- The number of steps in one. -/
def one : Nat := 1 <<< 1074

/-- The first magnitude that is too large to be finite. -/
def overflow : Nat := 1 <<< 2098

/-- The exponent of the leading binary digit of a number below `2 ^ 2 ^ k`, told by halves of its length. -/
def exponentBelow : Nat → Nat → Nat
  | 0, _ => 0
  | k + 1, n =>
    if n < 1 <<< (1 <<< k) then exponentBelow k n
    else (1 <<< k) + exponentBelow k (n >>> (1 <<< k))

/-- How often the distance to the next number has doubled below so many steps. -/
def doublings (units : Nat) : Nat :=
  (if units < 1 <<< (1 <<< 12) then exponentBelow 12 units else units.log2) - 52

/-- The distance from a magnitude to the next larger one. -/
def spacing (units : Nat) : Nat := 1 <<< doublings units

/-- The quotient rounded to the nearest whole number, a half to the even one. -/
def roundDiv (num den : Nat) : Nat :=
  let q := num / den
  let r := num % den
  if 2 * r < den then q else if den < 2 * r then q + 1 else q + q % 2

def nearest (negative : Bool) (num den : Nat) : Binary64 :=
  let width := spacing (num / den)
  let units := roundDiv num (den * width) * width
  if units < overflow then .finite negative units else .infinity negative

def ofInt? (n : Int) : Option Binary64 :=
  match nearest (decide (n < 0)) (n.natAbs * one) 1 with
  | .finite s u => some (.finite s u)
  | _ => none

/-- The number nearest to `digits · 10 ^ exponent`. Exponents far outside the range are decided by
the size of the number alone, so that no huge power is computed. -/
def ofDecimal (negative : Bool) (digits : Nat) (exponent : Int) : Binary64 :=
  let size := exponent + (Nat.toDigits 10 digits).length
  if digits = 0 ∨ size < -330 then .finite negative 0
  else if 310 < size then .infinity negative
  else match exponent with
    | .ofNat e => nearest negative (digits * Nat.pow 10 e * one) 1
    | .negSucc e => nearest negative (digits * one) (Nat.pow 10 (e + 1))

def IsFinite : Binary64 → Prop
  | .finite _ _ => True
  | _ => False

instance (x : Binary64) : Decidable x.IsFinite := by
  cases x <;> simp only [IsFinite] <;> infer_instance

def isPositive : Binary64 → Bool
  | .nan => false
  | .infinity negative => !negative
  | .finite negative units => !negative && units != 0

def isNonpositive : Binary64 → Bool
  | .nan => false
  | .infinity negative => negative
  | .finite negative units => negative || units == 0

def isZero : Binary64 → Bool
  | .finite _ units => units == 0
  | _ => false

def truncate (negative : Bool) (units : Nat) : Int :=
  if negative then -((units / one : Nat) : Int) else ((units / one : Nat) : Int)

def scale (k : Nat) : Binary64 → Binary64
  | .finite negative units => nearest negative (units * k) 1
  | x => x

/-- The interchange encoding of a magnitude. The leading binary digit, which is not stored, adds
one to the exponent. -/
def magnitudeBits (units : Nat) : Nat :=
  if units < 1 <<< 52 then units
  else
    (doublings units <<< 52) + (units >>> doublings units)

def signBit (negative : Bool) : Nat := if negative then 1 <<< 63 else 0

/-- The interchange encoding; a NaN has no encoding of its own here. -/
def bits? : Binary64 → Option Nat
  | .nan => none
  | .infinity negative => some (signBit negative + (2047 <<< 52))
  | .finite negative units => some (signBit negative + magnitudeBits units)

end Binary64

end OplogRelay
