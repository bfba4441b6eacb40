import OplogRelay.Number.Shortest
/-!
The decimal text of a binary64 number with a chosen number of digits: so many places behind the
point, so many digits of a mantissa, or the plainer of the two. The digits are those of the exact
value; what is halfway between two digits becomes the even one.
-/
namespace OplogRelay.Binary64

def paddedDigits (count n : Nat) : List Char :=
  let digits := Nat.toDigits 10 n
  List.replicate (count - digits.length) '0' ++ digits

structure Written where
  whole : List Char
  fraction : List Char
  exponent : Option Int

namespace Written

/-- An exponent has a sign and two digits at least. -/
def exponentText (exponent : Int) : List Char :=
  'e' :: (if exponent < 0 then '-' else '+') :: paddedDigits 2 exponent.natAbs

/-- A point that nothing follows is left out unless it is asked for. -/
def text (pointed : Bool) (w : Written) : List Char :=
  w.whole ++ (if w.fraction.isEmpty && !pointed then [] else '.' :: w.fraction) ++
    (w.exponent.map exponentText).getD []

end Written

def fixed (units places : Nat) : Written :=
  let digits := paddedDigits (places + 1) (roundDiv (units * Nat.pow 10 places) one)
  let cut := digits.length - places
  ⟨digits.take cut, digits.drop cut, none⟩

/-- The first digits of a magnitude, as many as `count`, and the exponent of the leading one. A
round of nines carries into the next exponent. -/
def significant (units count : Nat) : List Char × Int :=
  if units = 0 then (List.replicate count '0', 0)
  else
    let lead := leadingExponent units
    let unitPoint := gridPoint 1 (lead - (count : Int) + 1)
    let n := roundDiv (4 * units * unitPoint.2) unitPoint.1
    if n < Nat.pow 10 count then (paddedDigits count n, lead)
    else (paddedDigits count (n / 10), lead + 1)

def pointAfterFirst (digits : List Char) (lead : Int) : Written :=
  ⟨digits.take 1, digits.drop 1, some lead⟩

def scientific (units places : Nat) : Written :=
  let (digits, lead) := significant units (places + 1)
  pointAfterFirst digits lead

def pointAt (digits : List Char) (lead : Int) : Written :=
  if lead < 0 then ⟨['0'], List.replicate (lead.natAbs - 1) '0' ++ digits, none⟩
  else
    let count := lead.toNat + 1
    let whole := digits.take count
    ⟨whole ++ List.replicate (count - whole.length) '0', digits.drop count, none⟩

/-- So many digits in all: positional where the point stands among them or at most four places
before them, scientific otherwise. Zeros at the end are kept only if `pointed`. -/
def general (pointed : Bool) (units precision : Nat) : Written :=
  let count := max 1 precision
  let (digits, lead) := significant units count
  let kept := if pointed then digits else (digits.reverse.dropWhile (· == '0')).reverse
  let shown := if kept.isEmpty then ['0'] else kept
  if -4 ≤ lead ∧ lead < count then pointAt shown lead else pointAfterFirst shown lead

end OplogRelay.Binary64
