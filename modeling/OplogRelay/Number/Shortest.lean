import OplogRelay.Number.Binary64
/-!
The decimal text of a binary64 number: the fewest digits that read back as the same number and,
of those, the ones nearest to it.
-/
namespace OplogRelay.Binary64

def leadingExponent (units : Nat) : Int :=
  if one ≤ units then ((Nat.toDigits 10 (units / one)).length : Int) - 1
  else
    match (List.range 330).find? fun j => decide (one ≤ units * Nat.pow 10 j) with
    | some j => -(j : Int)
    | none => -330

/-- The magnitudes that round to `units`, in quarters of a step; the ends count where the last
binary digit is even. -/
structure Cell where
  low : Nat
  high : Nat
  closed : Bool

def cell (units : Nat) : Cell :=
  let above := spacing units
  let below := if units = above <<< 52 ∧ 1 < above then above / 2 else above
  ⟨4 * units - 2 * below, 4 * units + 2 * above, (units / above) % 2 == 0⟩

/-- A decimal grid point `digits · 10 ^ exponent` as a quotient of quarter steps. -/
def gridPoint (digits : Nat) : Int → Nat × Nat
  | .ofNat e => (digits * Nat.pow 10 e * one * 4, 1)
  | .negSucc e => (digits * one * 4, Nat.pow 10 (e + 1))

def Cell.holds (c : Cell) (point : Nat × Nat) : Bool :=
  if c.closed then decide (c.low * point.2 ≤ point.1) && decide (point.1 ≤ c.high * point.2)
  else decide (c.low * point.2 < point.1) && decide (point.1 < c.high * point.2)

def distance (units : Nat) (point : Nat × Nat) : Nat :=
  let exact := 4 * units * point.2
  (point.1 - exact) + (exact - point.1)

/-- The grid point with `count` digits nearest to the magnitude, if it reads back; of two equally
near the even one. -/
def gridDigits? (units : Nat) (lead : Int) (count : Nat) : Option (Nat × Int) :=
  let exponent := lead - (count : Int) + 1
  let unitPoint := gridPoint 1 exponent
  let lower := 4 * units * unitPoint.2 / unitPoint.1
  let below := gridPoint lower exponent
  let above := gridPoint (lower + 1) exponent
  let dBelow := distance units below
  let dAbove := distance units above
  let lowerFirst := decide (dBelow < dAbove) || (dBelow == dAbove && lower % 2 == 0)
  let c := cell units
  let near := if lowerFirst then lower else lower + 1
  let far := if lowerFirst then lower + 1 else lower
  if c.holds (gridPoint near exponent) then some (near, exponent)
  else if c.holds (gridPoint far exponent) then some (far, exponent)
  else none

/-- The shortest digits of a nonzero magnitude, without trailing zeros, and the exponent of the
leading one. -/
def shortestDigits (units : Nat) : List Char × Int :=
  let lead := leadingExponent units
  let found := ((List.range 17).filterMap fun i => gridDigits? units lead (i + 1)).head?
  let (digits, exponent) := found.getD (0, lead)
  let text := Nat.toDigits 10 digits
  ((text.reverse.dropWhile (· == '0')).reverse, exponent + (text.length : Int) - 1)

/-- Positional from `0.0001` up to `9999999999999998.0`, scientific with two exponent digits at
least beyond. -/
def layout (digits : List Char) (lead : Int) : List Char :=
  let count := digits.length
  if -4 ≤ lead ∧ lead < 16 then
    if lead < 0 then
      ['0', '.'] ++ List.replicate (lead.natAbs - 1) '0' ++ digits
    else
      let whole := lead.toNat + 1
      if count ≤ whole then digits ++ List.replicate (whole - count) '0' ++ ['.', '0']
      else digits.take whole ++ ['.'] ++ digits.drop whole
  else
    let mantissa := match digits with
      | [] => []
      | [d] => [d]
      | d :: rest => d :: '.' :: rest
    let size := Nat.toDigits 10 lead.natAbs
    mantissa ++ ['e', if lead < 0 then '-' else '+'] ++
      List.replicate (2 - size.length) '0' ++ size

def text : Binary64 → String
  | .nan => "nan"
  | .infinity negative => if negative then "-inf" else "inf"
  | .finite negative units =>
    let body :=
      if units = 0 then ['0', '.', '0']
      else
        let (digits, lead) := shortestDigits units
        layout digits lead
    String.ofList (if negative then '-' :: body else body)

end OplogRelay.Binary64
