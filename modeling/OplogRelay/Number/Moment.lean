import OplogRelay.Number.Binary64
/-!
Moments of a clock that counts seconds in binary64 numbers. A moment is told by its place in the row of
these numbers from zero on, so that a later moment has a higher place and the next place is the next
moment that the clock can tell.
-/
namespace OplogRelay.Moment

/-- The number at a place, in least steps. The first `2 ^ 53` places lie one step apart; from there on
the distance doubles every `2 ^ 52` places. -/
def steps (place : Nat) : Nat :=
  if place < 1 <<< 53 then place
  else ((1 <<< 52) + place % (1 <<< 52)) <<< (place / (1 <<< 52) - 1)

/-- The place of the number nearest to so many steps, of the even one for a half. -/
def nearest (steps : Nat) : Nat :=
  (Binary64.doublings steps <<< 52) + Binary64.roundDiv steps (Binary64.spacing steps)

/-- Where the finite numbers end. No clock gets there; the row goes on as before. -/
def infinity : Nat := 2047 <<< 52

/-- The difference of a moment and an earlier one, which is rounded too. -/
def gap (start moment : Nat) : Nat := steps (nearest (steps moment - steps start))

end OplogRelay.Moment
