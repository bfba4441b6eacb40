import OplogRelay.Template.Fill
/-!
The time that a line of text begins with, `2024-01-31 09:05:00,123`. Nobody asks for it: all that
shows of it is how far it goes beyond its usual length, or stays behind.
-/
namespace OplogRelay.Logging

inductive StampError where
  | notWhole (kindName : String)
  | ofNaN
  | outOfRange
  | yearOutOfRange
  | yearTooLarge
  deriving DecidableEq, Repr

def StampError.message : StampError → String
  | .notWhole kindName => s!"'{kindName}' object cannot be interpreted as an integer"
  | .ofNaN => "Invalid value NaN (not a number)"
  | .outOfRange => "timestamp out of range for platform time_t"
  | .yearOutOfRange => "[Errno 75] Value too large for defined data type"
  | .yearTooLarge => "signed integer is greater than maximum"

namespace Stamp

structure Date where
  year : Int
  month : Nat
  day : Nat

/-- The date of a day counted from the beginning of 1970. Counted from the first of March of the
year zero, with the leap day at the end of a year, months and years begin at regular distances. -/
def Date.ofDays (days : Int) : Date :=
  let shifted := days + 719468
  let cycle := shifted.fdiv 146097
  let dayOfCycle := (shifted.fmod 146097).toNat
  let yearOfCycle :=
    (dayOfCycle - dayOfCycle / 1460 + dayOfCycle / 36524 - dayOfCycle / 146096) / 365
  let dayOfYear := dayOfCycle - (365 * yearOfCycle + yearOfCycle / 4 - yearOfCycle / 100)
  let monthFromMarch := (5 * dayOfYear + 2) / 153
  let month := if monthFromMarch < 10 then monthFromMarch + 3 else monthFromMarch - 9
  ⟨400 * cycle + yearOfCycle + (if month ≤ 2 then 1 else 0), month,
    dayOfYear - (153 * monthFromMarch + 2) / 5 + 1⟩

example : (Date.ofDays 0).year = 1970 ∧ (Date.ofDays 0).month = 1 ∧ (Date.ofDays 0).day = 1 := by
  decide

example : (Date.ofDays 11016).year = 2000 ∧ (Date.ofDays 11016).month = 2 ∧
    (Date.ofDays 11016).day = 29 := by
  decide

/-- Years are counted from 1900 in 32 bits and printed from zero in as many. -/
def checkYear (year : Int) : Except StampError Unit :=
  if year - 1900 < -0x80000000 ∨ 0x7fffffff < year - 1900 then .error .yearOutOfRange
  else if 0x7fffffff < year then .error .yearTooLarge
  else .ok ()

def two (n : Nat) : String := String.ofList (Binary64.paddedDigits 2 n)

/-- Date and time of day; only the year has no width of its own. -/
def text? (seconds : Int) : Except StampError String := do
  let date := Date.ofDays (seconds.fdiv 86400)
  checkYear date.year
  let time := (seconds.fmod 86400).toNat
  return s!"{date.year}-{two date.month}-{two date.day} " ++
    s!"{two (time / 3600)}:{two (time / 60 % 60)}:{two (time % 60)}"

/-- Seconds are signed integers of 64 bits. -/
def inRange (seconds : Int) : Except StampError Int :=
  if -0x8000000000000000 ≤ seconds ∧ seconds < 0x8000000000000000 then .ok seconds
  else .error .outOfRange

def floor (negative : Bool) (units : Nat) : Int :=
  if negative then -(((units + (Binary64.one - 1)) / Binary64.one : Nat) : Int)
  else ((units / Binary64.one : Nat) : Int)

def seconds? (v : Value) : Except StampError Int :=
  match v.amount? with
  | some (.whole n) => inRange n
  | some (.real .nan) => .error .ofNaN
  | some (.real (.infinity _)) => .error .outOfRange
  | some (.real (.finite negative units)) => inRange (floor negative units)
  | none => .error (.notWhole v.kindName)

/-- Where nothing is said of the moment it is the present, in a year of four digits. -/
def usual : String := "2024-01-31 09:05:00"

def width : Nat := 23

end Stamp

end OplogRelay.Logging
