import OplogRelay.Number.Binary64
import OplogRelay.Text.Blank
import OplogRelay.Text.Digit
import OplogRelay.Text.Cut
import OplogRelay.Text.Quoted
/-!
Numerals in settings. An integer is a sign and decimal digits of any script, single underscores
between them; a decimal numeral has a fraction and an exponent too, or names an infinity or NaN.
White space around either is ignored.
-/
namespace OplogRelay

inductive NumeralError where
  | notInteger (text : String)
  | tooManyDigits (count : Nat)
  | notDecimal (text : String)
  deriving DecidableEq, Repr

namespace Numeral

/-- The most digits an integer numeral may have. -/
def maxDigits : Nat := 4300

def isMargin (c : Char) : Bool := Text.isBlank c && !Text.isSeparator c

def sign : List Char → Bool × List Char
  | '+' :: rest => (false, rest)
  | '-' :: rest => (true, rest)
  | cs => (false, cs)

def isDigitOrUnderscore (c : Char) : Bool := Text.isDecimalDigit c || c == '_'

/-- Underscores stand between two digits only. -/
def wellSpaced (run : List Char) : Bool :=
  (Text.pieces '_' run).all fun piece => !piece.isEmpty

def digits (run : List Char) : List Nat := run.filterMap Text.digitValue?

def ofDigits (ds : List Nat) : Nat := ds.foldl (fun n d => 10 * n + d) 0

def integer? (text : String) : Except NumeralError Int :=
  let (negative, body) := sign (text.toList.dropWhile isMargin)
  let run := body.takeWhile isDigitOrUnderscore
  let rest := body.dropWhile isDigitOrUnderscore
  let ds := digits run
  if !wellSpaced run then .error (.notInteger text)
  else if maxDigits < ds.length then .error (.tooManyDigits ds.length)
  else if rest.all isMargin then
    .ok (if negative then -(ofDigits ds : Int) else (ofDigits ds : Int))
  else .error (.notInteger text)

def digitRun? (run : List Char) : Option (List Nat) :=
  if run.isEmpty then some []
  else if wellSpaced run then some (digits run)
  else none

/-- A signed exponent with at least one digit; nothing at all stands for zero. -/
def exponent? : List Char → Option Int
  | [] => some 0
  | c :: rest =>
    if c = 'e' ∨ c = 'E' then
      let (negative, run) := sign rest
      if run.all isDigitOrUnderscore && wellSpaced run then
        let n := ofDigits (digits run)
        some (if negative then -(n : Int) else (n : Int))
      else none
    else none

def unsignedDecimal? (negative : Bool) (cs : List Char) : Option Binary64 :=
  let word := String.ofList (cs.map Char.toLower)
  if word = "inf" ∨ word = "infinity" then some (.infinity negative)
  else if word = "nan" then some .nan
  else do
    let whole ← digitRun? (cs.takeWhile isDigitOrUnderscore)
    let afterWhole := cs.dropWhile isDigitOrUnderscore
    let fractionText := match afterWhole with
      | '.' :: rest => rest
      | _ => []
    let fraction ← digitRun? (fractionText.takeWhile isDigitOrUnderscore)
    let tail := match afterWhole with
      | '.' :: rest => rest.dropWhile isDigitOrUnderscore
      | rest => rest
    let power ← exponent? tail
    if whole.isEmpty && fraction.isEmpty then none
    else some (.ofDecimal negative (ofDigits (whole ++ fraction)) (power - fraction.length))

def decimal? (text : String) : Except NumeralError Binary64 :=
  let (negative, body) := sign (Text.trimWith isMargin text.toList)
  match unsignedDecimal? negative body with
  | some x => .ok x
  | none => .error (.notDecimal text)

end Numeral

/-- The quoted text of a refused integer is cut after this many characters. -/
def NumeralError.quoteLimit : Nat := 200

def NumeralError.message : NumeralError → String
  | .notInteger text =>
    "invalid literal for int() with base 10: " ++
      String.ofList ((Text.quoted text).toList.take quoteLimit)
  | .tooManyDigits count =>
    s!"Exceeds the limit ({Numeral.maxDigits} digits) for integer string conversion: " ++
      s!"value has {count} digits; use sys.set_int_max_str_digits() to increase the limit"
  | .notDecimal text => "could not convert string to float: " ++ Text.quoted text

end OplogRelay
