import OplogRelay.Number.Places
import OplogRelay.Template.Slot
import OplogRelay.Value
/-!
Filling the slots of a template with one value. The value goes into one slot as a whole; a document
also gives its fields to slots that name them, and is not missed where no slot takes it.
-/
namespace OplogRelay.Template

inductive Misfit where
  | noNames
  | noPosition
  | tooFew
  | tooMany
  | extentNotWhole
  | notReal (conversion : Char) (kindName : String)
  | notWhole (conversion : Char) (kindName : String)
  | notNumber (kindName : String)
  | notCharacter
  deriving DecidableEq, Repr

def Misfit.message : Misfit → String
  | .noNames => "format requires a mapping"
  | .noPosition => "list indices must be integers or slices, not str"
  | .tooFew => "not enough arguments for format string"
  | .tooMany => "not all arguments converted during string formatting"
  | .extentNotWhole => "* wants int"
  | .notReal c kindName => s!"%{c} format: a real number is required, not {kindName}"
  | .notWhole c kindName => s!"%{c} format: an integer is required, not {kindName}"
  | .notNumber kindName => s!"must be real number, not {kindName}"
  | .notCharacter => "%c requires int or char"

inductive Excess where
  | width
  | precision
  | digits
  | codePoint
  deriving DecidableEq, Repr

def Excess.message : Excess → String
  | .width => "Python int too large to convert to C ssize_t"
  | .precision => "Python int too large to convert to C int"
  | .digits => "precision too large"
  | .codePoint => "%c arg not in range(0x110000)"

inductive FillError where
  | flaw (e : Flaw)
  | misfit (e : Misfit)
  | excess (e : Excess)
  | noField (key : String)
  | conversion (e : ConversionError)
  | outOfMemory
  deriving DecidableEq, Repr

def FillError.message : FillError → String
  | .flaw e => e.message
  | .misfit e => e.message
  | .excess e => e.message
  | .noField key => Text.quoted key
  | .conversion e => e.message
  | .outOfMemory => ""

structure Supply where
  whole : Value
  current : Option Value

namespace Supply

def ofValue (v : Value) : Supply := ⟨v, some v⟩

/-- Values that are looked into by name. Arrays are, if always in vain. -/
def hasNames (s : Supply) : Bool :=
  match s.whole with
  | .array _ | .document _ => true
  | _ => false

def choose? (s : Supply) : Naming → Except FillError Supply
  | .next => .ok s
  | .unclosed => .error (if s.hasNames then .flaw .unclosedKey else .misfit .noNames)
  | .named key =>
    match s.whole with
    | .document fields =>
      match Document.get? fields key with
      | some v => .ok { s with current := some v }
      | none => .error (.noField key)
    | .array _ => .error (.misfit .noPosition)
    | _ => .error (.misfit .noNames)

def take? (s : Supply) : Except FillError (Value × Supply) :=
  match s.current with
  | some v => .ok (v, { s with current := none })
  | none => .error (.misfit .tooFew)

/-- A value that no slot has taken is left over, unless slots could have named parts of it. -/
def isLeftOver (s : Supply) : Bool := s.current.isSome && !s.hasNames

def takeWhole? (s : Supply) (bound : Nat) (excess : Excess) :
    Except FillError (Int × Supply) := do
  let (v, rest) ← s.take?
  match v.amount? with
  | some (.whole n) =>
    if -(bound : Int) - 1 ≤ n ∧ n ≤ bound then return (n, rest) else .error (.excess excess)
  | _ => .error (.misfit .extentNotWhole)

end Supply

/-- A converted value: a sign and the mark of a base, if it has them, then the rest. Only in numbers
do zeros stand in for blanks. -/
structure Converted where
  numeric : Bool
  head : List Char
  body : List Char

/-- A sign goes in front of a number that is negative, and of others if it is asked for. -/
def signOf (marks : Marks) (negative : Bool) : List Char :=
  if negative then ['-'] else if marks.signed then ['+'] else if marks.spaced then [' '] else []

namespace Converted

def ofText (precision : Option Nat) (s : String) : Converted :=
  ⟨false, [], match precision with
    | some n => s.toList.take n
    | none => s.toList⟩

/-- Digits are filled up with zeros to the precision. -/
def ofWhole (marks : Marks) (precision : Option Nat) (c : Char) (n : Int) : Converted :=
  let base := if c = 'o' then 8 else if c = 'x' ∨ c = 'X' then 16 else 10
  let digits := Nat.toDigits base n.natAbs
  let padded := List.replicate (precision.getD 0 - digits.length) '0' ++ digits
  let baseMark := if marks.alternate && base != 10 then ['0', c] else []
  ⟨true, signOf marks (decide (n < 0)) ++ baseMark,
    if c = 'X' then padded.map Char.toUpper else padded⟩

/-- Six places unless a precision is given. The capital letters of the conversions make for capital
letters in the text. -/
def ofReal (marks : Marks) (precision : Option Nat) (c : Char) (x : Binary64) : Converted :=
  let places := precision.getD 6
  let cased := fun cs : List Char => if c.isUpper then cs.map Char.toUpper else cs
  match x with
  | .nan => ⟨true, signOf marks false, cased ['n', 'a', 'n']⟩
  | .infinity negative => ⟨true, signOf marks negative, cased ['i', 'n', 'f']⟩
  | .finite negative units =>
    let written := match c.toLower with
      | 'f' => Binary64.fixed units places
      | 'e' => Binary64.scientific units places
      | _ => Binary64.general marks.alternate units places
    ⟨true, signOf marks negative, cased (written.text marks.alternate)⟩

/-- Filled up to the width: with blanks on the right or the left, or with zeros behind the head. -/
def layout (marks : Marks) (width : Nat) (r : Converted) : List Char :=
  let room := width - (r.head.length + r.body.length)
  if marks.left then r.head ++ r.body ++ List.replicate room ' '
  else if r.numeric && marks.zeros then r.head ++ List.replicate room '0' ++ r.body
  else List.replicate room ' ' ++ r.head ++ r.body

theorem length_layout (marks : Marks) (width : Nat) (r : Converted) :
    (r.layout marks width).length = max width (r.head.length + r.body.length) := by
  unfold layout
  dsimp only
  split
  · simp only [List.length_append, List.length_replicate]
    omega
  · split <;> simp only [List.length_append, List.length_replicate] <;> omega

end Converted

def wholeOf? (c : Char) (v : Value) : Except FillError Int :=
  match v.amount? with
  | some q =>
    match q.integerPart? with
    | .ok n => .ok n
    | .error e => .error (.conversion e)
  | none => .error (.misfit (.notReal c v.kindName))

def exactOf? (c : Char) (v : Value) : Except FillError Int :=
  match v.amount? with
  | some (.whole n) => .ok n
  | _ => .error (.misfit (.notWhole c v.kindName))

def realOf? (v : Value) : Except FillError Binary64 :=
  match v.amount? with
  | some (.real x) => .ok x
  | some (.whole n) =>
    match Binary64.ofInt? n with
    | some x => .ok x
    | none => .error (.conversion .tooLarge)
  | none => .error (.misfit (.notNumber v.kindName))

def characterOf? (v : Value) : Except FillError Char :=
  match v, v.amount? with
  | .text s, _ =>
    match s.toList with
    | [c] => .ok c
    | _ => .error (.misfit .notCharacter)
  | _, some (.whole n) =>
    if 0 ≤ n ∧ n < 0x110000 then .ok (Char.ofNat n.toNat) else .error (.excess .codePoint)
  | _, _ => .error (.misfit .notCharacter)

/-- The digits of a number are no more than a precision below the largest ones. -/
def checkDigits (precision : Option Nat) : Except FillError Unit :=
  if maxPrecision - 3 < precision.getD 0 then .error (.excess .digits) else .ok ()

def convert? (marks : Marks) (precision : Option Nat) (c : Char) (place : Nat) (v : Value) :
    Except FillError Converted := do
  match c with
  | 's' => return .ofText precision v.shown
  | 'r' => return .ofText precision v.quoted
  | 'a' => return .ofText precision (Text.asciiOnly v.quoted)
  | 'c' => return ⟨false, [], [← characterOf? v]⟩
  | 'd' | 'i' | 'u' =>
    let n ← wholeOf? c v
    checkDigits precision
    return .ofWhole marks precision c n
  | 'o' | 'x' | 'X' =>
    let n ← exactOf? c v
    checkDigits precision
    return .ofWhole marks precision c n
  | 'e' | 'E' | 'f' | 'F' | 'g' | 'G' => return .ofReal marks precision c (← realOf? v)
  | c => .error (.flaw (.unknownConversion c place))

/-- No text of more characters than this is laid out. -/
def roomiest : Nat := 1 <<< 32

def width? (s : Slot) (supply : Supply) : Except FillError (Nat × Marks × Supply) := do
  match s.width with
  | .unset => return (0, s.marks, supply)
  | .fixed n => return (n, s.marks, supply)
  | .argument =>
    let (n, rest) ← supply.takeWhole? maxWidth .width
    return (n.natAbs, { s.marks with left := s.marks.left || decide (n < 0) }, rest)

/-- The precision of a slot; a negative one counts as zero. -/
def precision? (s : Slot) (supply : Supply) : Except FillError (Option Nat × Supply) := do
  match s.precision with
  | .unset => return (none, supply)
  | .fixed n => return (some n, supply)
  | .argument =>
    let (n, rest) ← supply.takeWhole? maxPrecision .precision
    return (some n.toNat, rest)

/-- The text of one slot, in the order in which the slot is read. -/
def Slot.fill? (s : Slot) (supply : Supply) : Except FillError (List Char × Supply) := do
  let supply ← supply.choose? s.naming
  let (width, marks, supply) ← width? s supply
  let (precision, supply) ← precision? s supply
  match s.ending with
  | .error e => .error (.flaw e)
  | .ok (c, place) =>
    let (v, supply) ← supply.take?
    let converted ← convert? marks precision c place v
    if roomiest < width then .error .outOfMemory
    else return (converted.layout marks width, supply)

def fillPieces : List Piece → Supply → Except FillError (List Char)
  | [], supply => if supply.isLeftOver then .error (.misfit .tooMany) else .ok []
  | .literal c :: rest, supply => (fillPieces rest supply).map (c :: ·)
  | .slot s :: rest, supply =>
    match s.fill? supply with
    | .error e => .error e
    | .ok (text, supply) => (fillPieces rest supply).map (text ++ ·)

def fill? (template : String) (v : Value) : Except FillError String :=
  (fillPieces (pieces template) (.ofValue v)).map String.ofList

theorem fillPieces_literals (cs : List Char) (supply : Supply) (h : supply.isLeftOver = false) :
    fillPieces (cs.map Piece.literal) supply = .ok cs := by
  induction cs with
  | nil => simp [fillPieces, h]
  | cons c rest ih => simp [fillPieces, ih, Except.map]

/-- A template without slots comes out as it is for a value that may go unused. -/
theorem fill?_of_not_mem {template : String} {v : Value} (h : '%' ∉ template.toList)
    (hv : (Supply.ofValue v).hasNames = true) : fill? template v = .ok template := by
  have hl : (Supply.ofValue v).isLeftOver = false := by simp [Supply.isLeftOver, hv]
  simp [fill?, pieces, piecesFrom_of_not_mem h, fillPieces_literals _ _ hl, Except.map]

end OplogRelay.Template
