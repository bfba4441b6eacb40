import OplogRelay.Number.Numeral
import OplogRelay.Value
/-!
Values from JSON text. A number is one with a fraction if it is written with a point or an
exponent; of two fields of one name the later one stays.
-/
namespace OplogRelay.Json

inductive Error where
  | unfinished
  | unexpected (c : Char)
  | badNumber (text : String)
  deriving DecidableEq, Repr

def Error.message : Error → String
  | .unfinished => "unfinished JSON text"
  | .unexpected c => s!"unexpected character in JSON text: {c}"
  | .badNumber text => s!"bad number in JSON text: {text}"

def skipBlank (cs : List Char) : List Char := cs.dropWhile Char.isWhitespace

def hexValue (cs : List Char) : Nat :=
  cs.foldl (fun n c => n * 16 + (if c.isDigit then c.toNat - 48 else c.toLower.toNat - 87)) 0

def joinHalves? (high low : Nat) : Option Char :=
  if 0xD800 ≤ high ∧ high < 0xDC00 ∧ 0xDC00 ≤ low ∧ low < 0xE000 then
    some (Char.ofNat (0x10000 + (high - 0xD800) * 1024 + (low - 0xDC00)))
  else none

def unescape : Char → Char
  | 'n' => '\n'
  | 't' => '\t'
  | 'r' => '\r'
  | 'b' => '\x08'
  | 'f' => '\x0c'
  | c => c

/-- The rest of a text behind its opening quote; `acc` holds what was read, last character first. -/
def readText (acc : List Char) : List Char → Except Error (String × List Char)
  | '"' :: rest => .ok (String.ofList acc.reverse, rest)
  | '\\' :: 'u' :: a :: b :: c :: d :: '\\' :: 'u' :: e :: f :: g :: h :: rest =>
    match joinHalves? (hexValue [a, b, c, d]) (hexValue [e, f, g, h]) with
    | some joined => readText (joined :: acc) rest
    | none =>
      readText (Char.ofNat (hexValue [a, b, c, d]) :: acc) ('\\' :: 'u' :: e :: f :: g :: h :: rest)
  | '\\' :: 'u' :: a :: b :: c :: d :: rest =>
    readText (Char.ofNat (hexValue [a, b, c, d]) :: acc) rest
  | '\\' :: c :: rest => readText (unescape c :: acc) rest
  | c :: rest => readText (c :: acc) rest
  | [] => .error .unfinished
termination_by cs => cs.length

def isNumeral (c : Char) : Bool := c.isDigit || ['+', '-', '.', 'e', 'E'].contains c

def readNumber (text : String) : Except Error Value :=
  if text.toList.any fun c => ['.', 'e', 'E'].contains c then
    match Numeral.decimal? text with
    | .ok x => .ok (.float x)
    | .error _ => .error (.badNumber text)
  else match text.toInt? with
    | some n => .ok (.int n)
    | none => .error (.badNumber text)

def words : List (List Char × Value) := [
  ("null".toList, .null), ("true".toList, .bool true), ("false".toList, .bool false),
  ("NaN".toList, .float .nan), ("Infinity".toList, .float (.infinity false)),
  ("-Infinity".toList, .float (.infinity true))]

def readScalar (cs : List Char) : Except Error (Value × List Char) :=
  match words.find? fun w => w.1.isPrefixOf cs with
  | some (word, v) => .ok (v, cs.drop word.length)
  | none =>
    match cs with
    | [] => .error .unfinished
    | c :: _ =>
      if isNumeral c then
        (readNumber (String.ofList (cs.takeWhile isNumeral))).map fun v =>
          (v, cs.dropWhile isNumeral)
      else .error (.unexpected c)

mutual

/-- Reads one value. Each level of nesting and each item uses up fuel, of which the length of the
text is enough. -/
def readValue : Nat → List Char → Except Error (Value × List Char)
  | 0, _ => .error .unfinished
  | fuel + 1, cs =>
    match skipBlank cs with
    | '"' :: rest => (readText [] rest).map fun (s, more) => (.text s, more)
    | '[' :: rest =>
      match skipBlank rest with
      | ']' :: more => .ok (.array [], more)
      | _ => readItems fuel [] rest
    | '\x7b' :: rest =>
      match skipBlank rest with
      | '\x7d' :: more => .ok (.document [], more)
      | _ => readFields fuel [] rest
    | rest => readScalar rest

def readItems : Nat → List Value → List Char → Except Error (Value × List Char)
  | 0, _, _ => .error .unfinished
  | fuel + 1, acc, cs => do
    let (v, rest) ← readValue fuel cs
    match skipBlank rest with
    | ',' :: more => readItems fuel (v :: acc) more
    | ']' :: more => return (.array (v :: acc).reverse, more)
    | c :: _ => .error (.unexpected c)
    | [] => .error .unfinished

def readFields : Nat → Document → List Char → Except Error (Value × List Char)
  | 0, _, _ => .error .unfinished
  | fuel + 1, acc, cs =>
    match skipBlank cs with
    | '"' :: rest => do
      let (key, afterKey) ← readText [] rest
      match skipBlank afterKey with
      | ':' :: more =>
        let (v, afterValue) ← readValue fuel more
        let fields := (key, v) :: acc.filter fun f => f.1 != key
        match skipBlank afterValue with
        | ',' :: next => readFields fuel fields next
        | '\x7d' :: next => return (.document fields.reverse, next)
        | c :: _ => .error (.unexpected c)
        | [] => .error .unfinished
      | c :: _ => .error (.unexpected c)
      | [] => .error .unfinished
    | c :: _ => .error (.unexpected c)
    | [] => .error .unfinished

end

def read (text : String) : Except Error Value := do
  let cs := text.toList
  let (v, rest) ← readValue (cs.length + 1) cs
  match skipBlank rest with
  | [] => return v
  | c :: _ => .error (.unexpected c)

end OplogRelay.Json
