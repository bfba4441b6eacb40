import OplogRelay.Kind
import OplogRelay.Number.Quantity
import OplogRelay.Text.Quoted
import OplogRelay.Timestamp
/-!
Values of documents: what log entries, commands and replies are made of.
-/
namespace OplogRelay

inductive Value where
  | null
  | bool (b : Bool)
  | number (n : Quantity)
  | text (s : String)
  | timestamp (t : Timestamp)
  | array (items : List Value)
  | document (fields : List (String × Value))
  deriving Repr, Inhabited, BEq

/-- The fields of a document, in order. -/
abbrev Document := List (String × Value)

namespace Value

def kindName : Value → String
  | null => "NoneType"
  | bool _ => "bool"
  | number (.whole _) => "int"
  | number (.real _) => "float"
  | text _ => "str"
  | timestamp _ => "Timestamp"
  | array _ => "list"
  | document _ => "dict"

/-- Zero, the empty text, array and document, `false` and `null` count as false. -/
def isTruthy : Value → Bool
  | null => false
  | bool b => b
  | number q => !q.isZero
  | text s => !s.isEmpty
  | timestamp _ => true
  | array items => !items.isEmpty
  | document fields => !fields.isEmpty

def timestamp? : Value → Option Timestamp
  | timestamp t => some t
  | _ => none

/-- The timestamp that a value is; `member` is the part of it that is asked for. -/
def requireTimestamp (member : String) : Value → Except KindError Timestamp
  | timestamp t => .ok t
  | v => .error (.noMember v.kindName member)

def amount? : Value → Option Quantity
  | bool b => some (.whole (if b then 1 else 0))
  | number q => some q
  | _ => none

/-- What a value is made of: the items of an array, the characters of a text, the names of the
fields of a document. Other values have no parts. -/
def parts? : Value → Option (List Value)
  | array items => some items
  | text s => some (s.toList.map fun c => text (String.singleton c))
  | document fields => some (fields.map fun f => text f.1)
  | _ => none

def parts (v : Value) : List Value := v.parts?.getD []

def length? (v : Value) : Except KindError Nat :=
  match v.parts? with
  | some parts => .ok parts.length
  | none => .error (.noLength v.kindName)

mutual

def quoted : Value → String
  | null => "None"
  | bool b => if b then "True" else "False"
  | number n => n.text
  | text s => Text.quoted s
  | timestamp t => s!"Timestamp({t.seconds}, {t.counter})"
  | array items => Text.bracketed (quotedItems items)
  | document fields => "\x7b" ++ ", ".intercalate (quotedFields fields) ++ "\x7d"

def quotedItems : List Value → List String
  | [] => []
  | v :: rest => quoted v :: quotedItems rest

def quotedFields : List (String × Value) → List String
  | [] => []
  | (key, v) :: rest => (Text.quoted key ++ ": " ++ quoted v) :: quotedFields rest

end

def shown : Value → String
  | text s => s
  | v => v.quoted

def int (n : Int) : Value := number (.whole n)

def nat (n : Nat) : Value := int (n : Int)

def float (x : Binary64) : Value := number (.real x)

def ofText? : Option String → Value
  | some s => text s
  | none => null

end Value

namespace Document

def get? (d : Document) (key : String) : Option Value := d.lookup key

def has (d : Document) (key : String) : Bool := (d.get? key).isSome

end Document

end OplogRelay
