import OplogRelay.Value
/-!
Values as JSON text. Text stays as it is but for quotes, backslashes and controls; how numbers with
a fraction and timestamps look is up to the style.
-/
namespace OplogRelay.Json

structure Style where
  float : Binary64 → String
  timestamp : Timestamp → String

/-- Numbers in their shortest text, timestamps as messages have them. -/
def plain : Style where
  float := Binary64.text
  timestamp t := Text.quoted (Value.timestamp t).quoted

def escape (c : Char) : List Char :=
  if c = '"' ∨ c = '\\' then ['\\', c]
  else if c.toNat < 32 then ['\\', 'u'] ++ Text.hex 4 c.toNat
  else [c]

def writeText (s : String) : String := "\"" ++ String.ofList (s.toList.flatMap escape) ++ "\""

def enclose (opening closing : String) (parts : List String) : String :=
  opening ++ ",".intercalate parts ++ closing

mutual

def write (style : Style) : Value → String
  | .null => "null"
  | .bool b => if b then "true" else "false"
  | .number (.whole n) => toString n
  | .number (.real x) => style.float x
  | .text s => writeText s
  | .timestamp t => style.timestamp t
  | .array items => enclose "[" "]" (writeItems style items)
  | .document fields => enclose "\x7b" "\x7d" (writeFields style fields)

def writeItems (style : Style) : List Value → List String
  | [] => []
  | v :: rest => write style v :: writeItems style rest

def writeFields (style : Style) : List (String × Value) → List String
  | [] => []
  | (key, v) :: rest => (writeText key ++ ":" ++ write style v) :: writeFields style rest

end

end OplogRelay.Json
