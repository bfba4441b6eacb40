import OplogRelay.Text.Printable
/-!
Quoted text as it stands in messages: single quotes, or double ones around a text that has single
quotes only; a backslash before the quote, the backslash and what cannot be printed.
-/
namespace OplogRelay.Text

def apostrophe : Char := '\x27'

/-- Double quotes serve a text with an apostrophe and no double quote of its own. -/
def quoteMark (cs : List Char) : Char :=
  if cs.contains apostrophe && !cs.contains '"' then '"' else apostrophe

def hex (width n : Nat) : List Char :=
  let digits := Nat.toDigits 16 n
  List.replicate (width - digits.length) '0' ++ digits

/-- A character by its number, of 2, 4 or 8 digits. -/
def numbered (c : Char) : List Char :=
  if c.toNat < 256 then ['\\', 'x'] ++ hex 2 c.toNat
  else if c.toNat < 65536 then ['\\', 'u'] ++ hex 4 c.toNat
  else ['\\', 'U'] ++ hex 8 c.toNat

def escape (mark c : Char) : List Char :=
  if c = mark ∨ c = '\\' then ['\\', c]
  else if c = '\n' then ['\\', 'n']
  else if c = '\r' then ['\\', 'r']
  else if c = '\t' then ['\\', 't']
  else if isPrintable c then [c]
  else numbered c

def quoted (s : String) : String :=
  let cs := s.toList
  let mark := quoteMark cs
  String.ofList (mark :: cs.flatMap (escape mark) ++ [mark])

def asciiOnly (s : String) : String :=
  String.ofList (s.toList.flatMap fun c => if c.toNat < 128 then [c] else numbered c)

def bracketed (items : List String) : String :=
  "[" ++ ", ".intercalate items ++ "]"

end OplogRelay.Text
