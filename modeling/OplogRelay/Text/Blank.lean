/-!
White space of all scripts, the information separators included, and its removal from both ends
of a text.
-/
namespace OplogRelay.Text

/-- First and last code point of each run of white space. -/
def blankRanges : List (Nat × Nat) := [
  (9, 13), (28, 32), (133, 133), (160, 160), (5760, 5760), (8192, 8202), (8232, 8233),
  (8239, 8239), (8287, 8287), (12288, 12288)]

def isBlank (c : Char) : Bool :=
  blankRanges.any fun r => decide (r.1 ≤ c.toNat) && decide (c.toNat ≤ r.2)

/-- The four information separators, which a numeral may not have around it. -/
def isSeparator (c : Char) : Bool := decide (28 ≤ c.toNat) && decide (c.toNat ≤ 31)

def trimWith (blank : Char → Bool) (cs : List Char) : List Char :=
  ((cs.dropWhile blank).reverse.dropWhile blank).reverse

def trim (cs : List Char) : List Char := trimWith isBlank cs

end OplogRelay.Text
