/-!
Templates: text with slots. A slot is a `%`, perhaps a key in brackets, marks, a width, a precision
behind a point and the letter of a conversion. Main statement: reading a slot never lengthens what
is left of the template, so that every template is read to its end.
-/
namespace OplogRelay.Template

inductive Flaw where
  | unclosedKey
  | incomplete
  | widthTooBig
  | precisionTooBig
  | unknownConversion (c : Char) (place : Nat)
  deriving DecidableEq, Repr

/-- A character that has no place in plain text is shown as a question mark. -/
def Flaw.message : Flaw → String
  | .unclosedKey => "incomplete format key"
  | .incomplete => "incomplete format"
  | .widthTooBig => "width too big"
  | .precisionTooBig => "precision too big"
  | .unknownConversion c place =>
    let shown := if 31 ≤ c.toNat ∧ c.toNat ≤ 126 then c else '?'
    let code := String.ofList (Nat.toDigits 16 c.toNat)
    s!"unsupported format character '{shown}' (0x{code}) at index {place}"

inductive Naming where
  | next
  | named (key : String)
  | unclosed
  deriving DecidableEq, Repr

inductive Extent where
  | unset
  | fixed (n : Nat)
  | argument
  deriving DecidableEq, Repr

structure Marks where
  left : Bool
  signed : Bool
  spaced : Bool
  alternate : Bool
  zeros : Bool
  deriving DecidableEq, Repr

namespace Marks

def isMark (c : Char) : Bool := ['-', '+', ' ', '#', '0'].contains c

def ofChars (cs : List Char) : Marks :=
  ⟨cs.contains '-', cs.contains '+', cs.contains ' ', cs.contains '#', cs.contains '0'⟩

end Marks

/-- A slot as far as it could be read: at its end stands the letter of its conversion with the place
of that letter in the template, or what is wrong. -/
structure Slot where
  naming : Naming
  marks : Marks
  width : Extent
  precision : Extent
  ending : Except Flaw (Char × Nat)

inductive Piece where
  | literal (c : Char)
  | slot (s : Slot)

/-- The characters up to the bracket that closes a key, inside of which brackets come in pairs, and
those behind it. -/
def splitKey? : Nat → List Char → Option (List Char × List Char)
  | _, [] => none
  | 0, ')' :: rest => some ([], rest)
  | depth + 1, ')' :: rest => (splitKey? depth rest).map fun s => (')' :: s.1, s.2)
  | depth, '(' :: rest => (splitKey? (depth + 1) rest).map fun s => ('(' :: s.1, s.2)
  | depth, c :: rest => (splitKey? depth rest).map fun s => (c :: s.1, s.2)

theorem splitKey?_length {depth : Nat} {cs : List Char} {s : List Char × List Char}
    (h : splitKey? depth cs = some s) : s.2.length ≤ cs.length := by
  fun_induction splitKey? depth cs generalizing s with
  | case1 => exact nomatch h
  | case2 rest =>
    cases h
    simp
  | case3 depth rest ih =>
    obtain ⟨t, ht, rfl⟩ := Option.map_eq_some_iff.mp h
    have hl := ih ht
    exact Nat.le_succ_of_le hl
  | case4 depth rest ih =>
    obtain ⟨t, ht, rfl⟩ := Option.map_eq_some_iff.mp h
    have hl := ih ht
    exact Nat.le_succ_of_le hl
  | case5 depth c rest _ _ _ ih =>
    obtain ⟨t, ht, rfl⟩ := Option.map_eq_some_iff.mp h
    have hl := ih ht
    exact Nat.le_succ_of_le hl

def readNaming : List Char → Naming × List Char
  | '(' :: rest =>
    match splitKey? 0 rest with
    | some (key, more) => (.named (String.ofList key), more)
    | none => (.unclosed, [])
  | cs => (.next, cs)

def maxWidth : Nat := 0x7fffffffffffffff

def maxPrecision : Nat := 0x7fffffff

def ofDigits (cs : List Char) : Nat := cs.foldl (fun n c => 10 * n + (c.toNat - '0'.toNat)) 0

/-- An asterisk or digits, possibly none. -/
def readExtent (limit : Nat) (flaw : Flaw) (cs : List Char) : Except Flaw (Extent × List Char) :=
  match cs with
  | '*' :: rest => .ok (.argument, rest)
  | cs =>
    let run := cs.takeWhile Char.isDigit
    if run.isEmpty then .ok (.unset, cs)
    else if limit < ofDigits run then .error flaw
    else .ok (.fixed (ofDigits run), cs.dropWhile Char.isDigit)

/-- A point alone is a precision of zero. -/
def readPrecision : List Char → Except Flaw (Extent × List Char)
  | '.' :: rest =>
    match readExtent maxPrecision .precisionTooBig rest with
    | .ok (.unset, more) => .ok (.fixed 0, more)
    | r => r
  | cs => .ok (.unset, cs)

/-- One letter for the size of a number may stand before the conversion; it means nothing. -/
def skipSize : List Char → List Char
  | c :: rest => if ['h', 'l', 'L'].contains c then rest else c :: rest
  | [] => []

/-- The slot behind a `%` and what follows it in a template of so many characters. Behind a flaw
nothing is read. -/
def Slot.read (total : Nat) (cs : List Char) : Slot × List Char :=
  let (naming, cs) := readNaming cs
  let marks := Marks.ofChars (cs.takeWhile Marks.isMark)
  match readExtent maxWidth .widthTooBig (cs.dropWhile Marks.isMark) with
  | .error e => (⟨naming, marks, .unset, .unset, .error e⟩, [])
  | .ok (width, cs) =>
    match readPrecision cs with
    | .error e => (⟨naming, marks, width, .unset, .error e⟩, [])
    | .ok (precision, cs) =>
      match skipSize cs with
      | [] => (⟨naming, marks, width, precision, .error .incomplete⟩, [])
      | c :: rest => (⟨naming, marks, width, precision, .ok (c, total - rest.length - 1)⟩, rest)

theorem length_dropWhile_le (p : Char → Bool) (cs : List Char) :
    (cs.dropWhile p).length ≤ cs.length :=
  (List.dropWhile_suffix p).length_le

theorem readNaming_length (cs : List Char) : (readNaming cs).2.length ≤ cs.length := by
  unfold readNaming
  split
  · split
    · next key more h => exact Nat.le_succ_of_le (splitKey?_length h)
    · simp
  · simp

theorem readExtent_length {limit : Nat} {flaw : Flaw} {cs : List Char}
    {r : Extent × List Char} (h : readExtent limit flaw cs = .ok r) : r.2.length ≤ cs.length := by
  unfold readExtent at h
  split at h
  · cases h
    simp
  · dsimp only at h
    split at h
    · cases h
      simp
    · split at h
      · exact nomatch h
      · cases h
        exact length_dropWhile_le _ _

theorem readPrecision_length {cs : List Char} {r : Extent × List Char}
    (h : readPrecision cs = .ok r) : r.2.length ≤ cs.length := by
  unfold readPrecision at h
  split at h
  · split at h
    · next more hr =>
      cases h
      have hl := readExtent_length hr
      exact Nat.le_succ_of_le hl
    · exact Nat.le_succ_of_le (readExtent_length h)
  · cases h
    simp

theorem skipSize_length (cs : List Char) : (skipSize cs).length ≤ cs.length := by
  unfold skipSize
  split
  · split <;> simp
  · simp

/-- What follows a slot is no longer than what the slot was read from. -/
theorem Slot.read_length (total : Nat) (cs : List Char) :
    (Slot.read total cs).2.length ≤ cs.length := by
  unfold Slot.read
  have hn := readNaming_length cs
  have hm := length_dropWhile_le Marks.isMark (readNaming cs).2
  dsimp only
  split
  · simp
  · next width afterWidth hw =>
    have hw := readExtent_length hw
    split
    · simp
    · next precision afterPrecision hp =>
      have hp := readPrecision_length hp
      have hs := skipSize_length afterPrecision
      split
      · simp
      · next c rest hr =>
        rw [hr] at hs
        simp only [List.length_cons] at hs hw hp ⊢
        omega

/-- The pieces of what is left of a template of so many characters; two percent signs stand for
one. -/
def piecesFrom (total : Nat) : List Char → List Piece
  | '%' :: '%' :: rest => .literal '%' :: piecesFrom total rest
  | '%' :: rest => .slot (Slot.read total rest).1 :: piecesFrom total (Slot.read total rest).2
  | c :: rest => .literal c :: piecesFrom total rest
  | [] => []
termination_by cs => cs.length
decreasing_by
  · simp only [List.length_cons]
    omega
  · have := Slot.read_length total rest
    simp only [List.length_cons]
    omega
  · simp

def pieces (template : String) : List Piece := piecesFrom template.length template.toList

theorem piecesFrom_of_not_mem {total : Nat} {cs : List Char} (h : '%' ∉ cs) :
    piecesFrom total cs = cs.map Piece.literal := by
  induction cs with
  | nil => simp [piecesFrom]
  | cons c rest ih =>
    simp only [List.mem_cons, not_or] at h
    rw [piecesFrom, ih h.2, List.map_cons]
    · rintro more rfl
      exact absurd rfl h.1
    · rintro rfl
      exact absurd rfl h.1

end OplogRelay.Template
