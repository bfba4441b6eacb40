import Mathlib.Data.List.TakeWhile
import OplogRelay.Number.Numeral
/-!
Runs of decimal digits, as they are written for whole numbers and read back as numerals. A digit of any
script is neither white space nor a mark of a numeral, so a run of them reads as it stands.
-/
namespace OplogRelay

namespace Text

variable {c : Char}

theorem isDecimalDigit_iff :
    isDecimalDigit c = true ↔ ∃ start ∈ decimalZeros, start ≤ c.toNat ∧ c.toNat < start + 10 := by
  simp [isDecimalDigit, digitValue?]

theorem isDigit_of_isDecimalDigit (h : isDecimalDigit c = true) : isDigit c = true := by
  rw [isDigit, h, Bool.true_or]

/-- The tables of digits and of white space have no code point in common. -/
theorem isBlank_of_isDigit (h : isDigit c = true) : isBlank c = false := by
  have hdecimal : ∀ start ∈ decimalZeros, ∀ blank ∈ blankRanges,
      start + 10 ≤ blank.1 ∨ blank.2 < start := by decide
  have hother : ∀ digits ∈ otherDigitRanges, ∀ blank ∈ blankRanges,
      digits.2 < blank.1 ∨ blank.2 < digits.1 := by decide
  by_contra hblank
  obtain ⟨blank, hmem, hrange⟩ := List.any_eq_true.mp (Bool.of_not_eq_false hblank)
  simp only [Bool.and_eq_true, decide_eq_true_eq] at hrange
  rcases Bool.or_eq_true_iff.mp h with h | h
  · obtain ⟨start, hstart, hle, hlt⟩ := isDecimalDigit_iff.mp h
    have hapart := hdecimal start hstart blank hmem
    omega
  · obtain ⟨digits, hdigits, hin⟩ := List.any_eq_true.mp h
    simp only [Bool.and_eq_true, decide_eq_true_eq] at hin
    have hapart := hother digits hdigits blank hmem
    omega

end Text

theorem toList_toString_natCast (n : Nat) : (toString (n : Int)).toList = Nat.toDigits 10 n := by
  show (Nat.repr n).toList = _
  exact Nat.toList_repr

theorem toString_ne_empty (n : Int) : toString n ≠ "" := by
  cases n with
  | ofNat n =>
    intro h
    have hdigits : Nat.toDigits 10 n = [] := by
      rw [← toList_toString_natCast]
      exact congrArg String.toList h
    exact Nat.toDigits_ne_nil hdigits
  | negSucc n =>
    intro h
    have hlist : ("-" ++ Nat.repr n.succ).toList = [] := congrArg String.toList h
    simp at hlist

namespace Numeral

variable {cs : List Char}

theorem length_digits (h : ∀ c ∈ cs, Text.isDecimalDigit c = true) : (digits cs).length = cs.length := by
  induction cs with
  | nil => rfl
  | cons c rest ih =>
    obtain ⟨value, hvalue⟩ := Option.isSome_iff_exists.mp (h c (by simp))
    have hrest := ih fun d hd => h d (List.mem_cons_of_mem _ hd)
    rw [digits, List.filterMap_cons, hvalue]
    simpa [digits] using hrest

theorem integer?_of_digits (hne : cs ≠ []) (h : ∀ c ∈ cs, Text.isDecimalDigit c = true) :
    integer? (String.ofList cs) =
      if maxDigits < cs.length then .error (.tooManyDigits cs.length)
      else .ok (ofDigits (digits cs) : Int) := by
  obtain ⟨c, rest, rfl⟩ := List.exists_cons_of_ne_nil hne
  have hfirst : Text.isDecimalDigit c = true := h c (by simp)
  have hmargin : isMargin c = false := by
    rw [isMargin, Text.isBlank_of_isDigit (Text.isDigit_of_isDecimalDigit hfirst), Bool.false_and]
  have hsign : sign (c :: rest) = (false, c :: rest) := by
    unfold sign
    split
    · next heq =>
      obtain ⟨rfl, rfl⟩ := List.cons.inj heq
      exact absurd hfirst (by decide)
    · next heq =>
      obtain ⟨rfl, rfl⟩ := List.cons.inj heq
      exact absurd hfirst (by decide)
    · rfl
  have hrun : ∀ d ∈ c :: rest, isDigitOrUnderscore d = true := by
    intro d hd
    rw [isDigitOrUnderscore, h d hd, Bool.true_or]
  have hspaced : wellSpaced (c :: rest) = true := by
    have hunderscore : '_' ∉ c :: rest := by
      intro hmem
      exact absurd (h '_' hmem) (by decide)
    simp [wellSpaced, Text.pieces_of_not_mem hunderscore]
  have htake : (c :: rest).takeWhile isDigitOrUnderscore = c :: rest :=
    List.takeWhile_eq_self_iff.mpr hrun
  have hdrop : (c :: rest).dropWhile isDigitOrUnderscore = [] := List.dropWhile_eq_nil_iff.mpr hrun
  have hmargins : (c :: rest).dropWhile isMargin = c :: rest := by simp [hmargin]
  simp only [integer?, String.toList_ofList, hmargins, hsign, htake, hdrop, hspaced, length_digits h,
    Bool.not_true, Bool.false_eq_true, if_false, List.all_nil, if_true]

theorem integer?_eq_ok_iff (hne : cs ≠ []) (h : ∀ c ∈ cs, Text.isDecimalDigit c = true) :
    (∃ n, integer? (String.ofList cs) = .ok n) ↔ cs.length ≤ maxDigits := by
  rw [integer?_of_digits hne h]
  by_cases hlong : maxDigits < cs.length
  · simp [hlong]
  · simp [hlong, Nat.le_of_not_lt hlong]

end Numeral

end OplogRelay
