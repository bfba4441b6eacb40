/-!
Cutting a text at a separator character: at its first place, at its last place, at all of them.
-/
namespace OplogRelay.Text

def cutFirst? (sep : Char) : List Char → Option (List Char × List Char)
  | [] => none
  | c :: rest =>
    if c = sep then some ([], rest)
    else (cutFirst? sep rest).map fun (before, after) => (c :: before, after)

/-- Nothing is lost, and the first part has no `sep`. -/
theorem cutFirst?_eq_some {sep : Char} {cs before after : List Char} :
    cutFirst? sep cs = some (before, after) ↔ cs = before ++ sep :: after ∧ sep ∉ before := by
  induction cs generalizing before with
  | nil => simp [cutFirst?]
  | cons c rest ih =>
    by_cases hc : c = sep
    · subst hc
      cases before with
      | nil => simp [cutFirst?, eq_comm]
      | cons b more =>
        simp only [cutFirst?, if_true, Option.some.injEq, Prod.mk.injEq, List.cons_append,
          List.cons.injEq, List.mem_cons, not_or]
        constructor
        · rintro ⟨h, _⟩
          exact nomatch h
        · rintro ⟨⟨rfl, _⟩, hn, _⟩
          exact absurd rfl hn
    · cases before with
      | nil => simp [cutFirst?, hc]
      | cons b more =>
        simp only [cutFirst?, hc, if_false, Option.map_eq_some_iff, Prod.exists, Prod.mk.injEq,
          List.cons.injEq, List.cons_append, List.mem_cons, not_or]
        constructor
        · rintro ⟨x, y, hx, ⟨rfl, rfl⟩, rfl⟩
          obtain ⟨hr, hn⟩ := ih.mp hx
          exact ⟨⟨rfl, hr⟩, fun h => hc h.symm, hn⟩
        · rintro ⟨⟨rfl, hr⟩, _, hn⟩
          exact ⟨more, after, ih.mpr ⟨hr, hn⟩, ⟨rfl, rfl⟩, rfl⟩

theorem cutFirst?_eq_none {sep : Char} {cs : List Char} :
    cutFirst? sep cs = none ↔ sep ∉ cs := by
  induction cs with
  | nil => simp [cutFirst?]
  | cons c rest ih =>
    by_cases hc : c = sep
    · simp [cutFirst?, hc]
    · simp [cutFirst?, hc, ih, Ne.symm hc]

def cutLast? (sep : Char) : List Char → Option (List Char × List Char)
  | [] => none
  | c :: rest =>
    match cutLast? sep rest with
    | some (before, after) => some (c :: before, after)
    | none => if c = sep then some ([], rest) else none

theorem cutLast?_eq_none {sep : Char} {cs : List Char} :
    cutLast? sep cs = none ↔ sep ∉ cs := by
  induction cs with
  | nil => simp [cutLast?]
  | cons c rest ih =>
    cases hr : cutLast? sep rest with
    | some parts =>
      have hm : sep ∈ rest := by
        by_cases h : sep ∈ rest
        · exact h
        · rw [ih.mpr h] at hr
          exact nomatch hr
      simp [cutLast?, hr, hm]
    | none =>
      have hn : sep ∉ rest := ih.mp hr
      by_cases hc : c = sep
      · simp [cutLast?, hr, hc]
      · simp [cutLast?, hr, hc, Ne.symm hc, hn]

/-- Nothing is lost, and the second part has no `sep`. -/
theorem cutLast?_append {sep : Char} (before : List Char) {after : List Char}
    (h : sep ∉ after) : cutLast? sep (before ++ sep :: after) = some (before, after) := by
  induction before with
  | nil => simp [cutLast?, cutLast?_eq_none.mpr h]
  | cons b more ih => simp [cutLast?, ih]

def pieces (sep : Char) : List Char → List (List Char)
  | [] => [[]]
  | c :: rest =>
    if c = sep then [] :: pieces sep rest
    else match pieces sep rest with
      | [] => [[c]]
      | piece :: more => (c :: piece) :: more

theorem pieces_of_not_mem {sep : Char} {cs : List Char} (h : sep ∉ cs) :
    pieces sep cs = [cs] := by
  induction cs with
  | nil => rfl
  | cons c rest ih =>
    simp only [List.mem_cons, not_or] at h
    simp only [pieces, if_neg (Ne.symm h.1), ih h.2]

theorem pieces_append {sep : Char} {piece : List Char} (rest : List Char) (h : sep ∉ piece) :
    pieces sep (piece ++ sep :: rest) = piece :: pieces sep rest := by
  induction piece with
  | nil => simp [pieces]
  | cons c more ih =>
    simp only [List.mem_cons, not_or] at h
    simp only [List.cons_append, pieces, if_neg (Ne.symm h.1), ih h.2]

end OplogRelay.Text
