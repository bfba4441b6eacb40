import Mathlib.Data.List.Forall2
import Mathlib.Data.List.TakeWhile
import OplogRelay.Text.Blank
import OplogRelay.Text.Cut
import OplogRelay.Text.Digit
/-!
White space around a text and around its pieces. A text is white space, a trimmed text and white space
again, in one way only; so what is trimmed away before a text is cut makes no difference to pieces that are
trimmed after it.
-/
namespace OplogRelay.Text

variable {cs l r : List Char} {sep c : Char}

def AllBlank (cs : List Char) : Prop := ∀ c ∈ cs, isBlank c = true

instance : Decidable (AllBlank cs) := decidable_of_iff (cs.all isBlank = true) List.all_eq_true

theorem allBlank_nil : AllBlank [] := nofun

/-- There is no white space at either end. -/
structure Tight (cs : List Char) : Prop where
  head : ∀ c, cs.head? = some c → isBlank c = false
  last : ∀ c, cs.getLast? = some c → isBlank c = false

theorem dropWhile_of_head {p : Char → Bool} (h : ∀ c, cs.head? = some c → p c = false) :
    cs.dropWhile p = cs := by
  cases cs with
  | nil => rfl
  | cons c rest => simp [h c rfl]

theorem trim_padded (hl : AllBlank l) (hr : AllBlank r) (h : Tight cs) : trim (l ++ cs ++ r) = cs := by
  have hback : (r.reverse ++ cs.reverse).dropWhile isBlank = cs.reverse := by
    rw [List.dropWhile_append_of_pos (by simpa [AllBlank] using hr)]
    apply dropWhile_of_head
    intro c hc
    exact h.last c (by simpa using hc)
  rw [trim, trimWith, List.append_assoc, List.dropWhile_append_of_pos hl]
  by_cases hcs : cs = []
  · subst hcs
    simp [List.dropWhile_eq_nil_iff.mpr hr]
  · have hfront : (cs ++ r).dropWhile isBlank = cs ++ r := by
      apply dropWhile_of_head
      intro c hc
      rw [List.head?_append_of_ne_nil _ hcs] at hc
      exact h.head c hc
    rw [hfront, List.reverse_append, hback, List.reverse_reverse]

def trimEnd (cs : List Char) : List Char := (cs.reverse.dropWhile isBlank).reverse

theorem not_isBlank_of_head_dropWhile (h : (cs.dropWhile isBlank).head? = some c) :
    isBlank c = false := by
  have hhead := List.head?_dropWhile_not isBlank cs
  rw [h] at hhead
  exact hhead

theorem not_isBlank_of_last_trimEnd (h : (trimEnd cs).getLast? = some c) : isBlank c = false := by
  rw [trimEnd, List.getLast?_reverse] at h
  exact not_isBlank_of_head_dropWhile h

theorem exists_trailing (cs : List Char) : ∃ r, AllBlank r ∧ cs = trimEnd cs ++ r := by
  refine ⟨(cs.reverse.takeWhile isBlank).reverse, ?_, ?_⟩
  · intro c hc
    exact List.mem_takeWhile_imp (List.mem_reverse.mp hc)
  · rw [trimEnd, ← List.reverse_append, List.takeWhile_append_dropWhile, List.reverse_reverse]

theorem exists_padding (cs : List Char) :
    ∃ l r, AllBlank l ∧ AllBlank r ∧ Tight (trim cs) ∧ cs = l ++ trim cs ++ r := by
  obtain ⟨r, hr, hback⟩ := exists_trailing (cs.dropWhile isBlank)
  change cs.dropWhile isBlank = trim cs ++ r at hback
  refine ⟨cs.takeWhile isBlank, r, ?_, hr, ⟨?_, ?_⟩, ?_⟩
  · intro c hc
    exact List.mem_takeWhile_imp hc
  · intro c hc
    apply @not_isBlank_of_head_dropWhile cs
    rw [hback, List.head?_append, hc]
    rfl
  · intro c hc
    exact not_isBlank_of_last_trimEnd hc
  · rw [List.append_assoc, ← hback, List.takeWhile_append_dropWhile]

theorem tight_trim (cs : List Char) : Tight (trim cs) := by
  obtain ⟨_, _, _, _, htight, _⟩ := exists_padding cs
  exact htight

theorem trim_blank_append (hl : AllBlank l) (cs : List Char) : trim (l ++ cs) = trim cs := by
  obtain ⟨l', r', hl', hr', htight, hcs⟩ := exists_padding cs
  have hboth : AllBlank (l ++ l') := List.forall_mem_append.mpr ⟨hl, hl'⟩
  calc trim (l ++ cs) = trim ((l ++ l') ++ trim cs ++ r') := by
        rw [hcs, trim_padded hl' hr' htight]
        simp only [List.append_assoc]
    _ = trim cs := trim_padded hboth hr' htight

theorem trim_append_blank (hr : AllBlank r) (cs : List Char) : trim (cs ++ r) = trim cs := by
  obtain ⟨l', r', hl', hr', htight, hcs⟩ := exists_padding cs
  have hboth : AllBlank (r' ++ r) := List.forall_mem_append.mpr ⟨hr', hr⟩
  calc trim (cs ++ r) = trim (l' ++ trim cs ++ (r' ++ r)) := by
        rw [hcs, trim_padded hl' hr' htight]
        simp only [List.append_assoc]
    _ = trim cs := trim_padded hl' hboth htight

theorem trim_tight_append (hne : cs ≠ []) (h : Tight cs) (rest : List Char) :
    trim (cs ++ rest) = cs ++ trimEnd rest := by
  obtain ⟨r, hr, hrest⟩ := exists_trailing rest
  have htight : Tight (cs ++ trimEnd rest) := by
    constructor
    · intro c hc
      rw [List.head?_append_of_ne_nil _ hne] at hc
      exact h.head c hc
    · intro c hc
      rw [List.getLast?_append] at hc
      cases hlast : (trimEnd rest).getLast? with
      | some d =>
        rw [hlast] at hc
        obtain rfl : d = c := Option.some.inj hc
        exact not_isBlank_of_last_trimEnd hlast
      | none =>
        rw [hlast] at hc
        exact h.last c hc
  conv_lhs => rw [hrest, ← List.append_assoc]
  exact trim_padded allBlank_nil hr htight

theorem mem_of_mem_trim (h : c ∈ trim cs) : c ∈ cs := by
  obtain ⟨l, r, _, _, _, hcs⟩ := exists_padding cs
  rw [hcs]
  exact List.mem_append_left _ (List.mem_append_right _ h)

theorem mem_trim (hc : isBlank c = false) (h : c ∈ cs) : c ∈ trim cs := by
  obtain ⟨l, r, hl, hr, _, hcs⟩ := exists_padding cs
  rw [hcs, List.mem_append, List.mem_append] at h
  rcases h with (h | h) | h
  · exact absurd (hl c h) (by simp [hc])
  · exact h
  · exact absurd (hr c h) (by simp [hc])

theorem not_mem_of_allBlank (hsep : isBlank sep = false) (h : AllBlank cs) : sep ∉ cs := by
  intro hmem
  exact absurd (h sep hmem) (by simp [hsep])

theorem cutLast?_eq_some {before after : List Char} :
    cutLast? sep cs = some (before, after) ↔ cs = before ++ sep :: after ∧ sep ∉ after := by
  constructor
  · intro h
    have hmem : sep ∈ cs := by
      by_contra hnot
      rw [cutLast?_eq_none.mpr hnot] at h
      exact nomatch h
    obtain ⟨after', before', hcs, hafter⟩ :=
      List.eq_append_cons_of_mem (List.mem_reverse.mpr hmem)
    have hcs' : cs = before'.reverse ++ sep :: after'.reverse := by
      rw [← cs.reverse_reverse, hcs]
      simp
    have hafter' : sep ∉ after'.reverse := by simpa using hafter
    rw [hcs', cutLast?_append _ hafter', Option.some.injEq, Prod.mk.injEq] at h
    obtain ⟨rfl, rfl⟩ := h
    exact ⟨hcs', hafter'⟩
  · rintro ⟨rfl, hafter⟩
    exact cutLast?_append before hafter

theorem pieces_ne_nil (sep : Char) (cs : List Char) : pieces sep cs ≠ [] := by
  cases cs with
  | nil => simp [pieces]
  | cons c rest =>
    unfold pieces
    split
    · simp
    · split <;> simp

theorem pieces_cons_of_ne (hc : c ≠ sep) (rest : List Char) :
    ∃ piece more, pieces sep rest = piece :: more ∧ pieces sep (c :: rest) = (c :: piece) :: more := by
  obtain ⟨piece, more, hpieces⟩ := List.exists_cons_of_ne_nil (pieces_ne_nil sep rest)
  exact ⟨piece, more, hpieces, by rw [pieces, if_neg hc, hpieces]⟩

theorem pieces_intercalate {texts : List (List Char)} (hne : texts ≠ [])
    (h : ∀ text ∈ texts, sep ∉ text) : pieces sep ([sep].intercalate texts) = texts := by
  induction texts with
  | nil => exact absurd rfl hne
  | cons text more ih =>
    cases more with
    | nil =>
      rw [List.intercalate_singleton]
      exact pieces_of_not_mem (h text (by simp))
    | cons next rest =>
      rw [List.intercalate_cons_cons, List.append_assoc, List.singleton_append,
        pieces_append _ (h text (by simp)), ih (by simp) fun t ht => h t (List.mem_cons_of_mem _ ht)]

theorem mem_intercalate {c sep : Char} {texts : List (List Char)} (hc : c ≠ sep)
    (h : c ∈ [sep].intercalate texts) : ∃ t ∈ texts, c ∈ t := by
  induction texts with
  | nil => simp at h
  | cons t more ih =>
    cases more with
    | nil => exact ⟨t, by simp, by simpa using h⟩
    | cons next rest =>
      rw [List.intercalate_cons_cons, List.mem_append, List.mem_append, List.mem_singleton] at h
      rcases h with (h | h) | h
      · exact ⟨t, by simp, h⟩
      · exact absurd h hc
      · obtain ⟨t', ht', hmem⟩ := ih h
        exact ⟨t', List.mem_cons_of_mem _ ht', hmem⟩

theorem not_mem_of_mem_pieces {piece : List Char} (h : piece ∈ pieces sep cs) : sep ∉ piece := by
  induction cs generalizing piece with
  | nil => simp_all [pieces]
  | cons c rest ih =>
    by_cases hc : c = sep
    · rw [pieces, if_pos hc, List.mem_cons] at h
      rcases h with rfl | h
      · simp
      · exact ih h
    · obtain ⟨first, more, hrest, hpieces⟩ := pieces_cons_of_ne hc rest
      rw [hpieces, List.mem_cons] at h
      rcases h with rfl | h
      · have hfirst : sep ∉ first := ih (by simp [hrest])
        simp [hfirst, Ne.symm hc]
      · exact ih (by simp [hrest, h])

theorem exists_mem_pieces (hc : c ≠ sep) : c ∈ cs ↔ ∃ piece ∈ pieces sep cs, c ∈ piece := by
  induction cs with
  | nil => simp [pieces]
  | cons d rest ih =>
    by_cases hd : d = sep
    · rw [pieces, if_pos hd]
      simp [ih, hd, hc]
    · obtain ⟨first, more, hrest, hpieces⟩ := pieces_cons_of_ne hd rest
      rw [hpieces, List.exists_mem_cons_iff, List.mem_cons, List.mem_cons, ih, hrest,
        List.exists_mem_cons_iff, or_assoc]

theorem pieces_blank_append (hsep : sep ∉ l) (cs : List Char) :
    ∃ piece more, pieces sep cs = piece :: more ∧ pieces sep (l ++ cs) = (l ++ piece) :: more := by
  induction l with
  | nil =>
    obtain ⟨piece, more, hpieces⟩ := List.exists_cons_of_ne_nil (pieces_ne_nil sep cs)
    exact ⟨piece, more, hpieces, hpieces⟩
  | cons c rest ih =>
    simp only [List.mem_cons, not_or] at hsep
    obtain ⟨piece, more, hcs, happend⟩ := ih hsep.2
    obtain ⟨piece', more', hrest, hpieces⟩ := pieces_cons_of_ne (Ne.symm hsep.1) (rest ++ cs)
    obtain ⟨hpiece, hmore⟩ := List.cons.inj (hrest.symm.trans happend)
    refine ⟨piece, more, hcs, ?_⟩
    rw [List.cons_append, hpieces, hpiece, hmore, List.cons_append]

theorem pieces_append_blank (hsep : sep ∉ r) (cs : List Char) :
    List.Forall₂ (fun a b => a = b ∨ a = b ++ r) (pieces sep (cs ++ r)) (pieces sep cs) := by
  induction cs with
  | nil =>
    rw [List.nil_append, pieces_of_not_mem hsep]
    exact .cons (.inr rfl) .nil
  | cons c rest ih =>
    by_cases hc : c = sep
    · rw [List.cons_append, pieces, pieces, if_pos hc, if_pos hc]
      exact .cons (.inl rfl) ih
    · obtain ⟨a, as, hlong, hpieces⟩ := pieces_cons_of_ne hc (rest ++ r)
      obtain ⟨b, bs, hshort, hpieces'⟩ := pieces_cons_of_ne hc rest
      rw [List.cons_append, hpieces, hpieces']
      rw [hlong, hshort] at ih
      cases ih with
      | cons hfirst hmore =>
        refine .cons ?_ hmore
        rcases hfirst with rfl | rfl
        · exact .inl rfl
        · exact .inr rfl

theorem map_trim_pieces_padded (hsep : isBlank sep = false) (hl : AllBlank l) (hr : AllBlank r)
    (cs : List Char) : (pieces sep (l ++ cs ++ r)).map trim = (pieces sep cs).map trim := by
  have hright : (pieces sep (cs ++ r)).map trim = (pieces sep cs).map trim := by
    rw [← List.forall₂_eq_eq_eq, List.forall₂_map_left_iff, List.forall₂_map_right_iff]
    refine (pieces_append_blank (not_mem_of_allBlank hsep hr) cs).imp ?_
    rintro a b (rfl | rfl)
    · rfl
    · exact trim_append_blank hr b
  obtain ⟨piece, more, hcs, hpieces⟩ := pieces_blank_append (not_mem_of_allBlank hsep hl) (cs ++ r)
  rw [← hright, List.append_assoc, hpieces, hcs, List.map_cons, List.map_cons, trim_blank_append hl]

theorem map_trim_pieces_trim (hsep : isBlank sep = false) (cs : List Char) :
    (pieces sep (trim cs)).map trim = (pieces sep cs).map trim := by
  obtain ⟨l, r, hl, hr, _, hcs⟩ := exists_padding cs
  conv_rhs => rw [hcs]
  exact (map_trim_pieces_padded hsep hl hr _).symm

end OplogRelay.Text
