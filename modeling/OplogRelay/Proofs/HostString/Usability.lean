import OplogRelay.Proofs.HostString.Reading
/-!
What a client can make of a host string that was accepted. It should find a host name in each seed and a
port that is a number, and should find the same again in the written form. That is so exactly if the string
is well made; the reader accepts more than that.
-/
namespace OplogRelay

/-- A seed that a client can connect to. -/
structure Seed.IsUsable (s : Seed) : Prop where
  named : s.name ≠ ""
  slash : '/' ∉ s.name.toList
  decimal : ∀ c ∈ s.port.toList, Text.isDecimalDigit c = true
  readable : ∃ n, Numeral.integer? s.port = .ok n

namespace HostSpec

open Text

variable {host : String} {port : Option Int} {t : List Char} {s : Seed} {spec : HostSpec}

structure IsUsable (spec : HostSpec) : Prop where
  seeds : ∀ s ∈ spec.seeds, s.IsUsable
  reads_back : parse? spec.render none = .ok spec

def IsPort (digits : List Char) : Prop :=
  (∀ c ∈ digits, isDecimalDigit c = true) ∧ digits.length ≤ Numeral.maxDigits

/-- The text of a seed names a host, and what is to be its port is one. -/
structure IsSound (port : Option Int) (t : List Char) : Prop where
  slash : '/' ∉ t
  own : ∀ name own, t = name ++ ':' :: own → ':' ∉ own → name ≠ [] ∧ IsPort own
  given : ':' ∉ t → IsPort (toString (defaultPort port)).toList

/-- There is one slash at most, a name in front of every own port, and every port is a number: those of the
seeds, and the given one if there is a seed without its own. -/
structure IsWellMade (host : String) (port : Option Int) : Prop where
  slash : host.toList.count '/' ≤ 1
  own : ∀ t ∈ seedTexts (seedList host), ∀ name own, t = name ++ ':' :: own → ':' ∉ own →
    name ≠ [] ∧ IsPort own
  given : (∃ t ∈ seedTexts (seedList host), ':' ∉ t) → IsPort (toString (defaultPort port)).toList

theorem isUsable_iff (hport : s.port ≠ "") :
    s.IsUsable ↔ s.name ≠ "" ∧ '/' ∉ s.name.toList ∧ IsPort s.port.toList := by
  have hne : s.port.toList ≠ [] := by simpa using hport
  constructor
  · intro h
    refine ⟨h.named, h.slash, h.decimal, ?_⟩
    apply (Numeral.integer?_eq_ok_iff hne h.decimal).mp
    rw [String.ofList_toList]
    exact h.readable
  · rintro ⟨hname, hslash, hdecimal, hlength⟩
    have hreadable := (Numeral.integer?_eq_ok_iff hne hdecimal).mpr hlength
    rw [String.ofList_toList] at hreadable
    exact ⟨hname, hslash, hdecimal, hreadable⟩

theorem isUsable_iff_of_reads (h : Reads port t s) (ht : t ≠ []) : s.IsUsable ↔ IsSound port t := by
  cases h with
  | @own name own hcolon hne hdigits =>
    have hslash : '/' ∉ name ++ ':' :: own ↔ '/' ∉ name := by
      have hown : '/' ∉ own := not_mem_of_digits (by decide) hdigits
      simp [hown]
    rw [isUsable_iff (by simpa using hne)]
    simp only [String.toList_ofList, ne_eq, String.ofList_eq_empty_iff]
    constructor
    · rintro ⟨hname, hno, hport⟩
      refine ⟨hslash.mpr hno, ?_, ?_⟩
      · intro name' own' heq hcolon'
        have hcut := cutLast?_append name hcolon
        rw [heq, cutLast?_append name' hcolon', Option.some.injEq, Prod.mk.injEq] at hcut
        obtain ⟨rfl, rfl⟩ := hcut
        exact ⟨hname, hport⟩
      · intro hnone
        exact absurd (by simp) hnone
    · intro hsound
      obtain ⟨hname, hport⟩ := hsound.own name own rfl hcolon
      exact ⟨hname, hslash.mp hsound.slash, hport⟩
  | default hcolon =>
    rw [isUsable_iff (toString_ne_empty _)]
    simp only [String.toList_ofList, ne_eq, String.ofList_eq_empty_iff]
    constructor
    · rintro ⟨_, hno, hport⟩
      refine ⟨hno, ?_, fun _ => hport⟩
      rintro name own rfl
      exact absurd (by simp) hcolon
    · intro hsound
      exact ⟨ht, hsound.slash, hsound.given hcolon⟩

theorem legible_of_reads (h : Reads port t s) (htight : Tight t) (hcomma : ',' ∉ t)
    (husable : s.IsUsable) : Legible s := by
  have hname : s.name.toList ≠ [] := by simpa using husable.named
  have hprefix : s.name.toList <+: t ∧ s.port ≠ "" := by
    cases h with
    | own _ hne _ => exact ⟨by simp, by simpa using hne⟩
    | default _ => exact ⟨by simp, toString_ne_empty _⟩
  obtain ⟨⟨after, rfl⟩, hport⟩ := hprefix
  refine ⟨?_, ?_, hport, ?_⟩
  · intro hmem
    exact hcomma (List.mem_append_left _ hmem)
  · intro c hc
    apply htight.head c
    rw [List.head?_append_of_ne_nil _ hname, hc]
  · intro c hc
    exact isDigit_of_isDecimalDigit (husable.decimal c hc)

theorem exists_of_mem_right {α β : Type} {R : α → β → Prop} {xs : List α} {ys : List β}
    (h : List.Forall₂ R xs ys) {y : β} (hy : y ∈ ys) : ∃ x ∈ xs, R x y := by
  induction h with
  | nil => cases hy
  | cons hfirst _ ih =>
    rcases List.mem_cons.mp hy with rfl | hy
    · exact ⟨_, by simp, hfirst⟩
    · obtain ⟨x, hx, hR⟩ := ih hy
      exact ⟨x, List.mem_cons_of_mem _ hx, hR⟩

/-- A second slash stands among the seeds. -/
theorem count_slash_le_one : host.toList.count '/' ≤ 1 ↔ '/' ∉ seedList host := by
  have hcount : host.toList.count '/' = (trim host.toList).count '/' := by
    obtain ⟨l, r, hl, hr, _, hhost⟩ := exists_padding host.toList
    conv_lhs => rw [hhost]
    rw [List.count_append, List.count_append,
      List.count_eq_zero.mpr (not_mem_of_allBlank isBlank_slash hl),
      List.count_eq_zero.mpr (not_mem_of_allBlank isBlank_slash hr), Nat.zero_add, Nat.add_zero]
  rw [hcount, seedList, cutReplicaSet]
  cases hcut : cutFirst? '/' (trim host.toList) with
  | none =>
    have hno := cutFirst?_eq_none.mp hcut
    simp [hno, List.count_eq_zero.mpr hno]
  | some parts =>
    obtain ⟨before, after⟩ := parts
    obtain ⟨hhost, hbefore⟩ := cutFirst?_eq_some.mp hcut
    rw [hhost, List.count_append, List.count_cons_self, List.count_eq_zero.mpr hbefore,
      ← List.count_eq_zero]
    dsimp only
    omega

theorem slash_mem_seedTexts (cs : List Char) : '/' ∈ cs ↔ ∃ t ∈ seedTexts cs, '/' ∈ t := by
  rw [exists_mem_pieces (show '/' ≠ ',' by decide)]
  constructor
  · rintro ⟨piece, hpiece, hslash⟩
    have htrim := mem_trim isBlank_slash hslash
    refine ⟨trim piece, List.mem_filter.mpr ⟨List.mem_map_of_mem hpiece, ?_⟩, htrim⟩
    simpa using List.ne_nil_of_mem htrim
  · rintro ⟨t, ht, hslash⟩
    obtain ⟨piece, hpiece, rfl⟩ := List.mem_map.mp (List.mem_filter.mp ht).1
    exact ⟨piece, hpiece, mem_of_mem_trim hslash⟩

theorem isWellMade_iff :
    IsWellMade host port ↔ ∀ t ∈ seedTexts (seedList host), IsSound port t := by
  constructor
  · intro h t ht
    refine ⟨?_, h.own t ht, fun hcolon => h.given ⟨t, ht, hcolon⟩⟩
    intro hslash
    exact count_slash_le_one.mp h.slash ((slash_mem_seedTexts _).mpr ⟨t, ht, hslash⟩)
  · intro h
    refine ⟨count_slash_le_one.mpr ?_, fun t ht => (h t ht).own, ?_⟩
    · intro hslash
      obtain ⟨t, ht, hmem⟩ := (slash_mem_seedTexts _).mp hslash
      exact (h t ht).slash hmem
    · rintro ⟨t, ht, hcolon⟩
      exact (h t ht).given hcolon

theorem usable_seeds_iff (h : parse? host port = .ok spec) :
    (∀ s ∈ spec.seeds, s.IsUsable) ↔ IsWellMade host port := by
  obtain ⟨_, hreads, _⟩ := parse?_eq_ok_iff.mp h
  rw [isWellMade_iff]
  constructor
  · intro husable t ht
    obtain ⟨s, hs, hread⟩ := exists_of_mem_right hreads.flip ht
    exact (isUsable_iff_of_reads hread (of_mem_seedTexts ht).2.1).mp (husable s hs)
  · intro hsound s hs
    obtain ⟨t, ht, hread⟩ := exists_of_mem_right hreads hs
    exact (isUsable_iff_of_reads hread (of_mem_seedTexts ht).2.1).mpr (hsound t ht)

theorem reads_back_of_usable (h : parse? host port = .ok spec) (husable : ∀ s ∈ spec.seeds, s.IsUsable) :
    parse? spec.render none = .ok spec := by
  obtain ⟨hcut, hreads, hne⟩ := parse?_eq_ok_iff.mp h
  apply parse?_render hne
  · intro s hs
    obtain ⟨t, ht, hread⟩ := exists_of_mem_right hreads hs
    obtain ⟨htight, _, hcomma⟩ := of_mem_seedTexts ht
    exact legible_of_reads hread htight hcomma (husable s hs)
  · intro name hname
    rw [hname] at hcut
    exact isSetName_of_cutReplicaSet hcut
  · intro _ s hs
    exact (husable s hs).slash

theorem not_portless_of_reads (h : Reads port t s) : ¬ IsPortless t := by
  intro hportless
  cases (seed?_eq_some.mpr h).symm.trans (seed?_eq_none.mpr hportless)

/-- A host string is refused for a port that is none, or for lack of hosts, and else accepted. What it is
accepted as is usable, and is read back from its written form, exactly if the string is well made. -/
theorem accepts (host : String) (port : Option Int) :
    (parse? host port = .error (.invalidPort host) ∧ ∃ t ∈ seedTexts (seedList host), IsPortless t) ∨
    (parse? host port = .error (.noHosts host) ∧ seedTexts (seedList host) = []) ∨
    ∃ spec, parse? host port = .ok spec ∧ (∀ t ∈ seedTexts (seedList host), ¬ IsPortless t) ∧
      seedTexts (seedList host) ≠ [] ∧ (spec.IsUsable ↔ IsWellMade host port) := by
  rcases parse?_cases host port with ⟨spec, hspec⟩ | hport | hnone
  · obtain ⟨_, hreads, hne⟩ := parse?_eq_ok_iff.mp hspec
    refine .inr (.inr ⟨spec, hspec, ?_, ?_, ?_, ?_⟩)
    · intro t ht
      obtain ⟨s, _, hread⟩ := exists_of_mem_right hreads.flip ht
      exact not_portless_of_reads hread
    · intro hnil
      rw [hnil] at hreads
      exact hne (List.forall₂_nil_left_iff.mp hreads)
    · intro husable
      exact (usable_seeds_iff hspec).mp husable.seeds
    · intro hmade
      have husable := (usable_seeds_iff hspec).mpr hmade
      exact ⟨husable, reads_back_of_usable hspec husable⟩
  · exact .inl hport
  · exact .inr (.inl hnone)

/-- Accepted for a host: a superscript for a port, which is a digit but no number; no name; a slash in a
name, which in the written form cuts off the name of a replica set; and a given port below zero. -/
theorem accepts_unusable :
    (parse? "db1:²" none = .ok ⟨[⟨"db1", "²"⟩], none⟩ ∧ ¬ IsUsable ⟨[⟨"db1", "²"⟩], none⟩) ∧
    (parse? ":27017" none = .ok ⟨[⟨"", "27017"⟩], none⟩ ∧ ¬ IsUsable ⟨[⟨"", "27017"⟩], none⟩) ∧
    (parse? "/db1/db2" none = .ok ⟨[⟨"db1/db2", "27017"⟩], none⟩ ∧
      ¬ IsUsable ⟨[⟨"db1/db2", "27017"⟩], none⟩ ∧
      parse? (render ⟨[⟨"db1/db2", "27017"⟩], none⟩) none = .ok ⟨[⟨"db2", "27017"⟩], some "db1"⟩) ∧
    (parse? "db1" (some (-1)) = .ok ⟨[⟨"db1", "-1"⟩], none⟩ ∧ ¬ IsUsable ⟨[⟨"db1", "-1"⟩], none⟩) := by
  refine ⟨⟨rfl, ?_⟩, ⟨rfl, ?_⟩, ⟨rfl, ?_, rfl⟩, rfl, ?_⟩
  · intro h
    have hdecimal := (h.seeds _ (List.mem_singleton.mpr rfl)).decimal
    exact absurd (hdecimal '²' (by decide)) (by decide)
  · intro h
    exact (h.seeds _ (List.mem_singleton.mpr rfl)).named rfl
  · intro h
    exact (h.seeds _ (List.mem_singleton.mpr rfl)).slash (by decide)
  · intro h
    have hdecimal := (h.seeds _ (List.mem_singleton.mpr rfl)).decimal
    exact absurd (hdecimal '-' (by decide)) (by decide)

end HostSpec

end OplogRelay
