import OplogRelay.HostString
import OplogRelay.Proofs.Number.Digits
import OplogRelay.Proofs.Text.Trimming
/-!
How a host string is read: what each seed is made of, when a string is refused and why, and that the
written form of what was read is read as the same again wherever its parts are legible.
-/
namespace OplogRelay.HostSpec

open Text

variable {host : String} {port : Option Int} {cs l r t rest : List Char} {spec : HostSpec}

theorem isBlank_comma : isBlank ',' = false := by decide
theorem isBlank_colon : isBlank ':' = false := by decide
theorem isBlank_slash : isBlank '/' = false := by decide

theorem not_mem_of_digits {sep : Char} (hsep : isDigit sep = false)
    (h : ∀ c ∈ cs, isDigit c = true) : sep ∉ cs := by
  intro hmem
  exact absurd (h sep hmem) (by simp [hsep])

/-- What a seed is read from: a name and, after the last colon, digits; or a name alone. -/
inductive Reads (port : Option Int) : List Char → Seed → Prop where
  | own {name own : List Char} : ':' ∉ own → own ≠ [] → (∀ c ∈ own, isDigit c = true) →
      Reads port (name ++ ':' :: own) ⟨String.ofList name, String.ofList own⟩
  | default {name : List Char} : ':' ∉ name →
      Reads port name ⟨String.ofList name, toString (defaultPort port)⟩

theorem seed?_eq_some {s : Seed} : seed? port t = some s ↔ Reads port t s := by
  constructor
  · intro h
    unfold seed? at h
    split at h
    · next name own hcut =>
      obtain ⟨rfl, hown⟩ := cutLast?_eq_some.mp hcut
      split at h
      · next hdigits =>
        obtain rfl := Option.some.inj h
        simp only [Bool.and_eq_true, Bool.not_eq_true', List.isEmpty_eq_false_iff,
          List.all_eq_true] at hdigits
        exact .own hown hdigits.1 hdigits.2
      · cases h
    · next hcut =>
      obtain rfl := Option.some.inj h
      exact .default (cutLast?_eq_none.mp hcut)
  · intro h
    cases h with
    | own hcolon hne hdigits =>
      have hall : List.all _ isDigit = true := List.all_eq_true.mpr hdigits
      simp [seed?, cutLast?_append _ hcolon, hne, hall]
    | default hcolon => simp [seed?, cutLast?_eq_none.mpr hcolon]

/-- A seed has a port that is none: it has a colon and something else than digits behind the last one. -/
def IsPortless (t : List Char) : Prop :=
  ∃ name own, t = name ++ ':' :: own ∧ ':' ∉ own ∧ ¬ (own ≠ [] ∧ ∀ c ∈ own, isDigit c = true)

theorem seed?_eq_none : seed? port t = none ↔ IsPortless t := by
  constructor
  · intro h
    unfold seed? at h
    split at h
    · next name own hcut =>
      obtain ⟨rfl, hown⟩ := cutLast?_eq_some.mp hcut
      refine ⟨name, own, rfl, hown, ?_⟩
      rintro ⟨hne, hdigits⟩
      simp [hne, List.all_eq_true.mpr hdigits] at h
    · cases h
  · rintro ⟨name, own, rfl, hown, hnot⟩
    by_contra hsome
    obtain ⟨s, hs⟩ := Option.ne_none_iff_exists'.mp hsome
    have hreads := seed?_eq_some.mp hs
    generalize ht : name ++ ':' :: own = text at hreads
    cases hreads with
    | own hcolon hne hdigits =>
      have hcut := cutLast?_append name hown
      rw [ht, cutLast?_append _ hcolon, Option.some.injEq, Prod.mk.injEq] at hcut
      obtain ⟨rfl, rfl⟩ := hcut
      exact hnot ⟨hne, hdigits⟩
    | default hcolon =>
      rw [← ht] at hcolon
      exact hcolon (by simp)

theorem mapM_eq_some {α β : Type} {f : α → Option β} {xs : List α} {ys : List β} :
    xs.mapM f = some ys ↔ List.Forall₂ (fun x y => f x = some y) xs ys := by
  induction xs generalizing ys with
  | nil => cases ys <;> simp
  | cons x xs ih =>
    cases ys with
    | nil => simp [List.mapM_cons, Option.bind_eq_some_iff]
    | cons y ys => simp [List.mapM_cons, Option.bind_eq_some_iff, ← ih]

theorem mapM_eq_none {α β : Type} {f : α → Option β} {xs : List α} :
    xs.mapM f = none ↔ ∃ x ∈ xs, f x = none := by
  induction xs with
  | nil => simp
  | cons x xs ih =>
    cases hx : f x with
    | none => simp [List.mapM_cons, hx]
    | some y =>
      rw [List.mapM_cons, hx]
      cases hxs : xs.mapM f with
      | none => simpa [hx] using ih.mp hxs
      | some ys =>
        have hno : ¬ ∃ x ∈ xs, f x = none := by
          rw [← ih, hxs]
          simp
        simpa [hx] using hno

theorem seedTexts_padded (hl : AllBlank l) (hr : AllBlank r) (cs : List Char) :
    seedTexts (l ++ cs ++ r) = seedTexts cs := by
  rw [seedTexts, seedTexts, map_trim_pieces_padded isBlank_comma hl hr]

theorem seedTexts_trim (cs : List Char) : seedTexts (trim cs) = seedTexts cs := by
  rw [seedTexts, seedTexts, map_trim_pieces_trim isBlank_comma]

theorem seedTexts_trimEnd (cs : List Char) : seedTexts (trimEnd cs) = seedTexts cs := by
  obtain ⟨r, hr, hcs⟩ := exists_trailing cs
  have hpadded := seedTexts_padded allBlank_nil hr (trimEnd cs)
  rw [List.nil_append, ← hcs] at hpadded
  exact hpadded.symm

theorem seedTexts_intercalate {texts : List (List Char)} (hne : texts ≠ [])
    (h : ∀ t ∈ texts, ',' ∉ t) :
    seedTexts ([','].intercalate texts) = (texts.map trim).filter fun piece => !piece.isEmpty := by
  rw [seedTexts, pieces_intercalate hne h]

theorem of_mem_seedTexts (h : t ∈ seedTexts cs) : Tight t ∧ t ≠ [] ∧ ',' ∉ t := by
  obtain ⟨hmem, hne⟩ := List.mem_filter.mp h
  obtain ⟨piece, hpiece, rfl⟩ := List.mem_map.mp hmem
  refine ⟨tight_trim piece, by simpa using hne, ?_⟩
  intro hcomma
  exact not_mem_of_mem_pieces hpiece (mem_of_mem_trim hcomma)

/-- A name that a slash behind it makes the name of a replica set. -/
structure IsSetName (name : String) : Prop where
  ne : name ≠ ""
  slash : '/' ∉ name.toList
  head : ∀ c, name.toList.head? = some c → isBlank c = false

theorem cutReplicaSet_named {name : String} (h : IsSetName name) (rest : List Char) :
    cutReplicaSet (name.toList ++ '/' :: rest) = (some name, rest) := by
  have hcut : cutFirst? '/' (name.toList ++ '/' :: rest) = some (name.toList, rest) :=
    cutFirst?_eq_some.mpr ⟨rfl, h.slash⟩
  have hne : name.toList ≠ [] := by simpa using h.ne
  simp [cutReplicaSet, hcut, hne]

theorem cutReplicaSet_unnamed (h : '/' ∉ cs) : cutReplicaSet cs = (none, cs) := by
  simp [cutReplicaSet, cutFirst?_eq_none.mpr h]

theorem isSetName_of_cutReplicaSet {name : String}
    (h : cutReplicaSet (trim cs) = (some name, rest)) : IsSetName name := by
  unfold cutReplicaSet at h
  split at h
  · next before after hcut =>
    obtain ⟨hcs, hslash⟩ := cutFirst?_eq_some.mp hcut
    obtain ⟨hname, rfl⟩ := Prod.mk.inj h
    split at hname
    · cases hname
    · next hne =>
      obtain rfl := Option.some.inj hname
      have hne' : before ≠ [] := by simpa using hne
      refine ⟨by simpa using hne', by simpa using hslash, ?_⟩
      intro c hc
      apply (tight_trim cs).head c
      rw [hcs, List.head?_append_of_ne_nil _ hne']
      simpa using hc
  · cases (Prod.mk.inj h).1

def seedList (host : String) : List Char := (cutReplicaSet (trim host.toList)).2

theorem parse?_eq_ok_iff :
    parse? host port = .ok spec ↔
      cutReplicaSet (trim host.toList) = (spec.replicaSet, seedList host) ∧
        List.Forall₂ (Reads port) (seedTexts (seedList host)) spec.seeds ∧ spec.seeds ≠ [] := by
  obtain ⟨seeds, replicaSet⟩ := spec
  have hcut : cutReplicaSet (trim host.toList) =
      ((cutReplicaSet (trim host.toList)).1, seedList host) := rfl
  have hreads : List.Forall₂ (Reads port) (seedTexts (seedList host)) seeds ↔
      (seedTexts (seedList host)).mapM (seed? port) = some seeds := by
    rw [mapM_eq_some]
    constructor
    · intro h
      exact h.imp fun _ _ => seed?_eq_some.mpr
    · intro h
      exact h.imp fun _ _ => seed?_eq_some.mp
  rw [hreads, hcut, parse?, hcut]
  dsimp only
  cases hmap : (seedTexts (seedList host)).mapM (seed? port) with
  | none => simp
  | some found =>
    cases found with
    | nil =>
      simp only [reduceCtorEq, Option.some.injEq, ne_eq, false_iff, not_and, not_not]
      exact fun _ h => h.symm
    | cons s more =>
      simp only [Except.ok.injEq, HostSpec.mk.injEq, Option.some.injEq, Prod.mk.injEq, and_true]
      constructor
      · rintro ⟨rfl, h⟩
        exact ⟨h, rfl, by simp⟩
      · rintro ⟨h, rfl, _⟩
        exact ⟨rfl, h⟩

theorem parse?_cases (host : String) (port : Option Int) :
    (∃ spec, parse? host port = .ok spec) ∨
    (parse? host port = .error (.invalidPort host) ∧ ∃ t ∈ seedTexts (seedList host), IsPortless t) ∨
    (parse? host port = .error (.noHosts host) ∧ seedTexts (seedList host) = []) := by
  have hcut : cutReplicaSet (trim host.toList) =
      ((cutReplicaSet (trim host.toList)).1, seedList host) := rfl
  rw [parse?, hcut]
  dsimp only
  cases hmap : (seedTexts (seedList host)).mapM (seed? port) with
  | none =>
    obtain ⟨t, ht, hnone⟩ := mapM_eq_none.mp hmap
    exact .inr (.inl ⟨rfl, t, ht, seed?_eq_none.mp hnone⟩)
  | some found =>
    cases found with
    | nil =>
      refine .inr (.inr ⟨rfl, ?_⟩)
      cases htexts : seedTexts (seedList host) with
      | nil => rfl
      | cons t more =>
        rw [htexts, mapM_eq_some] at hmap
        cases hmap
    | cons s more => exact .inl ⟨_, rfl⟩

/-- The written form of a seed can be told apart from what stands around it. -/
structure Legible (s : Seed) : Prop where
  comma : ',' ∉ s.name.toList
  head : ∀ c, s.name.toList.head? = some c → isBlank c = false
  port_ne : s.port ≠ ""
  digits : ∀ c ∈ s.port.toList, isDigit c = true

namespace Legible

variable {s : Seed}

theorem toList_render (s : Seed) : s.render.toList = s.name.toList ++ ':' :: s.port.toList := by
  simp [Seed.render]

theorem tight (h : Legible s) : Tight s.render.toList := by
  rw [toList_render]
  constructor
  · intro c hc
    by_cases hname : s.name.toList = []
    · rw [hname] at hc
      obtain rfl : ':' = c := by simpa using hc
      exact isBlank_colon
    · rw [List.head?_append_of_ne_nil _ hname] at hc
      exact h.head c hc
  · intro c hc
    have hport : s.port.toList ≠ [] := by simpa using h.port_ne
    rw [List.getLast?_append_of_ne_nil _ (by simp), List.getLast?_cons_of_ne_nil hport] at hc
    exact isBlank_of_isDigit (h.digits c (List.mem_of_getLast? hc))

theorem comma_not_mem (h : Legible s) : ',' ∉ s.render.toList := by
  rw [toList_render]
  have hport : ',' ∉ s.port.toList := not_mem_of_digits (by decide) h.digits
  simp [h.comma, hport]

theorem slash_not_mem (h : Legible s) (hname : '/' ∉ s.name.toList) : '/' ∉ s.render.toList := by
  rw [toList_render]
  have hport : '/' ∉ s.port.toList := not_mem_of_digits (by decide) h.digits
  simp [hname, hport]

theorem reads (h : Legible s) (port : Option Int) : Reads port s.render.toList s := by
  have hport : s.port.toList ≠ [] := by simpa using h.port_ne
  have hreads : Reads port (s.name.toList ++ ':' :: s.port.toList) _ :=
    .own (not_mem_of_digits (by decide) h.digits) hport h.digits
  rw [String.ofList_toList, String.ofList_toList] at hreads
  rw [toList_render]
  exact hreads

end Legible

def setPart : Option String → List Char
  | some name => name.toList ++ ['/']
  | none => []

theorem cutReplicaSet_written {replicaSet : Option String} {body : List Char} (hl : AllBlank l)
    (hr : AllBlank r) (hset : ∀ name, replicaSet = some name → IsSetName name)
    (hslash : replicaSet = none → '/' ∉ body) :
    ∃ rest, cutReplicaSet (trim (l ++ setPart replicaSet ++ body ++ r)) = (replicaSet, rest) ∧
      seedTexts rest = seedTexts body := by
  cases replicaSet with
  | none =>
    have hno : '/' ∉ trim (l ++ body ++ r) := by
      intro hmem
      have hwhole := mem_of_mem_trim hmem
      rw [List.mem_append, List.mem_append] at hwhole
      rcases hwhole with (h | h) | h
      · exact not_mem_of_allBlank isBlank_slash hl h
      · exact hslash rfl h
      · exact not_mem_of_allBlank isBlank_slash hr h
    refine ⟨trim (l ++ body ++ r), ?_, ?_⟩
    · rw [setPart, List.append_nil]
      exact cutReplicaSet_unnamed hno
    · rw [seedTexts_trim, seedTexts_padded hl hr]
  | some name =>
    have hname := hset name rfl
    have htight : Tight (name.toList ++ ['/']) := by
      constructor
      · intro c hc
        rw [List.head?_append_of_ne_nil _ (by simpa using hname.ne)] at hc
        exact hname.head c hc
      · intro c hc
        rw [List.getLast?_append] at hc
        obtain rfl : '/' = c := by simpa using hc
        exact isBlank_slash
    have hpadded := seedTexts_padded allBlank_nil hr body
    refine ⟨trimEnd (body ++ r), ?_, ?_⟩
    · calc cutReplicaSet (trim (l ++ setPart (some name) ++ body ++ r))
          = cutReplicaSet (trim (l ++ ((name.toList ++ ['/']) ++ (body ++ r)))) := by
            simp [setPart]
        _ = cutReplicaSet (name.toList ++ '/' :: trimEnd (body ++ r)) := by
            rw [trim_blank_append hl, trim_tight_append (by simp) htight]
            simp
        _ = (some name, trimEnd (body ++ r)) := cutReplicaSet_named hname _
    · rw [seedTexts_trimEnd]
      exact hpadded

/-- A host string whose seeds can be read is read, with white space around it. -/
theorem parse?_of_reads {body : List Char} (hhost : host.toList = l ++ setPart spec.replicaSet ++ body ++ r)
    (hl : AllBlank l) (hr : AllBlank r) (hset : ∀ name, spec.replicaSet = some name → IsSetName name)
    (hslash : spec.replicaSet = none → '/' ∉ body)
    (hreads : List.Forall₂ (Reads port) (seedTexts body) spec.seeds) (hne : spec.seeds ≠ []) :
    parse? host port = .ok spec := by
  obtain ⟨rest, hcut, hrest⟩ := cutReplicaSet_written hl hr hset hslash
  rw [← hhost] at hcut
  have hlist : seedList host = rest := by rw [seedList, hcut]
  rw [parse?_eq_ok_iff, hcut, hlist, hrest]
  exact ⟨rfl, hreads, hne⟩

theorem toList_render (spec : HostSpec) :
    spec.render.toList =
      setPart spec.replicaSet ++ [','].intercalate (spec.seeds.map fun s => s.render.toList) := by
  obtain ⟨seeds, replicaSet⟩ := spec
  cases replicaSet with
  | none => simp [render, setPart, String.toList_intercalate, Function.comp_def]
  | some name => simp [render, setPart, String.toList_intercalate, Function.comp_def]

theorem parse?_render (hne : spec.seeds ≠ []) (hseeds : ∀ s ∈ spec.seeds, Legible s)
    (hset : ∀ name, spec.replicaSet = some name → IsSetName name)
    (hslash : spec.replicaSet = none → ∀ s ∈ spec.seeds, '/' ∉ s.name.toList)
    (port : Option Int) : parse? spec.render port = .ok spec := by
  have htexts : seedTexts ([','].intercalate (spec.seeds.map fun s => s.render.toList)) =
      spec.seeds.map fun s => s.render.toList := by
    rw [seedTexts_intercalate (by simpa using hne)]
    · have htrim : ∀ t ∈ spec.seeds.map fun s => s.render.toList, trim t = t := by
        intro t ht
        obtain ⟨s, hs, rfl⟩ := List.mem_map.mp ht
        have hpadded := trim_padded allBlank_nil allBlank_nil (hseeds s hs).tight
        simpa using hpadded
      rw [List.map_congr_left htrim, List.map_id']
      apply List.filter_eq_self.mpr
      intro t ht
      obtain ⟨s, _, rfl⟩ := List.mem_map.mp ht
      simp [Legible.toList_render]
    · intro t ht
      obtain ⟨s, hs, rfl⟩ := List.mem_map.mp ht
      exact (hseeds s hs).comma_not_mem
  have hwritten : spec.render.toList = [] ++ setPart spec.replicaSet ++
      [','].intercalate (spec.seeds.map fun s => s.render.toList) ++ [] := by
    rw [toList_render, List.nil_append, List.append_nil]
  apply parse?_of_reads hwritten allBlank_nil allBlank_nil hset
  · intro hnone hmem
    obtain ⟨t, ht, hslash'⟩ := mem_intercalate (show '/' ≠ ',' by decide) hmem
    obtain ⟨s, hs, rfl⟩ := List.mem_map.mp ht
    exact (hseeds s hs).slash_not_mem (hslash hnone s hs) hslash'
  · rw [htexts, List.forall₂_map_left_iff, List.forall₂_same]
    intro s hs
    exact (hseeds s hs).reads port
  · exact hne

end OplogRelay.HostSpec
