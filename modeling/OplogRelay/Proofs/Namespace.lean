import OplogRelay.Settings.Validation
/-!
Namespaces and their written form. A text is read as a namespace exactly if it is the written form of a proper
one, which is then the only one that it is the written form of. Any other text is refused, for the first of
three reasons that applies.
-/
namespace OplogRelay.Namespace

/-- A database whose name has no character that such a name must not have, and a collection in it. -/
structure IsProper (ns : Namespace) : Prop where
  database : ns.database ≠ ""
  allowed : ∀ c ∈ ns.database.toList, c ∉ ['/', '\\', '.', '"', '$', ' ']
  collection : ns.collection ≠ ""

/-- A text is cut at its first dot; where there is none, all of it is the name of a database. -/
inductive Cut : String → String → String → Prop where
  | dotted {database : String} (collection : String) : '.' ∉ database.toList →
      Cut (database ++ "." ++ collection) database collection
  | dotless {database : String} : '.' ∉ database.toList → Cut database database ""

/-- Why a text is no namespace. A reason applies where those before it do not. -/
inductive Refused (s : String) : NamespaceError → Prop where
  | emptyDatabase {collection : String} : Cut s "" collection → Refused s (.emptyDatabase s)
  | invalidDatabase {database collection : String} : Cut s database collection → database ≠ "" →
      (∃ c ∈ database.toList, c ∈ forbidden) →
      Refused s (.invalidDatabase s (forbidden.filter database.toList.contains))
  | missingCollection {database : String} : Cut s database "" → database ≠ "" →
      (∀ c ∈ database.toList, c ∉ forbidden) → Refused s .missingCollection

variable {s database collection : String} {ns ns' : Namespace} {e : NamespaceError}

theorem mem_forbidden_iff {c : Char} : c ∈ forbidden ↔ c ∈ ['/', '\\', '.', '"', '$', ' '] := by
  simp only [forbidden, List.mem_cons, List.not_mem_nil, or_false]
  grind

theorem filter_forbidden_eq_nil {cs : List Char} :
    forbidden.filter cs.contains = [] ↔ ∀ c ∈ cs, c ∉ forbidden := by
  simp only [List.filter_eq_nil_iff, List.contains_iff_mem]
  exact ⟨fun h c hc hbad => h c hbad hc, fun h c hbad hc => h c hc hbad⟩

theorem exists_cut (s : String) : ∃ database collection, Cut s database collection := by
  cases hcut : Text.cutFirst? '.' s.toList with
  | none =>
    exact ⟨s, "", .dotless (Text.cutFirst?_eq_none.mp hcut)⟩
  | some parts =>
    obtain ⟨before, after⟩ := parts
    obtain ⟨hs, hdot⟩ := Text.cutFirst?_eq_some.mp hcut
    have hwritten : s = String.ofList before ++ "." ++ String.ofList after := by
      apply String.toList_inj.mp
      simp [hs]
    refine ⟨String.ofList before, String.ofList after, ?_⟩
    rw [hwritten]
    exact .dotted _ (by simpa using hdot)

theorem Cut.parts (h : Cut s database collection) :
    (Text.cutFirst? '.' s.toList).getD (s.toList, []) = (database.toList, collection.toList) := by
  cases h with
  | dotted _ hdot =>
    have hcut : Text.cutFirst? '.' (database ++ "." ++ collection).toList =
        some (database.toList, collection.toList) :=
      Text.cutFirst?_eq_some.mpr ⟨by simp, hdot⟩
    rw [hcut]
    rfl
  | dotless hdot =>
    rw [Text.cutFirst?_eq_none.mpr hdot]
    rfl

theorem IsProper.cut (h : ns.IsProper) : Cut ns.render ns.database ns.collection :=
  .dotted _ fun hdot => h.allowed '.' hdot (by decide)

theorem parse?_of_refused (h : Refused s e) : parse? s = .error e := by
  cases h with
  | emptyDatabase hcut => simp [parse?, hcut.parts]
  | @invalidDatabase database _ hcut hdatabase hbad =>
    have hsome : forbidden.filter database.toList.contains ≠ [] := by
      obtain ⟨c, hc, hforbidden⟩ := hbad
      exact fun hnone => filter_forbidden_eq_nil.mp hnone c hc hforbidden
    have htold : (!(forbidden.filter database.toList.contains).isEmpty) = true := by
      rw [Bool.not_eq_true', List.isEmpty_eq_false_iff]
      exact hsome
    simp only [parse?, hcut.parts]
    rw [if_neg (by simpa using hdatabase), if_pos htold]
  | missingCollection hcut hdatabase hallowed =>
    have hnone := filter_forbidden_eq_nil.mpr hallowed
    simp [parse?, hcut.parts, hdatabase, hnone]

theorem parse?_render (h : ns.IsProper) : parse? ns.render = .ok ns := by
  have hnone : forbidden.filter ns.database.toList.contains = [] :=
    filter_forbidden_eq_nil.mpr fun c hc => mt mem_forbidden_iff.mp (h.allowed c hc)
  simp [parse?, h.cut.parts, h.database, h.collection, hnone]

theorem refused_or_written (s : String) :
    (∃ e, Refused s e) ∨ ∃ ns : Namespace, ns.IsProper ∧ ns.render = s := by
  obtain ⟨database, collection, hcut⟩ := exists_cut s
  by_cases hdatabase : database = ""
  · subst hdatabase
    exact .inl ⟨_, .emptyDatabase hcut⟩
  by_cases hbad : ∃ c ∈ database.toList, c ∈ forbidden
  · exact .inl ⟨_, .invalidDatabase hcut hdatabase hbad⟩
  have hallowed : ∀ c ∈ database.toList, c ∉ forbidden := fun c hc hforbidden => hbad ⟨c, hc, hforbidden⟩
  by_cases hcollection : collection = ""
  · subst hcollection
    exact .inl ⟨_, .missingCollection hcut hdatabase hallowed⟩
  cases hcut with
  | dotted =>
    refine .inr ⟨⟨database, collection⟩, ⟨hdatabase, ?_, hcollection⟩, rfl⟩
    exact fun c hc => mt mem_forbidden_iff.mpr (hallowed c hc)
  | dotless => exact absurd rfl hcollection

theorem parse?_eq_ok_iff : parse? s = .ok ns ↔ ns.IsProper ∧ ns.render = s := by
  constructor
  · intro h
    rcases refused_or_written s with ⟨e, hrefused⟩ | ⟨ns', hproper, hs⟩
    · cases h.symm.trans (parse?_of_refused hrefused)
    · subst hs
      obtain rfl : ns = ns' := Except.ok.inj (h.symm.trans (parse?_render hproper))
      exact ⟨hproper, rfl⟩
  · rintro ⟨hproper, rfl⟩
    exact parse?_render hproper

theorem parse?_eq_error_iff : parse? s = .error e ↔ Refused s e := by
  refine ⟨fun h => ?_, parse?_of_refused⟩
  rcases refused_or_written s with ⟨e', hrefused⟩ | ⟨ns, hwritten⟩
  · obtain rfl : e = e' := Except.error.inj (h.symm.trans (parse?_of_refused hrefused))
    exact hrefused
  · cases h.symm.trans (parse?_eq_ok_iff.mpr hwritten)

/-- A text is read as the one proper namespace that it is the written form of. If it is none, then it is
refused for the first reason that applies, as a matter of configuration. -/
theorem reads_written_form (s : String) :
    (∀ ns, parse? s = .ok ns ↔ ns.IsProper ∧ ns.render = s) ∧
    (∀ ns ns' : Namespace, ns.IsProper → ns.render = s → ns'.IsProper → ns'.render = s → ns = ns') ∧
    ((¬ ∃ ns : Namespace, ns.IsProper ∧ ns.render = s) ↔ ∃ e, parse? s = .error e) ∧
    (∀ e, parse? s = .error e ↔ Refused s e) ∧
    ∀ settings : Settings, settings.source.oplog = .value s → ∀ e, parse? s = .error e →
      settings.ns? = .error (.configuration (.ns e)) := by
  refine ⟨fun _ => parse?_eq_ok_iff, ?_, ?_, fun _ => parse?_eq_error_iff, ?_⟩
  · intro ns ns' hproper hs hproper' hs'
    have hread := parse?_eq_ok_iff.mpr ⟨hproper, hs⟩
    exact Except.ok.inj (hread.symm.trans (parse?_eq_ok_iff.mpr ⟨hproper', hs'⟩))
  · constructor
    · intro hnone
      obtain ⟨e, hrefused⟩ := (refused_or_written s).resolve_right hnone
      exact ⟨e, parse?_of_refused hrefused⟩
    · rintro ⟨e, herror⟩ ⟨ns, hwritten⟩
      cases herror.symm.trans (parse?_eq_ok_iff.mpr hwritten)
  · intro settings htext e herror
    simp [Settings.ns?, htext, Settings.operand, bind, Except.bind, herror]

/-- A dot in the name of a collection is no place to cut, and a blank in that of a database is refused. -/
theorem reads_written_form_dotted :
    parse? "local.oplog.rs" = .ok ⟨"local", "oplog.rs"⟩ ∧
    ¬ (⟨"local.oplog", "rs"⟩ : Namespace).IsProper ∧
    parse? "my db.users" = .error (.invalidDatabase "my db.users" [' ']) ∧
    ({ source := { oplog := .value "my db.users" } } : Settings).ns? =
      .error (.configuration (.ns (.invalidDatabase "my db.users" [' ']))) := by
  have hproper : (⟨"local", "oplog.rs"⟩ : Namespace).IsProper := ⟨by decide, by simp, by decide⟩
  obtain ⟨hread, hunique, _⟩ := reads_written_form "local.oplog.rs"
  refine ⟨(hread _).mpr ⟨hproper, rfl⟩, ?_, rfl, ?_⟩
  · intro hother
    exact absurd (congrArg database (hunique _ _ hproper rfl hother rfl)) (by decide)
  · exact (reads_written_form "my db.users").2.2.2.2 _ rfl _ rfl

end OplogRelay.Namespace
