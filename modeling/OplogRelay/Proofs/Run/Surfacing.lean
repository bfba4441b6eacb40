import OplogRelay.Proofs.Run.FailFast
/-!
How failures surface. A run that is over should be stopped, or fatal with a failure of the relay's
own. It is so but for some causes that are met where nothing converts them: here is the list, and
what the run raises and where it is left for each of them.
-/
namespace OplogRelay

namespace Failure

theorem ofFault_cases (f : Fault) : (ofFault f).isOwn = true ∨ ofFault f = .fault f := by
  unfold ofFault
  split
  · exact .inl rfl
  · exact .inl rfl
  · exact .inr rfl

theorem ofOpenFault_cases (f : Fault) :
    (ofOpenFault f).isOwn = true ∨ ofOpenFault f = .fault f := by
  unfold ofOpenFault
  split
  · exact .inl rfl
  · exact ofFault_cases f

theorem ofApplyFault_cases (f : Fault) :
    (ofApplyFault f).isOwn = true ∨ ofApplyFault f = .fault f := by
  unfold ofApplyFault
  split
  · exact .inl rfl
  · exact ofFault_cases f

/-- Faults of decoding are converted where the log is read, and nowhere else. -/
theorem decoding_passes {f : Fault} (h : f.isDecoding = true) :
    ofReadFault f = .stream (.reading f) ∧ ofOpenFault f = .fault f ∧
      ofApplyFault f = .fault f := by
  obtain ⟨kind, message⟩ := f
  cases kind with
  | decoding => exact ⟨rfl, rfl, rfl⟩
  | _ => cases h

end Failure

def Transfer.fault? (t : Transfer) : Option Fault :=
  match t.phase with
  | .answered _ (.fault f) => some f
  | _ => none

theorem Transfer.fault?_eq_some {t : Transfer} {f : Fault} :
    t.fault? = some f ↔ ∃ flush, t.refusal? = some (flush, .fault f) := by
  constructor
  · intro h
    unfold fault? at h
    split at h
    · next flush g hphase =>
      cases h
      exact ⟨flush, by simp [refusal?, hphase, Answer.isAccepted]⟩
    · cases h
  · rintro ⟨flush, h⟩
    simp only [fault?, (answered_of_refusal? h).1]

namespace Run

/-- The run was stopped, or it is fatal with a failure of the relay's own. -/
def Surfaces (r : Run) : Prop :=
  (∃ stats, r.outcome = some (.ok stats)) ∧ r.lifecycle = .stopped ∨
    ∃ e, r.outcome = some (.error e) ∧ e.isOwn = true ∧ r.lifecycle = .fatal

/-- Why a run does not surface as it should, with what it raises and where it is left: a namespace
that is refused before anything else is looked at; a window that has no first timestamp; a fault of
the opening or of a batch that is not converted; a timer that cannot be set; and an end of reading
that is none of the stream's. -/
inductive Misses (r : Run) : Failure → Lifecycle → Prop where
  | misnamed {e} : Namespace.parse? r.plan.ns = .error e →
      Misses r (.configuration (.ns e)) .initializing
  | unwindowed {e} : r.plan.barrier? = some (.window e) → Misses r (.window e) .initializing
  | unopened {f} : r.plan.barrier? = some (.fault f) → Misses r (.fault f) .initializing
  | untimed {e} : r.plan.barrier? = none → r.plan.interval.wait? = .error e →
      Misses r (.conversion e) .streaming
  | unread {t threshold e} : r.stage = .moving t → r.plan.threshold? = .ok threshold →
      t.phase = .done (.error e) → t.forwarder.ending = some (.escaped e) →
      Tail.Escape threshold t.forwarder.tail.idle t.oplog.documents e → e.isOwn = false →
      Misses r e .streaming
  | unapplied {s t f} : Reachable s → Leads s r → s.stage = .moving t → t.fault? = some f →
      Failure.ofApplyFault f = .fault f → Misses r (.fault f) .streaming

variable {r : Run} {e : Failure} {life : Lifecycle}

theorem not_surfaces_of_lifecycle (h : r.lifecycle = .initializing ∨ r.lifecycle = .streaming) :
    ¬ r.Surfaces := by
  rintro (⟨_, hlife⟩ | ⟨_, _, _, hlife⟩) <;> rcases h with h | h <;> cases hlife.symm.trans h

theorem Ended.surfaces {result : Except Failure Unit} (h : r.Ended life result)
    (hmild : r.plan.Mild) (hown : ∀ e, result = .error e → e.isOwn = true) : r.Surfaces := by
  have hreports := h.reports hmild
  have hlife := h.lifecycle
  cases result with
  | ok =>
    obtain ⟨stats, hok, _⟩ := hreports
    exact .inl ⟨⟨stats, hok⟩, hlife⟩
  | error e =>
    have he := hown e rfl
    rw [lifecycleAfter, if_pos he] at hlife
    exact .inr ⟨e, hreports, he, hlife⟩

theorem Ended.missed (h : r.Ended life (.error e)) (hmild : r.plan.Mild)
    (hnot : e.isOwn = false) : r.outcome = some (.error e) ∧ r.lifecycle = life := by
  have hlife := h.lifecycle
  rw [lifecycleAfter, if_neg (by simp [hnot])] at hlife
  exact ⟨h.reports hmild, hlife⟩

theorem Plan.barrier?_cases {plan : Plan} (h : plan.barrier? = some e) :
    e.isOwn = true ∨ (∃ w, e = .window w) ∨ ∃ f, e = .fault f := by
  unfold Plan.barrier? at h
  split at h
  · cases h
    exact .inl rfl
  · split at h
    · cases h
      exact .inl rfl
    · cases h
      exact .inl rfl
    · cases h
      exact .inr (.inl ⟨_, rfl⟩)
    · split at h
      · obtain ⟨f, _, rfl⟩ := Option.map_eq_some_iff.mp h
        rcases Failure.ofOpenFault_cases f with hown | hpasses
        · exact .inl hown
        · exact .inr (.inr ⟨f, hpasses⟩)
      · cases h
        exact .inl rfl

theorem Plan.barrier?_of_misnamed {plan : Plan} {e : NamespaceError}
    (h : Namespace.parse? plan.ns = .error e) :
    plan.barrier? = some (.configuration (.ns e)) := by
  simp only [Plan.barrier?, h]

theorem missed_of_barrier (h : r.Standing) (hover : r.isOver = true) (hmild : r.plan.Mild)
    (hbars : r.plan.barrier? = some e) (hnot : e.isOwn = false) :
    r.outcome = some (.error e) ∧ r.lifecycle = .initializing := by
  cases h with
  | fresh _ _ _ _ hfalse => cases hfalse.symm.trans hover
  | misnamed _ _ _ _ hns =>
    cases (Plan.barrier?_of_misnamed hns).symm.trans hbars
    cases hnot
  | barred _ _ _ _ hbars' hended =>
    cases hbars'.symm.trans hbars
    exact hended.missed hmild hnot
  | streaming _ _ _ _ _ hfalse => cases hfalse.symm.trans hover
  | untimed _ hopen => cases hopen.symm.trans hbars
  | ended _ hstarts => cases hstarts.unbarred.symm.trans hbars

theorem missed_of_misnamed {e : NamespaceError} (h : r.Standing) (hover : r.isOver = true)
    (hns : Namespace.parse? r.plan.ns = .error e) :
    r.outcome = some (.error (.configuration (.ns e))) ∧ r.lifecycle = .initializing := by
  have hbars := Plan.barrier?_of_misnamed hns
  cases h with
  | fresh _ _ _ _ hfalse => cases hfalse.symm.trans hover
  | misnamed _ _ _ _ hns' houtcome hlife =>
    cases hns'.symm.trans hns
    exact ⟨houtcome, hlife⟩
  | barred _ _ _ hok => cases hok.symm.trans hns
  | streaming _ _ _ _ _ hfalse => cases hfalse.symm.trans hover
  | untimed _ hopen => cases hopen.symm.trans hbars
  | ended _ hstarts => cases hstarts.unbarred.symm.trans hbars

theorem missed_of_untimed {e : ConversionError} (h : r.Standing) (hover : r.isOver = true)
    (hmild : r.plan.Mild) (hopen : r.plan.barrier? = none)
    (hwait : r.plan.interval.wait? = .error e) :
    r.outcome = some (.error (.conversion e)) ∧ r.lifecycle = .streaming := by
  cases h with
  | fresh _ _ _ _ hfalse => cases hfalse.symm.trans hover
  | misnamed _ _ _ _ hns => cases (Plan.barrier?_of_misnamed hns).symm.trans hopen
  | barred _ _ _ _ hbars => cases hbars.symm.trans hopen
  | streaming _ _ _ _ _ hfalse => cases hfalse.symm.trans hover
  | untimed _ _ _ _ _ _ _ hwait' hended =>
    cases hwait'.symm.trans hwait
    exact hended.missed hmild rfl
  | ended _ hstarts =>
    obtain ⟨interval, hok⟩ := hstarts.timed
    cases hok.symm.trans hwait

theorem Misses.outcome (hmisses : r.Misses e life) (h : Reachable r) (hover : r.isOver = true)
    (hmild : r.plan.Mild) : r.outcome = some (.error e) ∧ r.lifecycle = life := by
  have hstanding := reachable_standing h
  cases hmisses with
  | misnamed hns => exact missed_of_misnamed hstanding hover hns
  | unwindowed hbars => exact missed_of_barrier hstanding hover hmild hbars rfl
  | unopened hbars => exact missed_of_barrier hstanding hover hmild hbars rfl
  | untimed hopen hwait => exact missed_of_untimed hstanding hover hmild hopen hwait
  | unread hstage _ hphase hescaped _ hnot =>
    rcases hstanding.over_cases hstage hover with ⟨_, hlive, _⟩ | ⟨result, hdone, hended⟩
    · cases hlive.symm.trans hescaped
    · cases hphase.symm.trans hdone
      exact hended.missed hmild hnot
  | unapplied hs hleads hstage hfault hpasses =>
    obtain ⟨flush, hrefusal⟩ := Transfer.fault?_eq_some.mp hfault
    obtain ⟨threshold, _, hinv⟩ := (reachable_standing hs).invariant hstage
    obtain ⟨settled, hfailing⟩ := hinv.failing hrefusal
    obtain ⟨u, hu, hfailing⟩ := failing_of_leads hs hleads hstage hfailing
    obtain ⟨_, hended⟩ := over_of_failing hstanding hu hfailing hover
    rw [Answer.failure, hpasses] at hended
    exact hended.missed hmild rfl

theorem Misses.lifecycle_eq (h : r.Misses e life) : life = .initializing ∨ life = .streaming := by
  cases h with
  | misnamed | unwindowed | unopened => exact .inl rfl
  | untimed | unread | unapplied => exact .inr rfl

/-- A transfer that ended with a failure that is none of the relay's own met one of the causes. -/
theorem misses_of_done {t : Transfer} (h : Reachable r) (hstage : r.stage = .moving t)
    (hphase : t.phase = .done (.error e)) (hnot : e.isOwn = false) : r.Misses e .streaming := by
  obtain ⟨threshold, hthreshold, hinv⟩ := (reachable_standing h).invariant hstage
  have hdone := hinv.standing
  rw [hphase] at hdone
  cases hdone with
  | @stopped ending _ _ _ _ hend hfail =>
    cases ending with
    | failed s =>
      cases hfail
      cases hnot
    | escaped e' =>
      cases hfail
      exact .unread hstage hthreshold hphase hend (hinv.feed.escape _ hend).1 hnot
    | exhausted => cases hfail
    | cancelled => cases hfail
  | @refused settled b answer hflushes _ hcounted =>
    rcases exists_refusal h hstage hphase with
      heven | ⟨s, u, f, answer', hs, hleads, hu, hrefusal, hresult⟩
    · -- a refused batch is sent but not counted, so the counters lag behind
      have hbatches := hcounted.batches.symm.trans heven.counted.batches
      simp [hflushes] at hbatches
    · have he := Except.error.inj hresult
      rw [he] at hnot ⊢
      cases answer' with
      | reply reply => cases hnot
      | fault fault =>
        rcases Failure.ofApplyFault_cases fault with hown | hpasses
        · cases hown.symm.trans hnot
        · rw [Answer.failure, hpasses]
          exact .unapplied hs hleads hu (Transfer.fault?_eq_some.mpr ⟨f, hrefusal⟩) hpasses

theorem surfaces_or_misses (h : Reachable r) (hover : r.isOver = true) (hmild : r.plan.Mild) :
    r.Surfaces ∨ ∃ e life, r.Misses e life := by
  have hown {result : Except Failure Unit} {before : Lifecycle} (hended : r.Ended before result)
      (hmisses : ∀ e, result = .error e → e.isOwn = false → ∃ life, r.Misses e life) :
      r.Surfaces ∨ ∃ e life, r.Misses e life := by
    by_cases hall : ∀ e, result = .error e → e.isOwn = true
    · exact .inl (hended.surfaces hmild hall)
    · obtain ⟨e, hnot⟩ := not_forall.mp hall
      obtain ⟨he, hnot⟩ := Classical.not_imp.mp hnot
      exact .inr ⟨e, hmisses e he (by simpa using hnot)⟩
  cases reachable_standing h with
  | fresh _ _ _ _ hfalse => cases hfalse.symm.trans hover
  | misnamed _ _ _ _ hns => exact .inr ⟨_, _, .misnamed hns⟩
  | barred _ _ _ _ hbars hended =>
    refine hown hended ?_
    rintro e ⟨⟩ hnot
    rcases Plan.barrier?_cases hbars with hown | ⟨w, rfl⟩ | ⟨f, rfl⟩
    · cases hown.symm.trans hnot
    · exact ⟨_, .unwindowed hbars⟩
    · exact ⟨_, .unopened hbars⟩
  | streaming _ _ _ _ _ hfalse => cases hfalse.symm.trans hover
  | untimed _ hopen _ _ _ _ _ hwait => exact .inr ⟨_, _, .untimed hopen hwait⟩
  | ended hstage _ _ _ _ hphase hended =>
    refine hown hended ?_
    rintro e rfl hnot
    exact ⟨_, misses_of_done h hstage hphase hnot⟩

/-- A run that is over was stopped, or is fatal with a failure of the relay's own, exactly if none
of the causes was met that nothing converts; if one was, its failure is raised as it is and the run
is left where it was. -/
theorem surfaces_iff (h : Reachable r) (hover : r.isOver = true) (hmild : r.plan.Mild) :
    (r.Surfaces ↔ ∀ e life, ¬ r.Misses e life) ∧
    ∀ e life, r.Misses e life → r.outcome = some (.error e) ∧ r.lifecycle = life := by
  refine ⟨⟨fun hsurfaces e life hmisses => ?_, fun hnone => ?_⟩, fun e life hmisses => ?_⟩
  · obtain ⟨_, hlife⟩ := hmisses.outcome h hover hmild
    exact not_surfaces_of_lifecycle (hlife ▸ hmisses.lifecycle_eq) hsurfaces
  · refine (surfaces_or_misses h hover hmild).resolve_right ?_
    rintro ⟨e, life, hmisses⟩
    exact hnone e life hmisses
  · exact hmisses.outcome h hover hmild

theorem surfaces_iff_small : ∃ r, Reachable r ∧ r.isOver = true ∧ r.plan.Mild ∧ r.Surfaces ∧
    ∀ e life, ¬ r.Misses e life := by
  obtain ⟨stats, hok⟩ := small_stops
  have hover : (small []).isOver = true := by decide +kernel
  have hsurfaces : (small []).Surfaces := .inl ⟨⟨stats, hok⟩, by decide +kernel⟩
  have hmild : (small []).plan.Mild := plan_small [] ▸ Plan.small_mild
  exact ⟨small [], reachable_small [], hover, hmild, hsurfaces,
    (surfaces_iff (reachable_small []) hover hmild).1.mp hsurfaces⟩

def misnamed : Run :=
  construct { Plan.small with ns := "local" } [] (.whole 0) true false

theorem made_misnamed : Made misnamed := by
  have hplan : Plan.make? { Plan.small with ns := "local" } 2 (.whole 5) =
      .ok { Plan.small with ns := "local" } := rfl
  exact made_construct [] (.whole 0) true false hplan

theorem misses_misnamed : Misses misnamed.begun (.configuration (.ns .missingCollection))
    .initializing := by
  refine .misnamed ?_
  rw [plan_of_leads (.made made_misnamed) (leads_begun made_misnamed)]
  rfl

def garbled : Fault := ⟨.decoding .invalidDocument, "not a document"⟩

def faulted : Run := Timed.run none 3 (primed (.raise garbled) 8)

theorem leads_faulted :
    Leads (construct Plan.small smallLog (.whole 0) true false) (primed (.raise garbled) 8) ∧
      Leads (primed (.raise garbled) 8) faulted := by
  have hleads := leads_primed (a := .raise garbled) (start?_eq_begun rfl) 8
  exact ⟨hleads, leads_ticks 3 ((Reachable.made made_small).leads hleads)⟩

theorem misses_faulted : Misses faulted (.fault garbled) .streaming := by
  obtain ⟨hleads, hmore⟩ := leads_faulted
  have hanswered : (primed (.raise garbled) 8).transfer?.bind Transfer.fault? =
      some garbled := by decide +kernel
  obtain ⟨t, htransfer, hfault⟩ := Option.bind_eq_some_iff.mp hanswered
  have hreach := (Reachable.made made_small).leads hleads
  exact .unapplied hreach hmore (moving_of_transfer? htransfer) hfault
    (Failure.decoding_passes rfl).2.2

/-- A namespace without a collection leaves a run where it began, and a fault of decoding with which
the destination answers a batch is raised as it is. -/
theorem not_surfaces_small :
    (∃ r e, Reachable r ∧ r.isOver = true ∧ r.plan.Mild ∧ r.plan.ns = "local" ∧ ¬ r.Surfaces ∧
      r.outcome = some (.error (.configuration e)) ∧ r.lifecycle = .initializing) ∧
    ∃ r f, Reachable r ∧ r.isOver = true ∧ r.plan.Mild ∧ f.isDecoding = true ∧ ¬ r.Surfaces ∧
      r.outcome = some (.error (.fault f)) ∧ r.lifecycle = .streaming := by
  constructor
  · have hleads := leads_begun made_misnamed
    have hreach := (Reachable.made made_misnamed).leads hleads
    have hplan := plan_of_leads (.made made_misnamed) hleads
    have hover : misnamed.begun.isOver = true := by decide +kernel
    have hmild : misnamed.begun.plan.Mild := by
      rw [hplan]
      exact Plan.small_mild
    obtain ⟨houtcome, hlife⟩ := misses_misnamed.outcome hreach hover hmild
    exact ⟨_, _, hreach, hover, hmild, congrArg Plan.ns hplan,
      not_surfaces_of_lifecycle (.inl hlife), houtcome, hlife⟩
  · have hleads := leads_faulted.1.trans leads_faulted.2
    have hreach := (Reachable.made made_small).leads hleads
    have hover : faulted.isOver = true := by decide +kernel
    have hmild : faulted.plan.Mild := by
      rw [plan_of_leads (.made made_small) hleads]
      exact Plan.small_mild
    obtain ⟨houtcome, hlife⟩ := misses_faulted.outcome hreach hover hmild
    exact ⟨faulted, garbled, hreach, hover, hmild, rfl,
      not_surfaces_of_lifecycle (.inr hlife), houtcome, hlife⟩

end Run

end OplogRelay
