import OplogRelay.Proofs.Run.Landmarks
import OplogRelay.Proofs.Run.Stopping
/-!
What a run opens and what it gives back. Resources are asked for in a fixed order, the next one only
when the one before it was obtained; at the end of a run, however it came about, each of them is
given back once, the last one first, and the result stays what it was before.
-/
namespace OplogRelay

namespace Event

def requested? : Event → Option Resource
  | .requested resource => some resource
  | _ => none

def obtained? : Event → Option Resource
  | .obtained resource => some resource
  | _ => none

def released? : Event → Option Resource
  | .released resource => some resource
  | _ => none

def warning? : Event → Option Record
  | .releaseFailed resource f =>
    some ⟨.coordinator, .warning, s!"Failed to close {resource.name}: {f.message}", []⟩
  | _ => none

theorem warnings_records (ev : Event) :
    ev.records.filter (·.level = .warning) = ev.warning?.toList := by
  cases ev with
  | forwarded entry count =>
    simp only [records]
    split <;> rfl
  | _ => rfl

end Event

namespace Journal

def requested (j : Journal) : List Resource := j.filterMap fun e => e.2.requested?

def obtained (j : Journal) : List Resource := j.filterMap fun e => e.2.obtained?

def released (j : Journal) : List Resource := j.filterMap fun e => e.2.released?

def warnings (j : Journal) : List Record := j.records.filter (·.level = .warning)

theorem filterMap_landmarks {α : Type} {f : Event → Option α}
    (h : ∀ ev, ev.isLandmark = false → f ev = none) (j : Journal) :
    j.landmarks.filterMap f = j.filterMap fun e => f e.2 := by
  rw [landmarks, List.filterMap_filter, List.filterMap_map]
  congr 1
  funext e
  show (if e.2.isLandmark = true then f e.2 else none) = f e.2
  split
  · rfl
  · next hnot => exact (h e.2 (by simpa using hnot)).symm

theorem requested_eq (j : Journal) : j.requested = j.landmarks.filterMap Event.requested? :=
  (filterMap_landmarks (fun ev h => by cases ev <;> first | rfl | cases h) j).symm

theorem obtained_eq (j : Journal) : j.obtained = j.landmarks.filterMap Event.obtained? :=
  (filterMap_landmarks (fun ev h => by cases ev <;> first | rfl | cases h) j).symm

theorem released_eq (j : Journal) : j.released = j.landmarks.filterMap Event.released? :=
  (filterMap_landmarks (fun ev h => by cases ev <;> first | rfl | cases h) j).symm

theorem warnings_eq (j : Journal) : j.warnings = j.landmarks.filterMap Event.warning? := by
  rw [filterMap_landmarks (fun ev h => by cases ev <;> first | rfl | cases h) j]
  induction j with
  | nil => rfl
  | cons e rest ih =>
    have hrest : warnings (e :: rest) = e.2.warning?.toList ++ warnings rest := by
      rw [← e.2.warnings_records, warnings, warnings, records, records, List.flatMap_cons,
        List.filter_append]
    rw [hrest, ih, List.filterMap_cons]
    cases e.2.warning? <;> rfl

/-- The discipline of asking: resources come in their order, and one is asked for only when all
before it were obtained. -/
structure Acquires (j : Journal) : Prop where
  order : j.requested <+: Run.Resource.order
  obtained : j.obtained <+: j.requested
  next : ∀ a b moment resource, j = a ++ (moment, .requested resource) :: b →
    Journal.obtained a = Journal.requested a

end Journal

namespace Run

variable {r s : Run} {held refused : List Resource}

theorem opening_cons (resource : Resource) (held refused : List Resource) :
    opening (resource :: held) refused =
      .requested resource :: .obtained resource :: opening held refused := rfl

theorem opening_nil (refused : List Resource) : opening [] refused = refused.map .requested := rfl

theorem requested_opening (held refused : List Resource) :
    (opening held refused).filterMap Event.requested? = held ++ refused := by
  induction held with
  | nil => simp [opening_nil, List.filterMap_map, Function.comp_def, Event.requested?]
  | cons resource held ih => simp [opening_cons, List.filterMap_cons, Event.requested?, ih]

theorem obtained_opening (held refused : List Resource) :
    (opening held refused).filterMap Event.obtained? = held := by
  induction held with
  | nil => simp [opening_nil, List.filterMap_map, Function.comp_def, Event.obtained?]
  | cons resource held ih => simp [opening_cons, List.filterMap_cons, Event.obtained?, ih]

theorem none_of_opening {α : Type} {f : Event → Option α} (hrequested : ∀ x, f (.requested x) = none)
    (hobtained : ∀ x, f (.obtained x) = none) (held refused : List Resource) :
    (opening held refused).filterMap f = [] := by
  induction held with
  | nil => simp [opening_nil, List.filterMap_map, hrequested]
  | cons resource held ih => simp [opening_cons, hrequested, hobtained, ih]

theorem opening_next {held refused : List Resource} {a b rest : List Event} {resource : Resource}
    (hone : refused.length ≤ 1) (hrest : rest.filterMap Event.requested? = [])
    (h : opening held refused ++ rest = a ++ .requested resource :: b) :
    a.filterMap Event.obtained? = a.filterMap Event.requested? := by
  have hnot (c : List Event) (hc : rest = c ++ .requested resource :: b) : False := by
    simp [hc, Event.requested?] at hrest
  induction held generalizing a with
  | nil =>
    cases a with
    | nil => rfl
    | cons ev a =>
      cases refused with
      | nil => exact (hnot _ h).elim
      | cons first others =>
        obtain rfl : others = [] := List.length_eq_zero_iff.mp (by simpa using hone)
        exact (hnot a (List.cons.inj h).2).elim
  | cons first held ih =>
    rw [opening_cons] at h
    match a, h with
    | [], _ => rfl
    | [ev], h => cases (List.cons.inj (List.cons.inj h).2).1
    | ev :: ev' :: a, h =>
      obtain ⟨hasked, h⟩ := List.cons.inj h
      obtain ⟨hobtained, h⟩ := List.cons.inj h
      simp [← hasked, ← hobtained, List.filterMap_cons, Event.obtained?, Event.requested?, ih h]

theorem released_returns (plan : Plan) (held : List Resource) :
    (plan.returns held).filterMap Event.released? = held := by
  induction held with
  | nil => rfl
  | cons resource held ih =>
    rw [plan.returns_cons]
    cases plan.releaseFault resource <;> simp [List.filterMap_cons, Event.released?, ih]

def Plan.warning? (plan : Plan) (resource : Resource) : Option Record :=
  (plan.releaseFault resource).bind fun f => (Event.releaseFailed resource f).warning?

theorem warnings_returns (plan : Plan) (held : List Resource) :
    (plan.returns held).filterMap Event.warning? = held.filterMap plan.warning? := by
  induction held with
  | nil => rfl
  | cons resource held ih =>
    have hwarning : plan.warning? resource =
        (plan.releaseFault resource).bind fun f => (Event.releaseFailed resource f).warning? := rfl
    rw [plan.returns_cons, List.filterMap_cons (f := plan.warning?), hwarning]
    cases plan.releaseFault resource <;> simp [List.filterMap_cons, Event.warning?, ih]

/-- Landmarks in order: what was asked for, what happened between, and what was given back. -/
structure Told (j : Journal) (plan : Plan) (held refused back : List Resource)
    (given : List Event) : Prop where
  landmarks : ∃ between, j.landmarks = opening held refused ++ (between ++ given) ∧
    ∀ ev ∈ between, ev = .streaming ∨ ev = .forwarderEnded
  order : held ++ refused <+: Resource.order
  refusal : refused.length ≤ 1
  given : given <+: plan.returns back

variable {j : Journal} {plan : Plan} {back : List Resource} {given : List Event}

theorem Told.filterMap_opening {α : Type} {f : Event → Option α}
    (h : Told j plan held refused back given)
    (hbetween : f .streaming = none ∧ f .forwarderEnded = none)
    (hgiven : ∀ x, f (.released x) = none ∧ ∀ e, f (.releaseFailed x e) = none) :
    ∃ rest, j.landmarks = opening held refused ++ rest ∧ rest.filterMap f = [] := by
  obtain ⟨between, hmarks, hnone⟩ := h.landmarks
  refine ⟨_, hmarks, ?_⟩
  rw [List.filterMap_eq_nil_iff]
  intro ev hev
  rcases List.mem_append.mp hev with hev | hev
  · rcases hnone ev hev with rfl | rfl
    · exact hbetween.1
    · exact hbetween.2
  · obtain ⟨resource, _, hev⟩ := List.mem_flatMap.mp (h.given.subset hev)
    rcases List.mem_cons.mp hev with rfl | hev
    · exact (hgiven _).1
    · obtain ⟨e, _, rfl⟩ := List.mem_map.mp hev
      exact (hgiven _).2 e

theorem Told.requested (h : Told j plan held refused back given) : j.requested = held ++ refused := by
  obtain ⟨rest, hmarks, hrest⟩ := h.filterMap_opening (f := Event.requested?) ⟨rfl, rfl⟩
    fun _ => ⟨rfl, fun _ => rfl⟩
  rw [j.requested_eq, hmarks, List.filterMap_append, requested_opening, hrest, List.append_nil]

theorem Told.obtained (h : Told j plan held refused back given) : j.obtained = held := by
  obtain ⟨rest, hmarks, hrest⟩ := h.filterMap_opening (f := Event.obtained?) ⟨rfl, rfl⟩
    fun _ => ⟨rfl, fun _ => rfl⟩
  rw [j.obtained_eq, hmarks, List.filterMap_append, obtained_opening, hrest, List.append_nil]

theorem Told.acquires (h : Told j plan held refused back given) : j.Acquires := by
  refine ⟨?_, ?_, ?_⟩
  · rw [h.requested]
    exact h.order
  · rw [h.requested, h.obtained]
    exact List.prefix_append _ _
  · rintro a b moment resource rfl
    obtain ⟨rest, hmarks, hrest⟩ := h.filterMap_opening (f := Event.requested?) ⟨rfl, rfl⟩
      fun _ => ⟨rfl, fun _ => rfl⟩
    have hsplit : Journal.landmarks (a ++ (moment, .requested resource) :: b) =
        Journal.landmarks a ++ .requested resource :: Journal.landmarks b := by
      rw [Journal.landmarks_append]
      rfl
    rw [Journal.obtained_eq, Journal.requested_eq]
    exact opening_next h.refusal hrest (hmarks.symm.trans hsplit)

theorem Told.filterMap_given {α : Type} {f : Event → Option α}
    (h : Told j plan held refused back given)
    (hbetween : f .streaming = none ∧ f .forwarderEnded = none)
    (hopening : ∀ x, f (.requested x) = none ∧ f (.obtained x) = none) :
    j.landmarks.filterMap f = given.filterMap f := by
  obtain ⟨between, hmarks, hnone⟩ := h.landmarks
  have hsilent : between.filterMap f = [] := by
    rw [List.filterMap_eq_nil_iff]
    intro ev hev
    rcases hnone ev hev with rfl | rfl
    · exact hbetween.1
    · exact hbetween.2
  rw [hmarks, List.filterMap_append, List.filterMap_append, hsilent,
    none_of_opening (fun x => (hopening x).1) fun x => (hopening x).2]
  rfl

theorem Told.released (h : Told j plan held refused back given) :
    j.released = given.filterMap Event.released? :=
  j.released_eq.trans (h.filterMap_given ⟨rfl, rfl⟩ fun _ => ⟨rfl, rfl⟩)

theorem Told.warnings (h : Told j plan held refused back given) :
    j.warnings = given.filterMap Event.warning? :=
  j.warnings_eq.trans (h.filterMap_given ⟨rfl, rfl⟩ fun _ => ⟨rfl, rfl⟩)

/-- A run that is not over has given nothing back; one that is has given back what it held, all of
it if no fault is more than the driver's. -/
theorem Marks.told (h : r.Marks) : ∃ held refused given,
    Told r.world.journal r.plan held refused held.reverse given ∧
    (r.isOver = false → given = []) ∧
    (r.isOver = true → r.plan.Mild → given = r.plan.returns held.reverse) ∧
    ∀ e, Namespace.parse? r.plan.ns = .error e → (∃ w, r.stage = .before w) → held ++ refused = [] := by
  cases h with
  | fresh _ _ hfalse hmarks =>
    refine ⟨[], [], [], ⟨⟨[], hmarks, by simp⟩, List.nil_prefix, Nat.zero_le 1, List.nil_prefix⟩,
      fun _ => rfl, ?_, fun _ _ _ => rfl⟩
    intro htrue
    cases hfalse.symm.trans htrue
  | barred held refused given _ _ htrue horder hone _ hns hgiven hmarks =>
    refine ⟨held, refused, given, ⟨⟨[], hmarks, by simp⟩, horder, hone, hgiven.first⟩, ?_,
      fun _ => hgiven.all, fun e he _ => hns e he⟩
    intro hfalse
    cases hfalse.symm.trans htrue
  | streaming hstage _ hfalse hmarks =>
    refine ⟨Resource.order, [], [], ⟨⟨[.streaming], hmarks, by simp⟩, List.prefix_refl _,
      Nat.zero_le 1, List.nil_prefix⟩, fun _ => rfl, ?_, ?_⟩
    · intro htrue
      cases hfalse.symm.trans htrue
    · rintro e _ ⟨w, hbefore⟩
      cases hbefore.symm.trans hstage
  | ended before after told given hstage _ htrue hjournal hbefore htold hgiven hafter =>
    refine ⟨Resource.order, [], given, ⟨⟨.streaming :: told, ?_, ?_⟩, List.prefix_refl _,
      Nat.zero_le 1, hgiven.first⟩, ?_, fun _ => hgiven.all, ?_⟩
    · rw [hjournal, Journal.landmarks_append, hbefore, hafter, List.append_assoc]
    · intro ev hev
      rcases htold with ⟨rfl, _⟩ | ⟨rfl, _⟩
      · simpa using hev
      · exact .inl (List.mem_singleton.mp hev)
    · intro hfalse
      cases hfalse.symm.trans htrue
    · rintro e _ ⟨w, hbefore'⟩
      cases hbefore'.symm.trans hstage

theorem Standing.unbarred {t : Transfer} (h : r.Standing) (hstage : r.stage = .moving t) :
    r.plan.barrier? = none := by
  cases h with
  | fresh hbefore => cases hbefore.symm.trans hstage
  | misnamed hbefore => cases hbefore.symm.trans hstage
  | barred hbefore => cases hbefore.symm.trans hstage
  | streaming _ hstarts => exact hstarts.unbarred
  | untimed _ hopen => exact hopen
  | ended _ hstarts => exact hstarts.unbarred

theorem requested_of_misnamed {e : NamespaceError} (h : Reachable r)
    (hns : Namespace.parse? r.plan.ns = .error e) : r.world.journal.requested = [] := by
  obtain ⟨held, refused, given, htold, _, _, hnone⟩ := (reachable_marks h).told
  rw [htold.requested]
  refine hnone e hns ?_
  cases hstage : r.stage with
  | before w => exact ⟨w, rfl⟩
  | moving t =>
    have hopen := (reachable_standing h).unbarred hstage
    cases hopen.symm.trans (Plan.barrier?_of_misnamed hns)

/-- At its end a run has given back what it held, the last thing first, whichever of the releases
failed; and the forwarder, if it had begun, had ended before and was not heard of again. -/
structure GivesBack (r : Run) : Prop where
  released : r.world.journal.released = r.world.journal.obtained.reverse
  warned : r.world.journal.warnings = r.world.journal.released.filterMap r.plan.warning?
  forwarder : r.world.journal.Unread ∨ ∃ t a b moment, r.transfer? = some t ∧
    t.forwarder.finished = true ∧ r.world.journal = a ++ (moment, .forwarderEnded) :: b ∧
    Journal.released a = [] ∧ Journal.Unread b

theorem Marks.forwarder (h : r.Marks) (hover : r.isOver = true) : r.world.journal.Unread ∨
    ∃ t a b moment, r.transfer? = some t ∧ t.forwarder.finished = true ∧
      r.world.journal = a ++ (moment, .forwarderEnded) :: b ∧ Journal.released a = [] ∧
      Journal.Unread b := by
  cases h with
  | fresh _ _ hfalse => cases hfalse.symm.trans hover
  | streaming _ _ hfalse => cases hfalse.symm.trans hover
  | barred _ _ _ _ _ _ _ _ _ _ _ _ hunread => exact .inl hunread
  | ended before after told given hstage _ _ hjournal hbefore htold _ _ hunread =>
    rcases htold with ⟨rfl, hended, a, moment, rfl⟩ | ⟨_, hnone⟩
    · refine .inr ⟨_, a, after, moment, transfer?_of_moving hstage,
        (Forwarder.finished_iff _).mpr hended, by rw [hjournal, List.append_assoc]; rfl, ?_, hunread⟩
      have hreleased : Journal.released (a ++ [(moment, .forwarderEnded)]) = [] := by
        rw [Journal.released_eq, hbefore]
        rfl
      simpa [Journal.released, Event.released?] using hreleased
    · refine .inl ?_
      rw [hjournal]
      intro e he
      exact (List.mem_append.mp he).elim (hnone e) (hunread e)

theorem givesBack (h : Reachable r) (hmild : r.plan.Mild) (hover : r.isOver = true) :
    r.GivesBack := by
  have hmarks := reachable_marks h
  obtain ⟨held, refused, given, htold, _, hall, _⟩ := hmarks.told
  have hgiven := hall hover hmild
  refine ⟨?_, ?_, hmarks.forwarder hover⟩
  · rw [htold.released, htold.obtained, hgiven, released_returns]
  · rw [htold.released, htold.warnings, hgiven, released_returns, warnings_returns]

/-- What a run comes to, and the lifecycle that it ends in: the first thing that bars it, or what its
transfer has come to. It is open as long as the transfer is not done. -/
def result? (r : Run) : Option (Lifecycle × Except Failure Unit) :=
  match Namespace.parse? r.plan.ns, r.plan.barrier?, r.plan.interval.wait?, r.stage with
  | .error e, _, _, _ => some (.initializing, .error (.configuration (.ns e)))
  | _, some e, _, _ => some (lifecycleAfter .initializing (.error e), .error e)
  | _, _, .error e, _ =>
    some (lifecycleAfter .streaming (.error (.conversion e)), .error (.conversion e))
  | _, _, .ok _, .moving t =>
    match t.phase with
    | .done result => some (lifecycleAfter .streaming result, result)
    | _ => none
  | _, _, .ok _, .before _ => none

theorem close_keeps (r : Run) (held : List Resource) (hmild : r.plan.Mild) :
    (r.close held).outcome = r.outcome ∧ (r.close held).lifecycle = r.lifecycle := by
  have hstop : r.stopForwarder.plan = r.plan ∧ r.stopForwarder.outcome = r.outcome ∧
      r.stopForwarder.lifecycle = r.lifecycle := by
    unfold stopForwarder
    split <;> exact ⟨rfl, rfl, rfl⟩
  obtain ⟨given, outcome, _, hkept, heq⟩ := release_returns held r.stopForwarder
  rw [close, heq]
  exact ⟨(hkept (hstop.1 ▸ hmild)).trans hstop.2.1, hstop.2.2⟩

/-- A run ends with the result that stood before anything was given back. -/
structure Settles (r s : Run) : Prop where
  kept : r.world.journal.released = []
  result : ∃ lifecycle result, r.result? = some (lifecycle, result) ∧ s.Reports result ∧
    s.lifecycle = lifecycle

theorem Plan.named_of_unbarred {plan : Plan} (h : plan.barrier? = none) :
    ∃ ns, Namespace.parse? plan.ns = .ok ns := by
  cases hns : Namespace.parse? plan.ns with
  | error e => cases h.symm.trans (barrier?_of_misnamed hns)
  | ok ns => exact ⟨ns, rfl⟩

theorem result?_of_untimed {e : ConversionError} (hopen : r.plan.barrier? = none)
    (hwait : r.plan.interval.wait? = .error e) : r.result? =
      some (lifecycleAfter .streaming (.error (.conversion e)), .error (.conversion e)) := by
  obtain ⟨ns, hns⟩ := Plan.named_of_unbarred hopen
  simp only [result?, hns, hopen, hwait]

theorem result?_of_done {t : Transfer} {result : Except Failure Unit} (hstarts : r.plan.Starts)
    (hstage : r.stage = .moving t) (hphase : t.phase = .done result) :
    r.result? = some (lifecycleAfter .streaming result, result) := by
  obtain ⟨ns, hns⟩ := Plan.named_of_unbarred hstarts.unbarred
  obtain ⟨interval, hwait⟩ := hstarts.timed
  simp only [result?, hns, hstarts.unbarred, hwait, hstage, hphase]

theorem result_of_start {w : World} (h : Reachable r) (hs : r.Step s) (hmild : s.plan.Mild)
    (hover : s.isOver = true) (hbefore : r.stage = .before w) (hlive : r.isOver = false) :
    ∃ lifecycle result, r.result? = some (lifecycle, result) ∧ s.Reports result ∧
      s.lifecycle = lifecycle := by
  have hstanding := reachable_standing h
  have hplan := plan_of_step hstanding hs
  cases reachable_standing (h.step hs) with
  | fresh _ _ _ _ hfalse => cases hfalse.symm.trans hover
  | misnamed _ _ _ _ hns houtcome hlife =>
    rw [hplan] at hns
    refine ⟨_, .error (.configuration (.ns _)), ?_, houtcome, hlife⟩
    simp only [result?, hns]
  | barred _ _ _ hns hbars hended =>
    rw [hplan] at hns hbars
    refine ⟨_, _, ?_, hended.reports hmild, hended.lifecycle⟩
    simp only [result?, hns, hbars]
  | streaming _ _ _ _ _ hfalse => cases hfalse.symm.trans hover
  | untimed _ hopen _ _ _ _ _ hwait hended =>
    rw [hplan] at hopen hwait
    exact ⟨_, _, result?_of_untimed hopen hwait, hended.reports hmild, hended.lifecycle⟩
  | ended hstage hstarts =>
    obtain ⟨interval, hok⟩ := hstarts.timed
    obtain ⟨v, _, _, _, _, hopens⟩ := opens_of_step hstanding hs hbefore hstage
    cases hopens with
    | barred _ _ _ _ _ hmoving => cases hmoving.symm.trans hstage
    | untimed _ _ _ hwait _ _ hsame =>
      rw [← hsame] at hwait
      cases hok.symm.trans hwait
    | streams => cases hlive.symm.trans hover

theorem settles (h : Reachable r) (hs : r.Step s) (hmild : r.plan.Mild) (hlive : r.isOver = false)
    (hover : s.isOver = true) : r.Settles s := by
  have hstanding := reachable_standing h
  have hmild : s.plan.Mild := plan_of_step hstanding hs ▸ hmild
  constructor
  · obtain ⟨held, refused, given, htold, hnone, _⟩ := (reachable_marks h).told
    rw [htold.released, hnone hlive]
    rfl
  · have hsame (hkept : s.endedAt = r.endedAt) : False := by
      rw [isOver, hkept] at hover
      cases hlive.symm.trans hover
    cases hstage : r.stage with
    | before w => exact result_of_start h hs hmild hover hstage hlive
    | moving t =>
      cases hs with
      | start hstart =>
        obtain ⟨w, hbefore, _⟩ := hstanding.before_of_start? hstart
        cases hbefore.symm.trans hstage
      | move => exact (hsame rfl).elim
      | @finish _ result _ hmoving hphase =>
        cases hmoving.symm.trans hstage
        have hended := ended_finish_of_moving result allResources hstage
        rw [hstanding.lifecycle_of_live hstage hlive] at hended
        exact ⟨_, _, result?_of_done (hstanding.starts hstage hlive) hstage hphase,
          hended.reports hmild, hended.lifecycle⟩
      | pass moment _ => exact (hsame (touches_pass r moment).endedAt).elim
      | meet a ha => exact (hsame (touches_act ha).endedAt).elim

/-- Resources are asked for in their order and none after a refusal, none at all for a namespace that
is refused; and if no resource answers its release with more than a fault of the driver, a run that
is over has given back just what it held, giving back changes neither outcome nor lifecycle, and a
run ends with the result that stood before. -/
theorem gives_back_all (h : Reachable r) (hmild : r.plan.Mild) :
    r.world.journal.Acquires ∧
    (∀ e, Namespace.parse? r.plan.ns = .error e → r.world.journal.requested = []) ∧
    (r.isOver = true → r.GivesBack) ∧
    (∀ held, (r.close held).outcome = r.outcome ∧ (r.close held).lifecycle = r.lifecycle) ∧
    ∀ s, r.Step s → r.isOver = false → s.isOver = true → r.Settles s := by
  obtain ⟨held, refused, given, htold, _⟩ := (reachable_marks h).told
  refine ⟨htold.acquires, fun e he => requested_of_misnamed h he, givesBack h hmild,
    fun held => r.close_keeps held hmild, ?_⟩
  intro s hs hlive hover
  exact settles h hs hmild hlive hover

def Plan.grudging : Plan := { Plan.small with
  cursorFault := some { kind := .driver .networkTimeout, message := "late" }
  destination := {
    name := "destination"
    releaseFault := some { kind := .driver .autoReconnect, message := "reset" } } }

theorem Plan.grudging_mild : Plan.grudging.Mild := by
  intro resource f hf
  cases resource with
  | cursor =>
    cases hf
    rfl
  | session side =>
    cases side with
    | destination =>
      cases hf
      rfl
    | source => cases hf

def grudging : Run := construct Plan.grudging smallLog (.whole 0) true false

theorem made_grudging : Made grudging := by
  have hplan : Plan.grudging.make? 2 (.whole 5) = .ok Plan.grudging := rfl
  exact made_construct smallLog (.whole 0) true false hplan

def leaving : Run := Timed.run none 8 (grudging.act .requestShutdown).begun

theorem leads_grudging (ticks : Nat) :
    Leads grudging (Timed.run none ticks (grudging.act .requestShutdown).begun) := by
  have hmade := Reachable.made made_grudging
  have hbegun := Relation.ReflTransGen.tail (leads_act .requestShutdown hmade) (.start (start?_eq_begun rfl))
  exact hbegun.trans (leads_ticks ticks (hmade.leads hbegun))

/-- Two of three releases fail, each of them is warned of, and the run stops cleanly all the same. -/
theorem gives_back_all_grudging : ∃ s, Reachable leaving ∧ leaving.plan.Mild ∧ leaving.Step s ∧
    leaving.isOver = false ∧ s.isOver = true ∧ leaving.Settles s ∧ s.world.journal.Acquires ∧
    s.GivesBack ∧ s.world.journal.released = allResources ∧
    s.world.journal.warnings.length = 2 ∧ s.lifecycle = .stopped := by
  have hreach := (Reachable.made made_grudging).leads (leads_grudging 8)
  have hplan : leaving.plan = Plan.grudging := plan_of_leads (.made made_grudging) (leads_grudging 8)
  have hnext : (leaving.step?.any fun s => s.isOver && s.lifecycle == .stopped &&
      s.world.journal.released == allResources && s.world.journal.warnings.length == 2) = true := by
    decide +kernel
  obtain ⟨s, hs, hall⟩ := (Option.any_eq_true _ _).mp hnext
  simp only [Bool.and_eq_true, beq_iff_eq] at hall
  obtain ⟨⟨⟨hover, hlife⟩, hreleased⟩, hwarnings⟩ := hall
  have hstep := step_of_step? hs
  have hlive : leaving.isOver = false := by decide +kernel
  have hmild : leaving.plan.Mild := by
    rw [hplan]
    exact Plan.grudging_mild
  have hmild' : s.plan.Mild := by
    rw [plan_of_step (reachable_standing hreach) hstep]
    exact hmild
  obtain ⟨_, _, _, _, hsettles⟩ := gives_back_all hreach hmild
  obtain ⟨hacquires, _, hgives, _⟩ := gives_back_all (hreach.step hstep) hmild'
  exact ⟨s, hreach, hmild, hstep, hlive, hover, hsettles s hstep hlive hover, hacquires,
    hgives hover, hreleased, hwarnings, hlife⟩

end Run

end OplogRelay
