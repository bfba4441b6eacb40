import OplogRelay.Proofs.Run.Execution
import OplogRelay.Proofs.Transfer.Timing
/-!
Landmarks: the events of a journal that tell how far a run has come, what it has asked for and what it
has given back. Which of them there are, and in which order, depends on nothing but where the run
stands.
-/
namespace OplogRelay

namespace Event

def isLandmark : Event → Bool
  | requested _ | obtained _ | streaming | forwarderEnded | released _ | releaseFailed _ _ => true
  | _ => false

variable {ev : Event}

theorem not_landmark_of_reading (h : ev.IsOfReading) : ev.isLandmark = false := by
  cases ev <;> first | rfl | exact h.elim

theorem not_landmark_of_round (h : ev.isOfRound = true) : ev.isLandmark = false := by
  cases ev <;> first | rfl | cases h

end Event

namespace Journal

def landmarks (j : Journal) : List Event := (j.map Prod.snd).filter Event.isLandmark

def Unread (j : Journal) : Prop := ∀ e ∈ j, ¬ e.2.IsOfReading

variable {j : Journal} {now : Nat} {events : List Event}

@[simp]
theorem landmarks_append (a b : Journal) : (a ++ b : Journal).landmarks = a.landmarks ++ b.landmarks := by
  simp [landmarks]

@[simp]
theorem landmarks_note (j : Journal) (now : Nat) (events : List Event) :
    (j.note now events).landmarks = j.landmarks ++ events.filter Event.isLandmark := by
  simp [landmarks, note, Function.comp_def]

theorem landmarks_note_of_none (h : ∀ ev ∈ events, ev.isLandmark = false) :
    (j.note now events).landmarks = j.landmarks := by
  have hnone : events.filter Event.isLandmark = [] := by
    rw [List.filter_eq_nil_iff]
    intro ev hev
    simp [h ev hev]
  rw [landmarks_note, hnone, List.append_nil]

theorem Unread.note (h : j.Unread) (hevents : ∀ ev ∈ events, ¬ ev.IsOfReading) :
    (j.note now events).Unread := by
  intro e he
  rcases List.mem_append.mp he with he | he
  · exact h e he
  · obtain ⟨ev, hev, rfl⟩ := List.mem_map.mp he
    exact hevents ev hev

end Journal

namespace Run

variable {r s : Run} {t u : Transfer} {w : World}

def landmarks (r : Run) : List Event := r.world.journal.landmarks

theorem landmarks_onNote (r : Run) (events : List Event) :
    (r.note events).landmarks = r.landmarks ++ events.filter Event.isLandmark := by
  rw [landmarks, note, world_onWorld]
  exact Journal.landmarks_note _ _ _

def Plan.returns (plan : Plan) (held : List Resource) : List Event :=
  held.flatMap fun resource =>
    .released resource :: (plan.releaseFault resource).toList.map (.releaseFailed resource)

theorem Plan.returns_cons (plan : Plan) (resource : Resource) (held : List Resource) :
    plan.returns (resource :: held) = .released resource ::
      ((plan.releaseFault resource).toList.map (.releaseFailed resource) ++ plan.returns held) := by
  simp [returns]

theorem Plan.returns_landmarks (plan : Plan) (held : List Resource) :
    ∀ ev ∈ plan.returns held, ev.isLandmark = true ∧ ¬ ev.IsOfReading := by
  intro ev hev
  obtain ⟨resource, _, hev⟩ := List.mem_flatMap.mp hev
  rcases List.mem_cons.mp hev with rfl | hev
  · exact ⟨rfl, id⟩
  · obtain ⟨f, _, rfl⟩ := List.mem_map.mp hev
    exact ⟨rfl, id⟩

/-- What a release tells, all of it if no fault is more than the driver's. -/
structure Plan.Returns (plan : Plan) (held : List Resource) (given : List Event) : Prop where
  first : given <+: plan.returns held
  all : plan.Mild → given = plan.returns held

/-- The release of resources: the outcome stays if no fault is more than the driver's. -/
theorem release_returns (held : List Resource) (r : Run) :
    ∃ given outcome, r.plan.Returns held given ∧ (r.plan.Mild → outcome = r.outcome) ∧
      r.release held = { r.note given with outcome := outcome } := by
  induction held generalizing r with
  | nil =>
    refine ⟨[], r.outcome, ⟨List.prefix_refl _, fun _ => rfl⟩, fun _ => rfl, ?_⟩
    rw [note_nil]
    rfl
  | cons resource rest ih =>
    have hreturns := r.plan.returns_cons resource rest
    unfold release
    cases hf : r.plan.releaseFault resource with
    | none =>
      obtain ⟨given, outcome, hgiven, hkept, heq⟩ := ih (r.note [.released resource])
      rw [hf] at hreturns
      refine ⟨.released resource :: given, outcome, ⟨?_, fun hmild => ?_⟩, hkept, ?_⟩
      · rw [hreturns]
        exact (List.prefix_cons_inj _).mpr hgiven.first
      · rw [hreturns, hgiven.all hmild]
        rfl
      · dsimp only
        rw [heq, note_note]
        rfl
    | some f =>
      rw [hf] at hreturns
      dsimp only
      by_cases hdriver : f.isDriver = true
      · obtain ⟨given, outcome, hgiven, hkept, heq⟩ :=
          ih ((r.note [.released resource]).note [.releaseFailed resource f])
        refine ⟨.released resource :: .releaseFailed resource f :: given, outcome,
          ⟨?_, fun hmild => ?_⟩, hkept, ?_⟩
        · rw [hreturns]
          exact (List.prefix_cons_inj _).mpr ((List.prefix_cons_inj _).mpr hgiven.first)
        · rw [hreturns, hgiven.all hmild]
          rfl
        · rw [if_pos hdriver, heq, note_note, note_note]
          rfl
      · have hharsh : ¬ r.plan.Mild := fun hmild => hdriver (hmild resource f hf)
        refine ⟨[.released resource], _, ⟨?_, fun hmild => absurd hmild hharsh⟩,
          fun hmild => absurd hmild hharsh, by rw [if_neg hdriver]⟩
        rw [hreturns]
        exact ⟨_, rfl⟩

theorem Plan.Returns.landmarks {plan : Plan} {held : List Resource} {given : List Event}
    (h : plan.Returns held given) : given.filter Event.isLandmark = given ∧
      ∀ ev ∈ given, ¬ ev.IsOfReading := by
  have hall := plan.returns_landmarks held
  refine ⟨?_, fun ev hev => (hall ev (h.first.subset hev)).2⟩
  rw [List.filter_eq_self]
  exact fun ev hev => (hall ev (h.first.subset hev)).1

def parting (r : Run) : Except Failure Unit → List Event
  | .ok () => [.stopped { r.stats with lifecycle := .stopped }]
  | .error e => if e.isOwn then [.failed e] else []

theorem parting_silent (r : Run) (result : Except Failure Unit) :
    ∀ ev ∈ r.parting result, ev.isLandmark = false ∧ ¬ ev.IsOfReading := by
  cases result with
  | ok => exact List.forall_mem_singleton.mpr ⟨rfl, id⟩
  | error e =>
    unfold parting
    dsimp only
    split
    · exact List.forall_mem_singleton.mpr ⟨rfl, id⟩
    · simp

theorem settle_parting (r : Run) (result : Except Failure Unit) :
    r.settle result = { r.note (r.parting result) with
      lifecycle := lifecycleAfter r.lifecycle result, outcome := some (r.verdict result) } := by
  cases result with
  | ok => rfl
  | error e =>
    unfold settle lifecycleAfter parting
    dsimp only
    by_cases hown : e.isOwn = true
    · rw [if_pos hown, if_pos hown, if_pos hown]
      rfl
    · rw [if_neg hown, if_neg hown, if_neg hown, note_nil]
      rfl

theorem journal_note (r : Run) (events : List Event) :
    (r.note events).world.journal = r.world.journal.note r.world.now events := by
  rw [note, world_onWorld]
  rfl

theorem finish_before_tells (e : Failure) (held : List Resource) (hstage : r.stage = .before w) :
    ∃ given, r.plan.Returns held given ∧ (r.finish (.error e) held).world.journal =
      r.world.journal.note r.world.now (r.parting (.error e) ++ given) := by
  have hstop : (r.settle (.error e)).stopForwarder = r.settle (.error e) := by
    rw [settle_parting]
    simp [stopForwarder, note, onWorld, Stage.onWorld, hstage]
  obtain ⟨given, outcome, hgiven, _, heq⟩ := release_returns held (r.settle (.error e))
  refine ⟨given, by rwa [settle_parting] at hgiven, ?_⟩
  rw [finish, close, hstop, heq, settle_parting]
  show ((r.note (r.parting (.error e))).note given).world.journal = _
  rw [note_note, journal_note]

theorem finish_moving_tells (result : Except Failure Unit) (held : List Resource)
    (hstage : r.stage = .moving t) :
    ∃ given, r.plan.Returns held given ∧ (r.finish result held).world.journal =
      r.world.journal.note r.world.now (r.parting result ++ [.forwarderEnded] ++ given) := by
  obtain ⟨plan, stage, lifecycle, started, own, caller, outcome, endedAt⟩ := r
  cases hstage
  have hstop := settle_parting (.mk plan (.moving t) lifecycle started own caller outcome endedAt)
    result
  obtain ⟨given, outcome', hgiven, _, heq⟩ := release_returns held
    (settle (.mk plan (.moving t) lifecycle started own caller outcome endedAt) result).stopForwarder
  refine ⟨given, ?_, ?_⟩
  · rw [hstop] at hgiven
    exact hgiven
  · rw [finish, close, heq, hstop]
    simp only [stopForwarder, note, onWorld, Stage.onWorld, Transfer.onWorld, Transfer.note, world,
      Stage.world, World.journal_note, World.now_note, Journal.note_note, List.append_assoc]

/-- What is told of resources that are asked for one after the other: some are obtained, and the
refusal of one is the end of it. -/
def opening (held refused : List Resource) : List Event :=
  held.flatMap (fun resource => [.requested resource, .obtained resource]) ++
    refused.map .requested

theorem opening_snoc (held : List Resource) (resource : Resource) :
    opening (held ++ [resource]) [] = opening held [] ++ [.requested resource, .obtained resource] := by
  simp [opening]

theorem opening_refused (held : List Resource) (resource : Resource) :
    opening held [resource] = opening held [] ++ [.requested resource] := by
  simp [opening]

/-- A run that has been started and has not begun to stream: what it has obtained and what it was
refused. -/
structure Seeks (r : Run) (held refused : List Resource) : Prop where
  before : ∃ w, r.stage = .before w
  started : r.started = true
  live : r.isOver = false
  landmarks : r.landmarks = opening held refused
  unread : r.world.journal.Unread

variable {held refused : List Resource}

theorem Seeks.tell {held' refused' : List Resource} {events : List Event}
    (h : r.Seeks held refused)
    (hevents : opening held refused ++ events.filter Event.isLandmark = opening held' refused')
    (hsilent : ∀ ev ∈ events, ¬ ev.IsOfReading) : (r.note events).Seeks held' refused' where
  before := by
    obtain ⟨w, hw⟩ := h.before
    exact ⟨_, note_of_before hw events⟩
  started := h.started
  live := h.live
  landmarks := by
    rw [landmarks_onNote, h.landmarks, hevents]
  unread := by
    rw [journal_note]
    exact h.unread.note hsilent

theorem Seeks.connect (h : r.Seeks held []) (side : Side) :
    (∃ s e, r.connect side = (s, some e) ∧ s.plan = r.plan ∧ s.Seeks held [.session side]) ∨
      ∃ s, r.connect side = (s, none) ∧ s.plan = r.plan ∧ s.Seeks (held ++ [.session side]) [] := by
  have hasked : (r.note [.requested (.session side)]).Seeks held [.session side] :=
    h.tell (by rw [opening_refused]; rfl) (by simp [Event.IsOfReading])
  unfold Run.connect
  dsimp only
  split
  · exact .inl ⟨_, _, rfl, rfl, hasked⟩
  · refine .inr ⟨_, rfl, rfl, hasked.tell ?_ (by simp [Event.IsOfReading])⟩
    rw [opening_refused, opening_snoc, List.append_assoc]
    rfl

def Resource.order : List Resource := allResources.reverse

/-- How far a run has come, told by its journal: what it has asked for and been given, whether it
has begun to stream, and what it has given back after its forwarder has ended. -/
inductive Marks (r : Run) : Prop where
  | fresh {w : World} : r.stage = .before w → r.started = false → r.isOver = false → r.landmarks = [] →
      r.world.journal.Unread → Marks r
  | barred {w : World} (held refused : List Resource) (given : List Event) :
      r.stage = .before w → r.started = true → r.isOver = true →
      held ++ refused <+: Resource.order → refused.length ≤ 1 → .cursor ∉ held →
      (∀ e, Namespace.parse? r.plan.ns = .error e → held ++ refused = []) →
      r.plan.Returns held.reverse given → r.landmarks = opening held refused ++ given →
      r.world.journal.Unread → Marks r
  | streaming {t : Transfer} : r.stage = .moving t → r.started = true → r.isOver = false →
      r.landmarks = opening Resource.order [] ++ [.streaming] → Marks r
  | ended {t : Transfer} (before after : Journal) (told given : List Event) :
      r.stage = .moving t → r.started = true → r.isOver = true →
      r.world.journal = before ++ after →
      Journal.landmarks before = opening Resource.order [] ++ .streaming :: told →
      (told = [.forwarderEnded] ∧ t.forwarder.ending ≠ none ∧
        (∃ a moment, before = a ++ [(moment, .forwarderEnded)]) ∨
        told = [] ∧ Journal.Unread before) →
      r.plan.Returns allResources given → Journal.landmarks after = given →
      Journal.Unread after → Marks r

theorem Seeks.finish (h : r.Seeks held refused) (hasked : held ++ refused <+: Resource.order)
    (hone : refused.length ≤ 1) (hcursor : .cursor ∉ held)
    (hns : ∀ e, Namespace.parse? r.plan.ns = .error e → held ++ refused = []) (e : Failure) :
    (r.finish (.error e) held.reverse).Marks := by
  obtain ⟨w, hw⟩ := h.before
  obtain ⟨events, outcome, _, _, heq⟩ := r.finish_of_before (.error e) held.reverse hw
  obtain ⟨given, hgiven, hjournal⟩ := finish_before_tells e held.reverse hw
  obtain ⟨hfilter, hsilent⟩ := hgiven.landmarks
  have hparting := r.parting_silent (.error e)
  refine .barred (w := w.note events) held refused given ?_ ?_ rfl hasked hone hcursor ?_ ?_ ?_ ?_
  · rw [heq]
  · rw [heq]
    exact h.started
  · rw [heq]
    exact hns
  · rw [heq]
    exact hgiven
  · rw [Run.landmarks, hjournal, Journal.landmarks_note, List.filter_append, hfilter]
    have hnone : (r.parting (.error e)).filter Event.isLandmark = [] := by
      rw [List.filter_eq_nil_iff]
      intro ev hev
      simp [(hparting ev hev).1]
    rw [hnone, List.nil_append, ← Run.landmarks, h.landmarks]
  · rw [hjournal]
    refine h.unread.note fun ev hev => ?_
    rcases List.mem_append.mp hev with hev | hev
    · exact (hparting ev hev).2
    · exact hsilent ev hev

theorem order_eq :
    Resource.order = [.session .destination, .session .source, .cursor] := rfl

theorem marks_untimed (e : Failure) (hstage : r.stage = .moving t) (hstarted : r.started = true)
    (hlandmarks : r.landmarks = opening Resource.order [] ++ [.streaming])
    (hunread : r.world.journal.Unread) :
    Marks { (r.settle (.error e)).release allResources with endedAt := some r.world.now } := by
  obtain ⟨given, outcome, hgiven, _, heq⟩ := release_returns allResources (r.settle (.error e))
  obtain ⟨hfilter, hsilent⟩ := hgiven.landmarks
  have hparting := r.parting_silent (.error e)
  rw [heq, settle_parting]
  rw [settle_parting] at hgiven
  have hnow : (r.note (r.parting (.error e))).world.now = r.world.now := by
    rw [note, world_onWorld]
    rfl
  refine .ended (t := (t.note (r.parting (.error e))).note given)
    (r.world.journal.note r.world.now (r.parting (.error e))) (.note [] r.world.now given) [] given
    ?_ hstarted rfl ?_ ?_ (.inr ⟨rfl, ?_⟩) hgiven ?_ ?_
  · simp [note, onWorld, Stage.onWorld, hstage, Transfer.note]
  · show ((r.note (r.parting (.error e))).note given).world.journal = _
    rw [journal_note, journal_note, hnow]
    rfl
  · rw [Journal.landmarks_note_of_none fun ev hev => (hparting ev hev).1]
    exact hlandmarks
  · exact hunread.note fun ev hev => (hparting ev hev).2
  · rw [Journal.landmarks_note, hfilter]
    rfl
  · exact Journal.Unread.note (fun e he => absurd he (by simp)) hsilent

theorem Seeks.openCursor {ns : Namespace}
    (h : r.Seeks [.session .destination, .session .source] [])
    (hns : Namespace.parse? r.plan.ns = .ok ns) : (r.openCursor ns).Marks := by
  have hgood {e : NamespaceError} {refused : List Resource}
      (he : Namespace.parse? r.plan.ns = .error e) :
      [.session .destination, .session .source] ++ refused = [] := by
    cases hns.symm.trans he
  have hasked (threshold : Timestamp) (idle : Quantity) :
      (r.note [.tailing ns threshold idle, .requested .cursor]).Seeks
        [.session .destination, .session .source] [.cursor] :=
    h.tell (by rw [opening_refused]; rfl) (by simp [Event.IsOfReading])
  unfold Run.openCursor Opening.tail
  cases Window.threshold? r.plan.opening.lookback r.plan.opening.clock with
  | error e =>
    dsimp only
    rw [note_nil]
    exact h.finish ⟨[.cursor], rfl⟩ (Nat.zero_le 1) (by simp) (fun _ => hgood) _
  | ok threshold =>
    have hbarred (e : Failure) := (hasked threshold r.plan.idle).finish (List.prefix_refl _)
      (Nat.le_refl 1) (by simp) (fun _ => hgood) e
    have hopened : (r.note [.tailing ns threshold r.plan.idle, .requested .cursor]).landmarks ++
        [.obtained .cursor, .streaming] = opening Resource.order [] ++ [.streaming] := by
      rw [(hasked threshold r.plan.idle).landmarks]
      rfl
    have hunread := (hasked threshold r.plan.idle).unread
    obtain ⟨w, hw⟩ := (hasked threshold r.plan.idle).before
    dsimp only
    by_cases hoplog : r.plan.opening.hasOplog = true
    · rw [if_pos hoplog]
      cases r.plan.opening.fault with
      | some f => exact hbarred _
      | none =>
        dsimp only
        have hstarted : (r.note [.tailing ns threshold r.plan.idle,
            .requested .cursor]).started = true := h.started
        have hfalse : (r.note [.tailing ns threshold r.plan.idle,
            .requested .cursor]).isOver = false := h.live
        generalize r.note [.tailing ns threshold r.plan.idle, .requested .cursor] = q at *
        have hmarks : (q.note [.obtained .cursor, .streaming]).landmarks =
            opening Resource.order [] ++ [.streaming] := by
          rw [landmarks_onNote]
          exact hopened
        have hsilent : (q.note [.obtained .cursor, .streaming]).world.journal.Unread := by
          rw [journal_note]
          exact hunread.note (by simp [Event.IsOfReading])
        split
        · exact .streaming rfl hstarted hfalse hmarks
        · exact marks_untimed _ rfl hstarted hmarks hsilent
    · rw [if_neg hoplog]
      exact hbarred _

theorem returns_nil (plan : Plan) : plan.Returns [] [] := ⟨List.prefix_refl _, fun _ => rfl⟩

theorem Seeks.openAll (h : r.Seeks [] []) : r.openAll.Marks := by
  unfold Run.openAll
  cases hns : Namespace.parse? r.plan.ns with
  | error e =>
    obtain ⟨w, hw⟩ := h.before
    exact .barred [] [] [] hw h.started rfl List.nil_prefix (Nat.zero_le 1)
      (by simp) (fun _ _ => rfl) (returns_nil _) h.landmarks h.unread
  | ok ns =>
    have hgood {e : NamespaceError} {resources : List Resource}
        (he : Namespace.parse? r.plan.ns = .error e) : resources = [] := by
      cases hns.symm.trans he
    have hnamed : (r.note [.namespaceAccepted ns]).Seeks [] [] :=
      h.tell rfl (by simp [Event.IsOfReading])
    dsimp only
    rcases hnamed.connect .destination with ⟨s, e, heq, hplan, hs⟩ | ⟨s, heq, hplan, hs⟩
    · rw [heq]
      exact hs.finish ⟨_, order_eq⟩ (Nat.le_refl 1) (by simp) (fun _ he => hgood (hplan ▸ he)) e
    · rw [heq]
      dsimp only
      rcases hs.connect .source with ⟨u, e, heq', hplan', hu⟩ | ⟨u, heq', hplan', hu⟩
      · rw [heq']
        exact hu.finish ⟨_, order_eq⟩ (Nat.le_refl 1) (by simp)
          (fun _ he => hgood (hplan ▸ hplan' ▸ he)) e
      · rw [heq']
        exact hu.openCursor (by rw [hplan', hplan]; exact hns)

theorem journal_pass (moment : Nat) (r : Run) :
    (Timed.moveTo moment r : Run).world.journal = r.world.journal := by
  obtain ⟨plan, stage, _⟩ := r
  cases stage <;> rfl

theorem journal_act {a : Action} (ha : ∀ span, a ≠ .advance span) :
    ∃ counts : List Nat, (r.act a).world.journal =
      r.world.journal.note r.world.now (counts.map .appended) := by
  have hsame {s : Run} (hs : s.world.journal = r.world.journal) : ∃ counts : List Nat,
      s.world.journal = r.world.journal.note r.world.now (counts.map .appended) := by
    refine ⟨[], ?_⟩
    rw [hs]
    exact (Journal.note_nil _ _).symm
  have hworld (f : World → World) (q : Run) (hf : ∀ w, (f w).journal = w.journal) :
      (q.onWorld f).world.journal = q.world.journal := by
    rw [world_onWorld, hf]
  have hput (docs : List Document) : ∃ counts : List Nat, (r.append docs).world.journal =
      r.world.journal.note r.world.now (counts.map .appended) := by
    obtain ⟨plan, stage, _⟩ := r
    cases stage <;> exact ⟨[docs.length], rfl⟩
  cases a with
  | advance span => exact absurd rfl (ha span)
  | append docs => exact hput docs
  | inject f =>
    obtain ⟨plan, stage, _⟩ := r
    cases stage <;> exact ⟨[0], rfl⟩
  | signalCaller =>
    simp only [act, signalCaller]
    split
    · exact hsame rfl
    · split
      · exact hsame (hworld _ _ fun _ => rfl)
      · exact hsame rfl
  | requestShutdown =>
    simp only [act, requestShutdown]
    split
    · exact hsame (hworld _ _ fun _ => rfl)
    · exact hsame rfl
  | reject message => exact hsame (hworld _ _ fun _ => rfl)
  | raise f => exact hsame (hworld _ _ fun _ => rfl)
  | delay seconds => exact hsame (hworld _ _ fun _ => rfl)

theorem Marks.touches (counts : List Nat) (h : r.Marks) (ht : Touches r s)
    (hjournal : s.world.journal = r.world.journal.note r.world.now (counts.map .appended)) :
    s.Marks := by
  have hsilent : ∀ ev ∈ counts.map Event.appended, ev.isLandmark = false ∧ ¬ ev.IsOfReading := by
    intro ev hev
    obtain ⟨count, _, rfl⟩ := List.mem_map.mp hev
    exact ⟨rfl, id⟩
  have hsame : s.landmarks = r.landmarks := by
    rw [Run.landmarks, hjournal, Journal.landmarks_note_of_none fun ev hev => (hsilent ev hev).1]
    rfl
  have hunread (hr : r.world.journal.Unread) : s.world.journal.Unread := by
    rw [hjournal]
    exact hr.note fun ev hev => (hsilent ev hev).2
  have hover (b : Bool) (hb : r.isOver = b) : s.isOver = b := by
    rw [isOver, ht.endedAt]
    exact hb
  cases h with
  | fresh hstage hstarted hfalse hnone hr =>
    obtain ⟨v, hv, _⟩ := ht.before _ hstage
    exact .fresh hv (ht.started.trans hstarted) (hover _ hfalse) (hsame.trans hnone) (hunread hr)
  | barred held refused given hstage hstarted htrue hasked hone hcursor hns hgiven hmarks hr =>
    obtain ⟨v, hv, _⟩ := ht.before _ hstage
    exact .barred held refused given hv (ht.started.trans hstarted) (hover _ htrue) hasked hone hcursor
      (ht.plan ▸ hns) (ht.plan ▸ hgiven) (hsame.trans hmarks) (hunread hr)
  | streaming hstage hstarted hfalse hmarks =>
    obtain ⟨v, hv, _⟩ := ht.moving _ hstage
    exact .streaming hv (ht.started.trans hstarted) (hover _ hfalse) (hsame.trans hmarks)
  | ended before after told given hstage hstarted htrue hsplit hbefore htold hgiven hafter hr =>
    obtain ⟨v, hv, _, hrests, _⟩ := ht.moving _ hstage
    refine .ended before (after.note r.world.now (counts.map .appended)) told given hv
      (ht.started.trans hstarted) (hover _ htrue) ?_ hbefore ?_
      (ht.plan ▸ hgiven) ?_ (hr.note fun ev hev => (hsilent ev hev).2)
    · rw [hjournal, hsplit]
      exact List.append_assoc _ _ _
    · rw [hrests.ending]
      exact htold
    · rw [Journal.landmarks_note_of_none fun ev hev => (hsilent ev hev).1, hafter]

theorem marks_made (h : Made r) : r.Marks := by
  cases h with
  | @planned _ _ _ _ w external hnew _ =>
    refine .fresh rfl rfl rfl ?_ ?_
    · apply List.filter_eq_nil_iff.mpr
      intro ev hev
      obtain ⟨p, hp, rfl⟩ := List.mem_map.mp hev
      obtain ⟨count, hcount⟩ := hnew.journal p hp
      simp [hcount, Event.isLandmark]
    · intro p hp hreading
      obtain ⟨count, hcount⟩ := hnew.journal p hp
      rw [hcount] at hreading
      exact hreading

theorem Marks.start (h : r.Marks) (hr : r.Standing) (hstart : r.start? = .ok s) : s.Marks := by
  obtain ⟨hnot, rfl⟩ := begun_of_start? hstart
  obtain ⟨w, hstage, _⟩ := hr.before_of_start? hstart
  cases h with
  | fresh _ _ hfalse hnone hunread =>
    have hworld : r.asked.world.journal = r.world.journal := by
      rw [asked, world_onWorld]
      rfl
    refine Seeks.openAll ⟨⟨{ w with shutdown := r.callerRequest.getD r.ownRequest }, ?_⟩, rfl,
      hfalse, ?_, ?_⟩
    · simp [asked, onWorld, Stage.onWorld, hstage]
    · rw [Run.landmarks, hworld]
      exact hnone
    · rw [hworld]
      exact hunread
  | barred _ _ _ _ hstarted => cases hnot.symm.trans hstarted
  | streaming _ hstarted => cases hnot.symm.trans hstarted
  | ended _ _ _ _ _ hstarted => cases hnot.symm.trans hstarted

theorem Marks.move (h : r.Marks) (hr : r.Standing) (hover : r.isOver = false)
    (hstage : r.stage = .moving t) (hmoves : t.Moves u) : Marks { r with stage := .moving u } := by
  obtain ⟨threshold, _, hinv⟩ := hr.invariant hstage
  obtain ⟨events, hadds, hevents⟩ := hinv.adds_of_moves hmoves
  have hsame : u.journal.landmarks = t.journal.landmarks := by
    rw [hadds.journal]
    refine Journal.landmarks_note_of_none fun ev hev => ?_
    rcases hevents ev hev with hreading | hround
    · exact Event.not_landmark_of_reading hreading
    · exact Event.not_landmark_of_round hround
  cases h with
  | fresh hbefore => cases hbefore.symm.trans hstage
  | barred _ _ _ hbefore => cases hbefore.symm.trans hstage
  | streaming _ hstarted hfalse hmarks =>
    refine .streaming rfl hstarted hfalse ?_
    rw [Run.landmarks, world_of_moving hstage] at hmarks
    exact hsame.trans hmarks
  | ended _ _ _ _ _ _ htrue => cases hover.symm.trans htrue

theorem ending_cancel (f : Forwarder) : f.cancel.ending ≠ none := by
  unfold Forwarder.cancel
  split
  · next hfinished => exact f.finished_iff.mp hfinished
  · simp [Forwarder.finish]

theorem Marks.finish (h : r.Marks) (result : Except Failure Unit) (hover : r.isOver = false)
    (hstage : r.stage = .moving t) : (r.finish result allResources).Marks := by
  obtain ⟨events, outcome, _, _, heq⟩ := r.finish_of_moving result allResources hstage
  obtain ⟨given, hgiven, hjournal⟩ := finish_moving_tells result allResources hstage
  obtain ⟨hfilter, hsilent⟩ := hgiven.landmarks
  have hparting := r.parting_silent result
  cases h with
  | fresh hbefore => cases hbefore.symm.trans hstage
  | barred _ _ _ hbefore => cases hbefore.symm.trans hstage
  | streaming _ hstarted hfalse hmarks =>
    refine .ended (t := Transfer.note { t with forwarder := t.forwarder.cancel } events)
      (r.world.journal.note r.world.now (r.parting result ++ [.forwarderEnded]))
      (.note [] r.world.now given) [.forwarderEnded] given ?_ ?_ rfl ?_ ?_
      (.inl ⟨rfl, ending_cancel t.forwarder, r.world.journal.note r.world.now (r.parting result),
        r.world.now, ?_⟩) ?_ ?_ ?_
    · rw [heq]
    · rw [heq]
      exact hstarted
    · rw [hjournal, ← Journal.note_note]
      rfl
    · have hnone : (r.parting result).filter Event.isLandmark = [] := by
        rw [List.filter_eq_nil_iff]
        intro ev hev
        simp [(hparting ev hev).1]
      rw [Journal.landmarks_note, List.filter_append, hnone, ← Run.landmarks, hmarks]
      rfl
    · rw [← Journal.note_note]
      rfl
    · rw [heq]
      exact hgiven
    · rw [Journal.landmarks_note, hfilter]
      rfl
    · exact Journal.Unread.note (fun e he => absurd he (by simp)) hsilent
  | ended _ _ _ _ _ _ htrue => cases hover.symm.trans htrue

theorem Marks.step (h : r.Marks) (hr : r.Standing) (hs : r.Step s) : s.Marks := by
  cases hs with
  | start hstart => exact h.start hr hstart
  | move hover hstage _ hmoves => exact h.move hr hover hstage hmoves
  | finish hover hstage _ => exact h.finish _ hover hstage
  | pass moment _ =>
    refine h.touches [] (touches_pass r moment) ?_
    rw [journal_pass]
    exact (Journal.note_nil _ _).symm
  | meet a ha =>
    obtain ⟨counts, hjournal⟩ := journal_act ha
    exact h.touches counts (touches_act ha) hjournal

theorem reachable_marks (h : Reachable r) : r.Marks := by
  induction h with
  | made hmade => exact marks_made hmade
  | step hr hs ih => exact ih.step (reachable_standing hr) hs

end Run

end OplogRelay
