import OplogRelay.Proofs.Transfer.Moves
import OplogRelay.Run.Basic
/-!
How a run comes to its end: what its lifecycle and its outcome are after a result, and what the
release of its resources can change in them.
-/
namespace OplogRelay

namespace World

theorem note_note (w : World) (a b : List Event) : (w.note a).note b = w.note (a ++ b) := by
  simp [note, Journal.note]

@[simp]
theorem note_nil (w : World) : w.note [] = w := by
  simp [note, Journal.note]

end World

namespace Run

variable {r : Run}

/-- What a clean end or a failure makes of the lifecycle: a failure that is none of the relay's own
leaves it as it was. -/
def lifecycleAfter (before : Lifecycle) : Except Failure Unit → Lifecycle
  | .ok () => .stopped
  | .error e => if e.isOwn then .fatal else before

/-- The run reports a result. A clean end is reported with the counters. -/
def Reports (r : Run) : Except Failure Unit → Prop
  | .ok () => ∃ stats, r.outcome = some (.ok stats) ∧ stats.lifecycle = .stopped ∧
      stats.received = r.stats.received ∧ stats.batchesApplied = r.stats.batchesApplied ∧
      stats.appliedTotal = r.stats.appliedTotal ∧ stats.lastApplied = r.stats.lastApplied ∧
      stats.forwarder.map ForwarderStats.forwarded =
        r.stats.forwarder.map ForwarderStats.forwarded
  | .error e => r.outcome = some (.error e)

def Plan.Mild (plan : Plan) : Prop :=
  ∀ resource f, plan.releaseFault resource = some f → f.isDriver = true

/-- A resource answered its release with a fault that is none of the driver's, and the run reports
that in place of its result. -/
def Overruled (r : Run) : Prop :=
  ∃ resource f, r.plan.releaseFault resource = some f ∧ f.isDriver = false ∧
    r.outcome = some (.error (.ofFault f))

structure Ended (r : Run) (before : Lifecycle) (result : Except Failure Unit) : Prop where
  closed : r.isOver = true
  lifecycle : r.lifecycle = lifecycleAfter before result
  outcome : r.Reports result ∨ r.Overruled

@[simp]
theorem note_nil (r : Run) : r.note [] = r := by
  obtain ⟨plan, stage, _⟩ := r
  cases stage <;> simp [note, onWorld, Stage.onWorld, Transfer.onWorld]

theorem note_note (r : Run) (a b : List Event) : (r.note a).note b = r.note (a ++ b) := by
  obtain ⟨plan, stage, _⟩ := r
  cases stage <;> simp [note, onWorld, Stage.onWorld, Transfer.onWorld, World.note_note]

/-- What the release of resources may make of an outcome. -/
def Kept (plan : Plan) (before after : Option (Except Failure Stats)) : Prop :=
  after = before ∨ ∃ resource f, plan.releaseFault resource = some f ∧ f.isDriver = false ∧
    after = some (.error (.ofFault f))

theorem Ended.of_ok {before : Lifecycle} {result : Except Failure Unit} {stats : Stats}
    (h : r.Ended before result) (hok : r.outcome = some (.ok stats)) : result = .ok () := by
  rcases h.outcome with hreports | ⟨resource, f, _, _, hoverruled⟩
  · cases result with
    | ok => rfl
    | error e => cases hreports.symm.trans hok
  · cases hoverruled.symm.trans hok

theorem Ended.reports {before : Lifecycle} {result : Except Failure Unit}
    (h : r.Ended before result) (hmild : r.plan.Mild) : r.Reports result := by
  refine h.outcome.resolve_right ?_
  rintro ⟨resource, f, hf, hdriver, _⟩
  exact absurd ((hmild resource f hf).symm.trans hdriver) (by decide)

theorem release_eq (held : List Resource) (r : Run) :
    ∃ events outcome, Event.TellNoBatch events ∧ Kept r.plan r.outcome outcome ∧
      r.release held = { r.note events with outcome := outcome } := by
  induction held generalizing r with
  | nil =>
    refine ⟨[], r.outcome, by simp [Event.TellNoBatch], .inl rfl, ?_⟩
    rw [note_nil]
    rfl
  | cons resource rest ih =>
    unfold release
    cases hf : r.plan.releaseFault resource with
    | none =>
      obtain ⟨events, outcome, hevents, hkept, heq⟩ := ih (r.note [.released resource])
      refine ⟨.released resource :: events, outcome,
        List.forall_mem_cons.mpr ⟨rfl, hevents⟩, hkept, ?_⟩
      dsimp only
      rw [heq, note_note]
      rfl
    | some f =>
      dsimp only
      by_cases hdriver : f.isDriver = true
      · obtain ⟨events, outcome, hevents, hkept, heq⟩ :=
          ih ((r.note [.released resource]).note [.releaseFailed resource f])
        refine ⟨.released resource :: .releaseFailed resource f :: events, outcome,
          List.forall_mem_cons.mpr ⟨rfl, List.forall_mem_cons.mpr ⟨rfl, hevents⟩⟩, hkept, ?_⟩
        rw [if_pos hdriver, heq, note_note, note_note]
        rfl
      · refine ⟨[.released resource], _, List.forall_mem_singleton.mpr rfl, ?_,
          by rw [if_neg hdriver]⟩
        exact .inr ⟨resource, f, hf, by simpa using hdriver, rfl⟩

def verdict (r : Run) : Except Failure Unit → Except Failure Stats
  | .ok () => .ok { r.stats with lifecycle := .stopped }
  | .error e => .error e

theorem settle_eq (r : Run) (result : Except Failure Unit) :
    ∃ events, Event.TellNoBatch events ∧ r.settle result = { r.note events with
      lifecycle := lifecycleAfter r.lifecycle result, outcome := some (r.verdict result) } := by
  cases result with
  | ok => exact ⟨[.stopped _], List.forall_mem_singleton.mpr rfl, rfl⟩
  | error e =>
    unfold settle lifecycleAfter
    dsimp only
    by_cases hown : e.isOwn = true
    · rw [if_pos hown, if_pos hown]
      exact ⟨[.failed e], List.forall_mem_singleton.mpr rfl, rfl⟩
    · rw [if_neg hown, if_neg hown]
      refine ⟨[], by simp [Event.TellNoBatch], ?_⟩
      rw [note_nil]
      rfl

theorem settle_release_eq (r : Run) (result : Except Failure Unit) (held : List Resource) :
    ∃ events outcome, Event.TellNoBatch events ∧ Kept r.plan (some (r.verdict result)) outcome ∧
      (r.settle result).release held = { r.note events with
        lifecycle := lifecycleAfter r.lifecycle result, outcome := outcome } := by
  obtain ⟨settling, hsettling, hsettle⟩ := r.settle_eq result
  obtain ⟨events, outcome, hevents, hkept, hrelease⟩ := release_eq held (r.settle result)
  refine ⟨settling ++ events, outcome, List.forall_mem_append.mpr ⟨hsettling, hevents⟩, ?_, ?_⟩
  · rw [hsettle] at hkept
    exact hkept
  · rw [hrelease, hsettle, ← note_note]
    rfl

theorem finish_of_before {w : World} (r : Run) (result : Except Failure Unit)
    (held : List Resource) (hs : r.stage = .before w) :
    ∃ events outcome, Event.TellNoBatch events ∧ Kept r.plan (some (r.verdict result)) outcome ∧
      r.finish result held = { r with
        stage := .before (w.note events)
        lifecycle := lifecycleAfter r.lifecycle result
        outcome := outcome
        endedAt := some r.world.now } := by
  obtain ⟨settling, hsettling, hsettle⟩ := r.settle_eq result
  have hstage : (r.settle result).stage = .before (w.note settling) := by
    rw [hsettle]
    simp [note, onWorld, Stage.onWorld, hs]
  have hstop : (r.settle result).stopForwarder = r.settle result := by
    simp [stopForwarder, hstage]
  obtain ⟨events, outcome, hevents, hkept, heq⟩ := r.settle_release_eq result held
  refine ⟨events, outcome, hevents, hkept, ?_⟩
  rw [finish, close, hstop, heq, hsettle]
  simp [note, onWorld, Stage.onWorld, hs, world, Stage.world]

theorem finish_of_moving {t : Transfer} (r : Run) (result : Except Failure Unit)
    (held : List Resource) (hs : r.stage = .moving t) :
    ∃ events outcome, Event.TellNoBatch events ∧ Kept r.plan (some (r.verdict result)) outcome ∧
      r.finish result held = { r with
        stage := .moving (Transfer.note { t with forwarder := t.forwarder.cancel } events)
        lifecycle := lifecycleAfter r.lifecycle result
        outcome := outcome
        endedAt := some r.world.now } := by
  obtain ⟨settling, hsettling, hsettle⟩ := r.settle_eq result
  have hstage : (r.settle result).stage = .moving (t.note settling) := by
    rw [hsettle]
    simp [note, onWorld, Stage.onWorld, hs, Transfer.note]
  have hstop : (r.settle result).stopForwarder = { r.settle result with
      stage := .moving (Transfer.note { t.note settling with forwarder := t.forwarder.cancel }
        [.forwarderEnded]) } := by
    simp only [stopForwarder, hstage]
    rfl
  obtain ⟨events, outcome, hevents, hkept, hrelease⟩ :=
    release_eq held (r.settle result).stopForwarder
  refine ⟨settling ++ [.forwarderEnded] ++ events, outcome, ?_, ?_, ?_⟩
  · refine List.forall_mem_append.mpr ⟨List.forall_mem_append.mpr ⟨hsettling, ?_⟩, hevents⟩
    exact List.forall_mem_singleton.mpr rfl
  · rw [hstop, hsettle] at hkept
    exact hkept
  · rw [finish, close, hrelease, hstop, hsettle]
    simp [note, onWorld, Stage.onWorld, hs, World.note_note, world, Stage.world, Transfer.note,
      Transfer.onWorld]

theorem ended_of_kept {s : Run} {result : Except Failure Unit} (hplan : s.plan = r.plan)
    (hover : s.isOver = true) (hlifecycle : s.lifecycle = lifecycleAfter r.lifecycle result)
    (hkept : Kept r.plan (some (r.verdict result)) s.outcome)
    (hstats : s.stats.received = r.stats.received ∧
      s.stats.batchesApplied = r.stats.batchesApplied ∧
      s.stats.appliedTotal = r.stats.appliedTotal ∧ s.stats.lastApplied = r.stats.lastApplied ∧
      s.stats.forwarder.map ForwarderStats.forwarded =
        r.stats.forwarder.map ForwarderStats.forwarded) :
    s.Ended r.lifecycle result := by
  refine ⟨hover, hlifecycle, ?_⟩
  rcases hkept with hkept | ⟨resource, f, hf, hdriver, hoverruled⟩
  · refine .inl ?_
    cases result with
    | ok =>
      obtain ⟨h₁, h₂, h₃, h₄, h₅⟩ := hstats
      exact ⟨_, hkept, rfl, h₁.symm, h₂.symm, h₃.symm, h₄.symm, h₅.symm⟩
    | error e => exact hkept
  · exact .inr ⟨resource, f, hplan ▸ hf, hdriver, hoverruled⟩

theorem forwarded_cancel (f : Forwarder) : f.cancel.forwarded = f.forwarded := by
  unfold Forwarder.cancel
  split <;> rfl

theorem ended_finish_of_before {w : World} {e : Failure} (held : List Resource)
    (hs : r.stage = .before w) : (r.finish (.error e) held).Ended r.lifecycle (.error e) := by
  obtain ⟨events, outcome, _, hkept, heq⟩ := r.finish_of_before (.error e) held hs
  rw [heq]
  refine ended_of_kept rfl rfl rfl hkept ?_
  simp [stats, transfer?, hs]

theorem ended_finish_of_moving {t : Transfer} (result : Except Failure Unit)
    (held : List Resource) (hs : r.stage = .moving t) :
    (r.finish result held).Ended r.lifecycle result := by
  obtain ⟨events, outcome, _, hkept, heq⟩ := r.finish_of_moving result held hs
  rw [heq]
  refine ended_of_kept rfl rfl rfl hkept ?_
  simp [stats, transfer?, hs, Transfer.note, Transfer.onWorld, Forwarder.stats, forwarded_cancel]

def Plan.threshold? (plan : Plan) : Except Window.Error Timestamp :=
  Window.threshold? plan.opening.lookback plan.opening.clock

/-- What keeps a run of this plan from streaming, if anything does: the first of the things that are
looked at one after the other. -/
def Plan.barrier? (plan : Plan) : Option Failure :=
  match Namespace.parse? plan.ns with
  | .error e => some (.configuration (.ns e))
  | .ok ns =>
    match plan.destination.refusal, plan.source.refusal, plan.threshold? with
    | some reason, _, _ => some (.connection
        (.connecting .destination (.unreachable plan.destination.name reason)))
    | none, some reason, _ => some (.connection
        (.connecting .source (.unreachable plan.source.name reason)))
    | none, none, .error e => some (.window e)
    | none, none, .ok _ =>
      if plan.opening.hasOplog then plan.opening.fault.map .ofOpenFault
      else some (.connection (.noOplog ns))

/-- A run of this plan comes to stream: nothing bars it, and its timer can be set. -/
structure Plan.Starts (plan : Plan) : Prop where
  unbarred : plan.barrier? = none
  timed : ∃ interval, plan.interval.wait? = .ok interval

/-- What a start comes to once the namespace is accepted: the run is barred from streaming, its
timer cannot be set, or it streams. -/
inductive Opens (r : Run) (w : World) : Run → Prop where
  | barred {ns e events s} : Namespace.parse? r.plan.ns = .ok ns → r.plan.barrier? = some e →
      Event.TellNoBatch events → s.plan = r.plan → s.started = r.started →
      s.stage = .before (w.note events) → s.Ended r.lifecycle (.error e) → Opens r w s
  | untimed {threshold events later e s} (ns : Namespace) : r.plan.barrier? = none →
      r.plan.threshold? = .ok threshold → r.plan.interval.wait? = .error e →
      Event.TellNoBatch events → Event.TellNoBatch later → s.plan = r.plan →
      s.started = r.started →
      s.stage = .moving ((Transfer.start (w.note events)
        (.start ns threshold r.plan.idle w.now) r.plan.capacity .unbounded).note later) →
      s.Ended .streaming (.error (.conversion e)) → Opens r w s
  | streams {threshold ns interval} (events : List Event) : r.plan.barrier? = none →
      r.plan.threshold? = .ok threshold → r.plan.interval.wait? = .ok interval →
      Event.TellNoBatch events → Opens r w { r with
        stage := .moving (.start (w.note events) (.start ns threshold r.plan.idle w.now)
          r.plan.capacity interval)
        lifecycle := .streaming }

variable {w : World}

theorem note_of_before (hs : r.stage = .before w) (events : List Event) :
    (r.note events).stage = .before (w.note events) := by
  simp [note, onWorld, Stage.onWorld, hs]

/-- What is told before the rest of the opening belongs to the opening. -/
theorem Opens.absorb {s : Run} (events : List Event) (hevents : Event.TellNoBatch events)
    (h : (r.note events).Opens (w.note events) s) : r.Opens w s := by
  cases h with
  | barred hns hbars hmore hplan hstarted hstage hended =>
    rw [World.note_note] at hstage
    exact .barred hns hbars (List.forall_mem_append.mpr ⟨hevents, hmore⟩) hplan hstarted hstage
      hended
  | untimed ns hopen hthreshold hwait hmore hlater hplan hstarted hstage hended =>
    rw [World.note_note] at hstage
    exact .untimed _ hopen hthreshold hwait (List.forall_mem_append.mpr ⟨hevents, hmore⟩) hlater
      hplan hstarted hstage hended
  | streams more hopen hthreshold hwait hmore =>
    rw [World.note_note]
    exact .streams _ hopen hthreshold hwait (List.forall_mem_append.mpr ⟨hevents, hmore⟩)

theorem opens_finish {ns : Namespace} {e : Failure} (hs : r.stage = .before w)
    (held : List Resource) (hns : Namespace.parse? r.plan.ns = .ok ns)
    (hbars : r.plan.barrier? = some e) : r.Opens w (r.finish (.error e) held) := by
  obtain ⟨events, outcome, hevents, _, heq⟩ := r.finish_of_before (.error e) held hs
  have hended := ended_finish_of_before (e := e) held hs
  rw [heq] at hended ⊢
  exact .barred hns hbars hevents rfl rfl rfl hended

theorem opens_untimed {r' : Run} {threshold : Timestamp} {ns : Namespace} {e : ConversionError}
    (events : List Event)
    (hstage : r'.stage = .moving (.start (w.note events) (.start ns threshold r.plan.idle w.now)
      r.plan.capacity .unbounded))
    (hplan : r'.plan = r.plan) (hstarted : r'.started = r.started)
    (hlifecycle : r'.lifecycle = .streaming) (hopen : r.plan.barrier? = none)
    (hthreshold : r.plan.threshold? = .ok threshold)
    (hwait : r.plan.interval.wait? = .error e) (hevents : Event.TellNoBatch events) :
    r.Opens w { (r'.settle (.error (.conversion e))).release allResources with
      endedAt := some r'.world.now } := by
  obtain ⟨later, outcome, hlater, hkept, heq⟩ :=
    r'.settle_release_eq (.error (.conversion e)) allResources
  rw [heq]
  refine .untimed ns hopen hthreshold hwait hevents hlater hplan hstarted ?_ ?_
  · simp [note, onWorld, Stage.onWorld, hstage, Transfer.note]
  · rw [← hlifecycle]
    refine ended_of_kept rfl rfl rfl hkept ?_
    simp [stats, transfer?, note, onWorld, Stage.onWorld, hstage, Transfer.onWorld]

theorem Plan.barrier?_of_servers {plan : Plan} {ns : Namespace}
    (hns : Namespace.parse? plan.ns = .ok ns) (hdestination : plan.destination.refusal = none)
    (hsource : plan.source.refusal = none) :
    plan.barrier? = match plan.threshold? with
      | .error e => some (.window e)
      | .ok _ => if plan.opening.hasOplog then plan.opening.fault.map .ofOpenFault
        else some (.connection (.noOplog ns)) := by
  unfold Plan.barrier?
  simp only [hns, hdestination, hsource]
  cases plan.threshold? <;> rfl

theorem openCursor_opens {ns : Namespace} (hs : r.stage = .before w)
    (hns : Namespace.parse? r.plan.ns = .ok ns) (hdestination : r.plan.destination.refusal = none)
    (hsource : r.plan.source.refusal = none) : r.Opens w (r.openCursor ns) := by
  have hasked (events : List Event) (hevents : Event.TellNoBatch events) (e : Failure)
      (hbars : r.plan.barrier? = some e) (held : List Resource) :
      r.Opens w ((r.note events).finish (.error e) held) :=
    .absorb events hevents (opens_finish (note_of_before hs events) held hns hbars)
  have hbarrier := Plan.barrier?_of_servers hns hdestination hsource
  obtain ⟨plan, stage, lifecycle, started, ownRequest, callerRequest, o, endedAt⟩ := r
  cases hs
  unfold openCursor Opening.tail
  cases hwindow : Window.threshold? plan.opening.lookback plan.opening.clock with
  | error e =>
    refine hasked [] (by simp [Event.TellNoBatch]) _ ?_ _
    rw [hbarrier, Plan.threshold?, hwindow]
  | ok threshold =>
    rw [Plan.threshold?, hwindow] at hbarrier
    dsimp only at hbarrier
    have htold : Event.TellNoBatch [.tailing ns threshold plan.idle, .requested .cursor] :=
      List.forall_mem_cons.mpr ⟨rfl, List.forall_mem_singleton.mpr rfl⟩
    dsimp only
    by_cases hoplog : plan.opening.hasOplog = true
    · rw [if_pos hoplog] at hbarrier ⊢
      cases hfault : plan.opening.fault with
      | some f => exact hasked _ htold _ (hbarrier.trans (by rw [hfault]; rfl)) _
      | none =>
        have hopen : plan.barrier? = none := hbarrier.trans (by rw [hfault]; rfl)
        refine .absorb _ htold ?_
        have hopened : Event.TellNoBatch [.obtained .cursor, .streaming] :=
          List.forall_mem_cons.mpr ⟨rfl, List.forall_mem_singleton.mpr rfl⟩
        dsimp only
        cases hwait : plan.interval.wait? with
        | ok interval => exact .streams [.obtained .cursor, .streaming] hopen hwindow hwait hopened
        | error e =>
          exact opens_untimed [.obtained .cursor, .streaming] rfl rfl rfl rfl hopen hwindow hwait
            hopened
    · rw [if_neg hoplog] at hbarrier ⊢
      exact hasked _ htold _ hbarrier _

theorem connect_cases (r : Run) (side : Side) :
    ∃ events, Event.TellNoBatch events ∧ ((∃ reason, (r.plan.endpoint side).refusal = some reason ∧
      r.connect side = (r.note events, some (.connection
        (.connecting side (.unreachable (r.plan.endpoint side).name reason))))) ∨
      (r.plan.endpoint side).refusal = none ∧ r.connect side = (r.note events, none)) := by
  unfold connect
  cases h : (r.plan.endpoint side).refusal with
  | some reason =>
    refine ⟨[.requested (.session side)], List.forall_mem_singleton.mpr rfl, .inl ⟨reason, rfl, ?_⟩⟩
    simp only [h]
  | none =>
    refine ⟨[.requested (.session side)] ++ [.obtained (.session side),
      .connected side (r.plan.endpoint side).name], ?_, .inr ⟨rfl, ?_⟩⟩
    · intro ev hev
      simp only [List.mem_append, List.mem_cons, List.not_mem_nil, or_false] at hev
      rcases hev with rfl | rfl | rfl <;> rfl
    · simp only [h]
      rw [note_note]

theorem openAll_opens {ns : Namespace} (hs : r.stage = .before w)
    (hns : Namespace.parse? r.plan.ns = .ok ns) : r.Opens w r.openAll := by
  unfold openAll
  simp only [hns]
  refine .absorb [.namespaceAccepted ns] (List.forall_mem_singleton.mpr rfl) ?_
  have hs₀ := note_of_before hs [.namespaceAccepted ns]
  obtain ⟨asking, hasking, ⟨reason, hrefusal, hconnect⟩ | ⟨hdestination, hconnect⟩⟩ :=
    (r.note [.namespaceAccepted ns]).connect_cases .destination
  · have hrefusal : r.plan.destination.refusal = some reason := hrefusal
    rw [hconnect]
    refine .absorb _ hasking (opens_finish (note_of_before hs₀ asking) _ hns ?_)
    show r.plan.barrier? = _
    simp only [Plan.barrier?, hns, hrefusal]
    rfl
  · have hdestination : r.plan.destination.refusal = none := hdestination
    rw [hconnect]
    refine .absorb _ hasking ?_
    have hs₁ := note_of_before hs₀ asking
    obtain ⟨more, hmore, ⟨reason, hrefusal, hconnect⟩ | ⟨hsource, hconnect⟩⟩ :=
      ((r.note [.namespaceAccepted ns]).note asking).connect_cases .source
    · have hrefusal : r.plan.source.refusal = some reason := hrefusal
      dsimp only
      rw [hconnect]
      refine .absorb _ hmore (opens_finish (note_of_before hs₁ more) _ hns ?_)
      show r.plan.barrier? = _
      simp only [Plan.barrier?, hns, hdestination, hrefusal]
      rfl
    · dsimp only
      rw [hconnect]
      exact .absorb _ hmore
        (openCursor_opens (note_of_before hs₁ more) hns hdestination hsource)

end Run

end OplogRelay
