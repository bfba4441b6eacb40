import Mathlib.Logic.Relation
import OplogRelay.Proofs.Run.Closing
import OplogRelay.Run.Timeline
/-!
Executions of a run: every order in which its parts can move, time can pass and its surroundings can
act on it. A timeline that is played is one of them. What holds of every state that an execution
reaches is told by one invariant.
-/
namespace OplogRelay.Run

/-- A run as it is constructed, over a log that may have documents already. Its caller may give it
an event of its own to wait on. -/
def construct (plan : Plan) (docs : List Document) (delay : Quantity) (attached external : Bool) :
    Run where
  plan := plan
  stage := .before (World.append { destination := { delay := delay }, attached := attached } docs)
  callerRequest := if external then some false else none

inductive Made : Run → Prop where
  | planned {draft plan : Plan} {maxBatch : Int} {flush : Quantity} {w : World} (external : Bool) :
      w.IsNew → draft.make? maxBatch flush = .ok plan → Made {
        plan := plan
        stage := .before w
        callerRequest := if external then some false else none }

theorem made_construct {draft plan : Plan} {maxBatch : Int} {flush : Quantity} (docs : List Document)
    (delay : Quantity) (attached external : Bool) (h : draft.make? maxBatch flush = .ok plan) :
    Made (construct plan docs delay attached external) :=
  .planned external ⟨rfl, rfl, List.forall_mem_singleton.mpr ⟨_, rfl⟩⟩ h

/-- One step: the run starts, a part of it moves, it comes to its end, time passes, or it meets with
an action. -/
inductive Step (r : Run) : Run → Prop where
  | start {s} : r.start? = .ok s → Step r s
  | move {t u} : r.isOver = false → r.stage = .moving t → t.isDone = false → t.Moves u →
      Step r { r with stage := .moving u }
  | finish {t result} : r.isOver = false → r.stage = .moving t → t.phase = .done result →
      Step r (r.finish result allResources)
  | pass (moment : Nat) : r.world.now ≤ moment → Step r (Timed.moveTo moment r)
  | meet (a : Action) : (∀ span, a ≠ .advance span) → Step r (r.act a)

abbrev Leads : Run → Run → Prop := Relation.ReflTransGen Step

inductive Reachable : Run → Prop where
  | made {r} : Made r → Reachable r
  | step {r s} : Reachable r → Step r s → Reachable s

theorem Reachable.leads {r s : Run} (h : Reachable r) (hs : Leads r s) : Reachable s := by
  induction hs with
  | refl => exact h
  | tail _ hstep ih => exact .step ih hstep

inductive Standing (r : Run) : Prop where
  | fresh {w} : r.stage = .before w → w.Quiet → 0 < r.plan.capacity → r.started = false →
      r.isOver = false → r.outcome = none → r.lifecycle = .initializing → Standing r
  | misnamed {w e} : r.stage = .before w → w.Quiet → r.started = true → r.isOver = true →
      Namespace.parse? r.plan.ns = .error e → r.outcome = some (.error (.configuration (.ns e))) →
      r.lifecycle = .initializing → Standing r
  | barred {w ns e} : r.stage = .before w → w.Quiet → r.started = true →
      Namespace.parse? r.plan.ns = .ok ns → r.plan.barrier? = some e →
      r.Ended .initializing (.error e) → Standing r
  | streaming {t threshold} : r.stage = .moving t → r.plan.Starts →
      r.plan.threshold? = .ok threshold → t.Invariant threshold → r.started = true →
      r.isOver = false → r.outcome = none → r.lifecycle = .streaming → Standing r
  | untimed {t threshold e} : r.stage = .moving t → r.plan.barrier? = none →
      r.plan.threshold? = .ok threshold → t.Invariant threshold → r.started = true →
      t.flushes = [] → t.forwarder.ending = none → r.plan.interval.wait? = .error e →
      r.Ended .streaming (.error (.conversion e)) → Standing r
  | ended {t threshold result} : r.stage = .moving t → r.plan.Starts →
      r.plan.threshold? = .ok threshold → t.Invariant threshold → r.started = true →
      t.phase = .done result → r.Ended .streaming result → Standing r

variable {r s : Run}

/-- The run is asked to stop, or will be as soon as it starts: the event is set that it waits on. -/
def isAsked (r : Run) : Bool :=
  if r.started then r.world.shutdown else r.callerRequest.getD r.ownRequest

/-- What surroundings do to a run: it stays where it is, and requests stay made. -/
structure Touches (r s : Run) : Prop where
  plan : s.plan = r.plan
  started : s.started = r.started
  lifecycle : s.lifecycle = r.lifecycle
  outcome : s.outcome = r.outcome
  endedAt : s.endedAt = r.endedAt
  stats : s.stats = r.stats
  attached : s.world.attached = r.world.attached
  asked : r.isAsked = true → s.isAsked = true
  before : ∀ w, r.stage = .before w → ∃ v, s.stage = .before v ∧ (w.Quiet → v.Quiet)
  moving : ∀ t, r.stage = .moving t → ∃ u, s.stage = .moving u ∧ t.Beside u ∧ t.Rests u ∧
    ∀ threshold, t.Invariant threshold → u.Invariant threshold

theorem Touches.trans {u : Run} (h : Touches r s) (h' : Touches s u) : Touches r u where
  plan := h'.plan.trans h.plan
  started := h'.started.trans h.started
  lifecycle := h'.lifecycle.trans h.lifecycle
  outcome := h'.outcome.trans h.outcome
  endedAt := h'.endedAt.trans h.endedAt
  stats := h'.stats.trans h.stats
  attached := h'.attached.trans h.attached
  asked := h'.asked ∘ h.asked
  before w hw := by
    obtain ⟨v, hv, hquiet⟩ := h.before w hw
    obtain ⟨x, hx, hquiet'⟩ := h'.before v hv
    exact ⟨x, hx, hquiet' ∘ hquiet⟩
  moving t ht := by
    obtain ⟨v, hv, hbeside, hrests, hinv⟩ := h.moving t ht
    obtain ⟨x, hx, hbeside', hrests', hinv'⟩ := h'.moving v hv
    exact ⟨x, hx, hbeside.trans hbeside', hrests.trans hrests',
      fun threshold => hinv' threshold ∘ hinv threshold⟩

theorem Touches.ended {before : Lifecycle} {result : Except Failure Unit} (h : Touches r s)
    (hended : r.Ended before result) : s.Ended before result := by
  refine ⟨?_, h.lifecycle.trans hended.lifecycle, ?_⟩
  · rw [isOver, h.endedAt]
    exact hended.closed
  · rcases hended.outcome with hreports | ⟨resource, f, hf, hdriver, houtcome⟩
    · refine .inl ?_
      cases result with
      | ok =>
        unfold Reports at hreports ⊢
        rw [h.outcome, h.stats]
        exact hreports
      | error e => exact h.outcome.trans hreports
    · exact .inr ⟨resource, f, by rw [h.plan]; exact hf, hdriver, h.outcome.trans houtcome⟩

theorem Standing.touches (h : r.Standing) (ht : Touches r s) : s.Standing := by
  have hover (b : Bool) (hb : r.isOver = b) : s.isOver = b := by
    rw [isOver, ht.endedAt]
    exact hb
  cases h with
  | fresh hstage hw hcap hstarted hfalse hnone hlife =>
    obtain ⟨v, hv, hquiet⟩ := ht.before _ hstage
    exact .fresh hv (hquiet hw) (ht.plan ▸ hcap) (ht.started.trans hstarted)
      (hover _ hfalse) (ht.outcome.trans hnone) (ht.lifecycle.trans hlife)
  | misnamed hstage hw hstarted htrue hns houtcome hlife =>
    obtain ⟨v, hv, hquiet⟩ := ht.before _ hstage
    exact .misnamed hv (hquiet hw) (ht.started.trans hstarted) (hover _ htrue)
      (ht.plan ▸ hns) (ht.outcome.trans houtcome) (ht.lifecycle.trans hlife)
  | barred hstage hw hstarted hns hbars hended =>
    obtain ⟨v, hv, hquiet⟩ := ht.before _ hstage
    exact .barred hv (hquiet hw) (ht.started.trans hstarted) (ht.plan ▸ hns) (ht.plan ▸ hbars)
      (ht.ended hended)
  | streaming hstage hopen hthreshold hinv hstarted hfalse hnone hlife =>
    obtain ⟨u, hu, _, _, hkeep⟩ := ht.moving _ hstage
    exact .streaming hu (ht.plan ▸ hopen) (ht.plan ▸ hthreshold) (hkeep _ hinv)
      (ht.started.trans hstarted)
      (hover _ hfalse) (ht.outcome.trans hnone) (ht.lifecycle.trans hlife)
  | untimed hstage hopen hthreshold hinv hstarted hflushes hlive hwait hended =>
    obtain ⟨u, hu, hbeside, hrests, hkeep⟩ := ht.moving _ hstage
    exact .untimed hu (ht.plan ▸ hopen) (ht.plan ▸ hthreshold) (hkeep _ hinv)
      (ht.started.trans hstarted) (hbeside.flushes.trans hflushes) (hrests.ending.trans hlive)
      (ht.plan ▸ hwait) (ht.ended hended)
  | ended hstage hopen hthreshold hinv hstarted hphase hended =>
    obtain ⟨u, hu, hbeside, _, hkeep⟩ := ht.moving _ hstage
    exact .ended hu (ht.plan ▸ hopen) (ht.plan ▸ hthreshold) (hkeep _ hinv)
      (ht.started.trans hstarted)
      (hbeside.phase.trans hphase) (ht.ended hended)

theorem world_onWorld (f : World → World) (r : Run) : (r.onWorld f).world = f r.world := by
  obtain ⟨plan, stage, _⟩ := r
  cases stage <;> rfl

theorem touches_onWorld {f : World → World} (own : Bool) (caller : Option Bool)
    (hrequests : r.callerRequest.getD r.ownRequest = true → caller.getD own = true)
    (h : r.world.Similar (f r.world)) :
    Touches r ({ r with ownRequest := own, callerRequest := caller }.onWorld f) := by
  refine ⟨rfl, rfl, rfl, rfl, rfl, ?_, ?_, ?_, ?_, ?_⟩
  · obtain ⟨plan, stage, _⟩ := r
    cases stage <;> rfl
  · rw [world_onWorld]
    exact h.attached
  · unfold isAsked
    rw [world_onWorld]
    show (if r.started then _ else _) = true → (if r.started then _ else _) = true
    split
    · exact h.shutdown
    · exact hrequests
  · intro w hw
    have hsimilar : w.Similar (f w) := by simpa [world, Stage.world, hw] using h
    exact ⟨f w, by simp [onWorld, Stage.onWorld, hw], fun hquiet => hquiet.similar hsimilar⟩
  · intro t ht
    have hsimilar : t.toWorld.Similar (f t.toWorld) := by simpa [world, Stage.world, ht] using h
    exact ⟨t.onWorld f, by simp [onWorld, Stage.onWorld, ht], Transfer.beside_onWorld hsimilar,
      Transfer.rests_onWorld hsimilar, fun _ hinv => hinv.onWorld hsimilar⟩

theorem touches_of_requests {own : Bool} {caller : Option Bool}
    (hrequests : r.callerRequest.getD r.ownRequest = true → caller.getD own = true) :
    Touches r { r with ownRequest := own, callerRequest := caller } := by
  have h := touches_onWorld (f := id) own caller hrequests ⟨rfl, rfl, rfl, rfl, rfl, id⟩
  obtain ⟨plan, stage, _⟩ := r
  cases stage <;> exact h

theorem touches_append (r : Run) (docs : List Document) : Touches r (r.append docs) := by
  obtain ⟨plan, stage, _⟩ := r
  cases stage with
  | before w =>
    refine ⟨rfl, rfl, rfl, rfl, rfl, rfl, rfl, id, ?_, by simp⟩
    rintro _ ⟨⟩
    refine ⟨_, rfl, fun hquiet => ⟨hquiet.commands, hquiet.batches, ?_⟩⟩
    exact (Journal.account_note_of_tellNoBatch (List.forall_mem_singleton.mpr rfl)).trans
      hquiet.account
  | moving t =>
    refine ⟨rfl, rfl, rfl, rfl, rfl, rfl, rfl, id, by simp, ?_⟩
    rintro _ ⟨⟩
    exact ⟨_, rfl, Transfer.beside_append t docs, Transfer.rests_append t docs,
      fun _ hinv => hinv.append docs⟩

theorem touches_inject (r : Run) (f : Fault) : Touches r (r.inject f) := by
  have hput : Touches r (r.onWorld fun w => { w with oplog := w.oplog.inject f }) :=
    touches_onWorld _ _ id ⟨rfl, rfl, rfl, rfl, rfl, id⟩
  have hinject : r.inject f =
      (r.onWorld fun w => { w with oplog := w.oplog.inject f }).append [] := by
    obtain ⟨plan, stage, _⟩ := r
    cases stage <;> rfl
  rw [hinject]
  exact hput.trans (touches_append _ [])

theorem touches_pass (r : Run) (moment : Nat) : Touches r (Timed.moveTo moment r) :=
  touches_onWorld _ _ id ⟨rfl, rfl, rfl, rfl, rfl, id⟩

theorem touches_act {a : Action} (ha : ∀ span, a ≠ .advance span) : Touches r (r.act a) := by
  cases a with
  | advance span => exact absurd rfl (ha span)
  | append docs => exact touches_append r docs
  | inject f => exact touches_inject r f
  | signalCaller =>
    simp only [act, signalCaller]
    split
    · exact touches_of_requests id
    · split
      · exact touches_onWorld _ _ (fun _ => rfl) ⟨rfl, rfl, rfl, rfl, rfl, fun _ => rfl⟩
      · exact touches_of_requests fun _ => rfl
  | requestShutdown =>
    simp only [act, requestShutdown]
    split
    · exact touches_onWorld _ _ id ⟨rfl, rfl, rfl, rfl, rfl, fun _ => rfl⟩
    · refine touches_of_requests fun hrequest => ?_
      cases hcaller : r.callerRequest with
      | none => rfl
      | some given => simpa [hcaller] using hrequest
  | reject message => exact touches_onWorld _ _ id ⟨rfl, rfl, rfl, rfl, rfl, id⟩
  | raise f => exact touches_onWorld _ _ id ⟨rfl, rfl, rfl, rfl, rfl, id⟩
  | delay seconds => exact touches_onWorld _ _ id ⟨rfl, rfl, rfl, rfl, rfl, id⟩

theorem Plan.capacity_pos {draft plan : Plan} {maxBatch : Int} {flush : Quantity}
    (h : draft.make? maxBatch flush = .ok plan) : 0 < plan.capacity := by
  unfold Plan.make? Batch.make? at h
  split at h
  · cases h
  · split at h
    · cases h
    · next heq =>
      split at heq
      · cases heq
      · cases heq
        cases h
        show 0 < maxBatch.toNat
        omega

theorem standing_made (h : Made r) : r.Standing := by
  cases h with
  | planned external hnew hplan =>
    exact .fresh rfl hnew.quiet (Plan.capacity_pos hplan) rfl rfl rfl rfl

theorem standing_of_opens {w : World} (hw : w.Quiet) (hcap : 0 < r.plan.capacity)
    (hstarted : r.started = true) (hfalse : r.isOver = false) (hnone : r.outcome = none)
    (hlife : r.lifecycle = .initializing) (h : r.Opens w s) : s.Standing := by
  cases h with
  | barred hns hbars hevents hplan hsame hstage hended =>
    exact .barred hstage (hw.similar (World.similar_note hevents)) (hsame.trans hstarted)
      (hplan ▸ hns) (hplan ▸ hbars) (hlife ▸ hended)
  | @untimed threshold events later e _ ns hopen hthreshold hwait hevents hlater hplan hsame hstage
      hended =>
    have hquiet := hw.similar (World.similar_note hevents)
    have hinv := Transfer.invariant_start threshold ns r.plan.idle w.now .unbounded hquiet hcap
    exact .untimed hstage (hplan ▸ hopen) (hplan ▸ hthreshold)
      (hinv.onWorld (World.similar_note hlater)) (hsame.trans hstarted)
      (hquiet.similar (World.similar_note hlater)).flushes rfl (hplan ▸ hwait)
      hended
  | @streams threshold ns interval events hopen hthreshold hwait hevents =>
    exact .streaming rfl ⟨hopen, _, hwait⟩ hthreshold
      (Transfer.invariant_start threshold ns r.plan.idle w.now interval
        (hw.similar (World.similar_note hevents)) hcap)
      hstarted hfalse hnone rfl

def asked (r : Run) : Run :=
  { r with started := true }.onWorld fun w =>
    { w with shutdown := r.callerRequest.getD r.ownRequest }

def begun (r : Run) : Run := r.asked.openAll

theorem start?_eq_begun (h : r.started = false) : r.start? = .ok r.begun := by
  rw [start?, if_neg (by simp [h])]
  rfl

theorem begun_of_start? (h : r.start? = .ok s) : r.started = false ∧ s = r.begun := by
  by_cases hstarted : r.started = true
  · rw [start?, if_pos hstarted] at h
    cases h
  · have hfalse : r.started = false := by simpa using hstarted
    rw [start?_eq_begun hfalse] at h
    exact ⟨hfalse, (Except.ok.inj h).symm⟩

theorem begun_cases {w : World} (hstage : r.stage = .before w) :
    (∃ e, Namespace.parse? r.plan.ns = .error e ∧ r.begun = { r.asked with
      outcome := some (.error (.configuration (.ns e))), endedAt := some r.asked.world.now }) ∨
    r.asked.Opens { w with shutdown := r.callerRequest.getD r.ownRequest } r.begun := by
  have hasked : r.asked.stage =
      .before { w with shutdown := r.callerRequest.getD r.ownRequest } := by
    simp [asked, onWorld, Stage.onWorld, hstage]
  cases hns : Namespace.parse? r.plan.ns with
  | error e =>
    have hsame : Namespace.parse? r.asked.plan.ns = .error e := hns
    refine .inl ⟨e, rfl, ?_⟩
    unfold begun openAll
    simp only [hsame]
  | ok ns => exact .inr (openAll_opens hasked hns)

theorem Standing.before_of_start? (h : r.Standing) (hstart : r.start? = .ok s) :
    ∃ w, r.stage = .before w ∧ w.Quiet ∧ 0 < r.plan.capacity ∧ r.isOver = false ∧
      r.outcome = none ∧ r.lifecycle = .initializing := by
  have hnot : ¬ r.started = true := by simp [(begun_of_start? hstart).1]
  cases h with
  | fresh hstage hw hcap _ hfalse hnone hlife => exact ⟨_, hstage, hw, hcap, hfalse, hnone, hlife⟩
  | misnamed _ _ hstarted => exact absurd hstarted hnot
  | barred _ _ hstarted => exact absurd hstarted hnot
  | streaming _ _ _ _ hstarted => exact absurd hstarted hnot
  | untimed _ _ _ _ hstarted => exact absurd hstarted hnot
  | ended _ _ _ _ hstarted => exact absurd hstarted hnot

theorem Standing.start (h : r.Standing) (hstart : r.start? = .ok s) : s.Standing := by
  obtain ⟨w, hstage, hw, hcap, hfalse, hnone, hlife⟩ := h.before_of_start? hstart
  have hquiet : World.Quiet { w with shutdown := r.callerRequest.getD r.ownRequest } :=
    ⟨hw.commands, hw.batches, hw.account⟩
  rw [(begun_of_start? hstart).2]
  rcases begun_cases hstage with ⟨e, hns, heq⟩ | hopens
  · rw [heq]
    refine .misnamed (w := { w with shutdown := r.callerRequest.getD r.ownRequest })
      ?_ hquiet rfl rfl hns rfl hlife
    simp [asked, onWorld, Stage.onWorld, hstage]
  · exact standing_of_opens (r := r.asked) hquiet hcap rfl hfalse hnone hlife hopens

theorem Standing.move {t u : Transfer} (h : r.Standing) (hfalse : r.isOver = false)
    (hstage : r.stage = .moving t) (hmoves : t.Moves u) :
    Standing { r with stage := .moving u } := by
  cases h with
  | fresh hbefore => cases hbefore.symm.trans hstage
  | misnamed hbefore => cases hbefore.symm.trans hstage
  | barred hbefore => cases hbefore.symm.trans hstage
  | streaming hmoving hopen hthreshold hinv hstarted _ hnone hlife =>
    cases hmoving.symm.trans hstage
    exact .streaming rfl hopen hthreshold (hinv.moves hmoves) hstarted hfalse hnone hlife
  | untimed _ _ _ _ _ _ _ _ hended => exact absurd (hfalse.symm.trans hended.closed) (by decide)
  | ended _ _ _ _ _ _ hended => exact absurd (hfalse.symm.trans hended.closed) (by decide)

theorem Standing.finish {t : Transfer} {result : Except Failure Unit} (h : r.Standing)
    (hfalse : r.isOver = false) (hstage : r.stage = .moving t) (hphase : t.phase = .done result) :
    (r.finish result allResources).Standing := by
  cases h with
  | fresh hbefore => cases hbefore.symm.trans hstage
  | misnamed hbefore => cases hbefore.symm.trans hstage
  | barred hbefore => cases hbefore.symm.trans hstage
  | streaming hmoving hopen hthreshold hinv hstarted _ hnone hlife =>
    cases hmoving.symm.trans hstage
    obtain ⟨events, outcome, hevents, _, heq⟩ := r.finish_of_moving result allResources hstage
    have hended := ended_finish_of_moving result allResources hstage
    have hdone : t.isDone = true := by simp [Transfer.isDone, hphase]
    rw [hlife] at hended
    rw [heq] at hended ⊢
    exact .ended rfl hopen hthreshold ((hinv.cancel hdone).onWorld (World.similar_note hevents))
      hstarted hphase hended
  | untimed _ _ _ _ _ _ _ _ hended => exact absurd (hfalse.symm.trans hended.closed) (by decide)
  | ended _ _ _ _ _ _ hended => exact absurd (hfalse.symm.trans hended.closed) (by decide)

theorem Standing.step (h : r.Standing) (hs : r.Step s) : s.Standing := by
  cases hs with
  | start hstart => exact h.start hstart
  | move hfalse hstage _ hmoves => exact h.move hfalse hstage hmoves
  | finish hfalse hstage hphase => exact h.finish hfalse hstage hphase
  | pass moment _ => exact h.touches (touches_pass r moment)
  | meet a ha => exact h.touches (touches_act ha)

theorem reachable_standing (h : Reachable r) : r.Standing := by
  induction h with
  | made hmade => exact standing_made hmade
  | step _ hs ih => exact ih.step hs

theorem Standing.invariant {t : Transfer} (h : r.Standing) (hstage : r.stage = .moving t) :
    ∃ threshold, r.plan.threshold? = .ok threshold ∧ t.Invariant threshold := by
  cases h with
  | fresh hbefore => cases hbefore.symm.trans hstage
  | misnamed hbefore => cases hbefore.symm.trans hstage
  | barred hbefore => cases hbefore.symm.trans hstage
  | streaming hmoving _ hthreshold hinv =>
    cases hmoving.symm.trans hstage
    exact ⟨_, hthreshold, hinv⟩
  | untimed hmoving _ hthreshold hinv =>
    cases hmoving.symm.trans hstage
    exact ⟨_, hthreshold, hinv⟩
  | ended hmoving _ hthreshold hinv =>
    cases hmoving.symm.trans hstage
    exact ⟨_, hthreshold, hinv⟩

theorem Standing.quiet {w : World} (h : r.Standing) (hstage : r.stage = .before w) : w.Quiet := by
  cases h with
  | fresh hbefore hw =>
    cases hbefore.symm.trans hstage
    exact hw
  | misnamed hbefore hw =>
    cases hbefore.symm.trans hstage
    exact hw
  | barred hbefore hw =>
    cases hbefore.symm.trans hstage
    exact hw
  | streaming hmoving => cases hmoving.symm.trans hstage
  | untimed hmoving => cases hmoving.symm.trans hstage
  | ended hmoving => cases hmoving.symm.trans hstage

theorem Standing.over_cases {t : Transfer} (h : r.Standing) (hstage : r.stage = .moving t)
    (hover : r.isOver = true) :
    (t.flushes = [] ∧ t.forwarder.ending = none ∧ ∃ e, r.plan.interval.wait? = .error e ∧
      r.Ended .streaming (.error (.conversion e))) ∨
    ∃ result, t.phase = .done result ∧ r.Ended .streaming result := by
  cases h with
  | fresh hbefore => cases hbefore.symm.trans hstage
  | misnamed hbefore => cases hbefore.symm.trans hstage
  | barred hbefore => cases hbefore.symm.trans hstage
  | streaming _ _ _ _ _ hfalse => exact absurd (hfalse.symm.trans hover) (by decide)
  | untimed hmoving _ _ _ _ hflushes hlive hwait hended =>
    cases hmoving.symm.trans hstage
    exact .inl ⟨hflushes, hlive, _, hwait, hended⟩
  | ended hmoving _ _ _ _ hphase hended =>
    cases hmoving.symm.trans hstage
    exact .inr ⟨_, hphase, hended⟩

theorem Standing.lifecycle_of_live {t : Transfer} (h : r.Standing) (hstage : r.stage = .moving t)
    (hlive : r.isOver = false) : r.lifecycle = .streaming := by
  cases h with
  | fresh hbefore => cases hbefore.symm.trans hstage
  | misnamed hbefore => cases hbefore.symm.trans hstage
  | barred hbefore => cases hbefore.symm.trans hstage
  | streaming _ _ _ _ _ _ _ hlife => exact hlife
  | untimed _ _ _ _ _ _ _ _ hended => cases hended.closed.symm.trans hlive
  | ended _ _ _ _ _ _ hended => cases hended.closed.symm.trans hlive

theorem Standing.over_of_outcome {outcome : Except Failure Stats} (h : r.Standing)
    (houtcome : r.outcome = some outcome) : r.isOver = true := by
  cases h with
  | fresh _ _ _ _ _ hnone => cases hnone.symm.trans houtcome
  | misnamed _ _ _ hover => exact hover
  | barred _ _ _ _ _ hended => exact hended.closed
  | streaming _ _ _ _ _ _ hnone => cases hnone.symm.trans houtcome
  | untimed _ _ _ _ _ _ _ _ hended => exact hended.closed
  | ended _ _ _ _ _ _ hended => exact hended.closed

theorem Standing.done_of_ok {stats : Stats} (h : r.Standing) (hok : r.outcome = some (.ok stats)) :
    ∃ t, r.stage = .moving t ∧ t.phase = .done (.ok ()) ∧ r.Ended .streaming (.ok ()) := by
  cases h with
  | fresh _ _ _ _ _ hnone => cases hnone.symm.trans hok
  | misnamed _ _ _ _ _ houtcome => cases houtcome.symm.trans hok
  | barred _ _ _ _ _ hended => cases hended.of_ok hok
  | streaming _ _ _ _ _ _ hnone => cases hnone.symm.trans hok
  | untimed _ _ _ _ _ _ _ _ hended => cases hended.of_ok hok
  | ended hstage _ _ _ _ hphase hended =>
    cases hended.of_ok hok
    exact ⟨_, hstage, hphase, hended⟩

theorem world_of_before {w : World} (h : r.stage = .before w) : r.world = w := by
  rw [world, h]
  rfl

theorem world_of_moving {t : Transfer} (h : r.stage = .moving t) : r.world = t.toWorld := by
  rw [world, h]
  rfl

theorem transfer?_of_before {w : World} (h : r.stage = .before w) : r.transfer? = none := by
  rw [transfer?, h]

theorem transfer?_of_moving {t : Transfer} (h : r.stage = .moving t) : r.transfer? = some t := by
  rw [transfer?, h]

theorem stats_of_moving {t : Transfer} (h : r.stage = .moving t) : r.stats = {
    lifecycle := r.lifecycle
    received := t.received
    batchesApplied := t.batchesApplied
    appliedTotal := t.applier.total
    lastApplied := t.applier.last.timestamp?
    forwarder := some t.forwarder.stats } := by
  rw [stats, transfer?_of_moving h]
  rfl

theorem moving_of_transfer? {t : Transfer} (h : r.transfer? = some t) : r.stage = .moving t := by
  cases hs : r.stage with
  | before w => simp [transfer?, hs] at h
  | moving u =>
    rw [transfer?_of_moving hs] at h
    rw [Option.some.inj h]

theorem plan_of_opens {w : World} (h : r.Opens w s) : s.plan = r.plan := by
  cases h with
  | barred _ _ _ hplan => exact hplan
  | untimed _ _ _ _ _ _ hplan => exact hplan
  | streams => rfl

theorem plan_of_step (h : r.Standing) (hs : r.Step s) : s.plan = r.plan := by
  cases hs with
  | start hstart =>
    obtain ⟨w, hstage, _⟩ := h.before_of_start? hstart
    rw [(begun_of_start? hstart).2]
    rcases begun_cases hstage with ⟨e, _, heq⟩ | hopens
    · rw [heq]
      rfl
    · exact plan_of_opens (r := r.asked) hopens
  | move => rfl
  | @finish t result _ hstage _ =>
    obtain ⟨events, outcome, _, _, heq⟩ := r.finish_of_moving result allResources hstage
    rw [heq]
  | pass moment _ => exact (touches_pass r moment).plan
  | meet a ha => exact (touches_act ha).plan

theorem plan_of_leads (h : Reachable r) (hs : Leads r s) : s.plan = r.plan := by
  induction hs with
  | refl => rfl
  | tail hleads hstep ih =>
    have hs := reachable_standing (h.leads hleads)
    exact (plan_of_step hs hstep).trans ih

theorem started_of_step (hs : r.Step s) (hstarted : r.started = true) : s.started = true := by
  cases hs with
  | start hstart => cases (begun_of_start? hstart).1.symm.trans hstarted
  | move => exact hstarted
  | @finish t result _ hstage _ =>
    obtain ⟨events, outcome, _, _, heq⟩ := r.finish_of_moving result allResources hstage
    rw [heq]
    exact hstarted
  | pass moment _ => exact (touches_pass r moment).started.trans hstarted
  | meet a ha => exact (touches_act ha).started.trans hstarted

theorem started_of_leads (hs : Leads r s) (hstarted : r.started = true) : s.started = true := by
  induction hs with
  | refl => exact hstarted
  | tail _ hstep ih => exact started_of_step hstep ih

/-- A transfer is moved by its coordinator, or something happens beside it. -/
theorem beside_of_step {t : Transfer} (h : r.Standing) (hs : r.Step s)
    (hstage : r.stage = .moving t) :
    ∃ u, s.stage = .moving u ∧ (t.Beside u ∨ t.coordinate? = some u) := by
  cases hs with
  | start hstart =>
    obtain ⟨w, hbefore, _⟩ := h.before_of_start? hstart
    cases hbefore.symm.trans hstage
  | move _ hmoving _ hmoves =>
    cases hmoving.symm.trans hstage
    obtain ⟨threshold, _, hinv⟩ := h.invariant hstage
    exact ⟨_, rfl, hinv.beside_or_coordinate hmoves⟩
  | @finish _ result _ hmoving _ =>
    cases hmoving.symm.trans hstage
    obtain ⟨events, outcome, hevents, _, heq⟩ := r.finish_of_moving result allResources hstage
    refine ⟨Transfer.note { t with forwarder := t.forwarder.cancel } events, by rw [heq], .inl ?_⟩
    exact (Transfer.beside_cancel t).trans (Transfer.beside_onWorld (World.similar_note hevents))
  | pass moment _ =>
    obtain ⟨u, hu, hbeside, _⟩ := (touches_pass r moment).moving t hstage
    exact ⟨u, hu, .inl hbeside⟩
  | meet a ha =>
    obtain ⟨u, hu, hbeside, _⟩ := (touches_act ha).moving t hstage
    exact ⟨u, hu, .inl hbeside⟩

theorem flushes_of_opens {w : World} (hw : w.Quiet) (h : r.Opens w s) :
    s.world.journal.flushes = [] := by
  cases h with
  | barred _ _ hevents _ _ hstage =>
    rw [world_of_before hstage]
    exact (hw.similar (World.similar_note hevents)).flushes
  | untimed ns _ _ _ hevents hlater _ _ hstage =>
    rw [world_of_moving hstage]
    have hquiet := hw.similar (World.similar_note hevents)
    exact (hquiet.similar (World.similar_note hlater)).flushes
  | streams events _ _ _ hevents => exact (hw.similar (World.similar_note hevents)).flushes

theorem flushes_of_step_before {w : World} (h : r.Standing) (hs : r.Step s)
    (hstage : r.stage = .before w) : s.world.journal.flushes = [] := by
  have hquiet := h.quiet hstage
  have htouch (ht : Touches r s) : s.world.journal.flushes = [] := by
    obtain ⟨v, hv, hkeep⟩ := ht.before w hstage
    rw [world_of_before hv]
    exact (hkeep hquiet).flushes
  cases hs with
  | start hstart =>
    rw [(begun_of_start? hstart).2]
    rcases begun_cases hstage with ⟨e, _, heq⟩ | hopens
    · rw [heq]
      show r.asked.world.journal.flushes = []
      simp [asked, world, Stage.world, onWorld, Stage.onWorld, hstage, hquiet.flushes]
    · have hasked : World.Quiet { w with shutdown := r.callerRequest.getD r.ownRequest } :=
        ⟨hquiet.commands, hquiet.batches, hquiet.account⟩
      exact flushes_of_opens hasked hopens
  | move _ hmoving => cases hstage.symm.trans hmoving
  | finish _ hmoving => cases hstage.symm.trans hmoving
  | pass moment _ => exact htouch (touches_pass r moment)
  | meet a ha => exact htouch (touches_act ha)

theorem begun_of_step {w : World} {t : Transfer} (hs : r.Step s) (hbefore : r.stage = .before w)
    (hstage : s.stage = .moving t) : r.started = false ∧
      r.asked.Opens { w with shutdown := r.callerRequest.getD r.ownRequest } s := by
  have htouch (ht : Touches r s) : ∀ v, s.stage ≠ .moving v := by
    intro v hv
    obtain ⟨x, hx, _⟩ := ht.before w hbefore
    cases hx.symm.trans hv
  cases hs with
  | start hstart =>
    obtain ⟨hstarted, rfl⟩ := begun_of_start? hstart
    rcases begun_cases hbefore with ⟨e, _, heq⟩ | hopens
    · rw [heq] at hstage
      simp [asked, onWorld, Stage.onWorld, hbefore] at hstage
    · exact ⟨hstarted, hopens⟩
  | move _ hmoving => cases hbefore.symm.trans hmoving
  | finish _ hmoving => cases hbefore.symm.trans hmoving
  | pass moment _ => exact absurd hstage (htouch (touches_pass r moment) t)
  | meet a ha => exact absurd hstage (htouch (touches_act ha) t)

theorem opens_of_step {w : World} {t : Transfer} (h : r.Standing) (hs : r.Step s)
    (hbefore : r.stage = .before w) (hstage : s.stage = .moving t) :
    ∃ v, v.Quiet ∧ v.shutdown = r.callerRequest.getD r.ownRequest ∧ r.started = false ∧
      0 < r.plan.capacity ∧ r.asked.Opens v s := by
  obtain ⟨hstarted, hopens⟩ := begun_of_step hs hbefore hstage
  obtain ⟨v, hv, hquiet, hcap, _⟩ := h.before_of_start? (start?_eq_begun hstarted)
  cases hbefore.symm.trans hv
  exact ⟨{ w with shutdown := r.callerRequest.getD r.ownRequest },
    ⟨hquiet.commands, hquiet.batches, hquiet.account⟩, rfl, hstarted, hcap, hopens⟩

end OplogRelay.Run
