import OplogRelay.Proofs.Run.Landmarks
import OplogRelay.Proofs.Run.Timelines
import OplogRelay.Proofs.Transfer.Goings
import OplogRelay.Proofs.Transfer.Patience
/-!
The transfer of a run. Each step of a run is one of the things that can become of its transfer; so what a
transfer has when it starts and keeps through all of them, the transfer of every run has.
-/
namespace OplogRelay

namespace Run

variable {r s : Run} {t : Transfer}

theorem act_moving {a : Action} (ha : ∀ span, a ≠ .advance span) (hstage : r.stage = .moving t) :
    ∃ w f, (r.act a).stage = .moving { t with toWorld := w, forwarder := f } ∧ w.now = t.now ∧
      (f = t.forwarder ∨ f = t.forwarder.wake) := by
  have hworld {f : World → World} (hf : ∀ w, (f w).now = w.now) :
      ∃ w f', (r.onWorld f).stage = .moving { t with toWorld := w, forwarder := f' } ∧
        w.now = t.now ∧ (f' = t.forwarder ∨ f' = t.forwarder.wake) := by
    refine ⟨f t.toWorld, t.forwarder, ?_, hf _, .inl rfl⟩
    simp [onWorld, Stage.onWorld, hstage, Transfer.onWorld]
  have hsame : ∃ w f, r.stage = .moving { t with toWorld := w, forwarder := f } ∧ w.now = t.now ∧
      (f = t.forwarder ∨ f = t.forwarder.wake) := ⟨t.toWorld, t.forwarder, hstage, rfl, .inl rfl⟩
  cases a with
  | advance span => exact absurd rfl (ha span)
  | append docs =>
    refine ⟨t.toWorld.append docs, t.forwarder.wake, ?_, rfl, .inr rfl⟩
    simp [act, append, hstage, Transfer.append, Transfer.onWorld]
  | inject f =>
    refine ⟨t.toWorld.inject f, t.forwarder.wake, ?_, rfl, .inr rfl⟩
    simp [act, inject, hstage, Transfer.inject, Transfer.onWorld]
  | signalCaller =>
    simp only [act, signalCaller]
    split
    · exact hsame
    · split
      · exact hworld fun _ => rfl
      · exact hsame
  | requestShutdown =>
    simp only [act, requestShutdown]
    split
    · exact hworld fun _ => rfl
    · exact hsame
  | reject message => exact hworld fun _ => rfl
  | raise f => exact hworld fun _ => rfl
  | delay seconds => exact hworld fun _ => rfl

theorem goes_of_step (hr : r.Standing) (hs : r.Step s) (hstage : r.stage = .moving t) :
    ∃ u, s.stage = .moving u ∧ t.Goes u := by
  cases hs with
  | start hstart =>
    obtain ⟨w, hbefore, _⟩ := hr.before_of_start? hstart
    cases hbefore.symm.trans hstage
  | move _ hmoving _ hmoves =>
    cases hmoving.symm.trans hstage
    exact ⟨_, rfl, .moves hmoves⟩
  | @finish _ result _ hmoving hphase =>
    cases hmoving.symm.trans hstage
    obtain ⟨events, outcome, hevents, _, heq⟩ := r.finish_of_moving result allResources hstage
    refine ⟨_, by rw [heq], .ends events ?_ hevents⟩
    simp [Transfer.isDone, hphase]
  | pass moment hlater =>
    rw [world_of_moving hstage] at hlater
    exact ⟨_, stage_moveTo moment hstage, .passes hlater⟩
  | meet a ha =>
    obtain ⟨w, f, hmoved, hnow, hf⟩ := act_moving ha hstage
    obtain ⟨counts, hjournal⟩ := journal_act (r := r) ha
    obtain ⟨u, hu, hbeside, _⟩ := (touches_act ha).moving t hstage
    rw [world_of_moving hmoved, world_of_moving hstage] at hjournal
    cases hmoved.symm.trans hu
    exact ⟨_, hmoved, .meets hnow hjournal hf hbeside⟩

/-- A transfer starts over surroundings in which nothing was sent, with a timer as it was planned or with
none. -/
theorem start_of_step (hr : r.Standing) (hs : r.Step s) {w : World} (hbefore : r.stage = .before w)
    (hstage : s.stage = .moving t) : ∃ v ns threshold interval, World.Quiet v ∧
      (r.plan.interval.wait? = .ok interval ∨ interval = .unbounded) ∧
      t = .start v (.start ns threshold r.plan.idle v.now) r.plan.capacity interval := by
  obtain ⟨v, hquiet, _, _, _, hopens⟩ := opens_of_step hr hs hbefore hstage
  cases hopens with
  | barred _ _ _ _ _ hbarred => cases hbarred.symm.trans hstage
  | @untimed threshold events later _ _ ns _ _ _ hevents hlater _ _ hmoving =>
    cases hmoving.symm.trans hstage
    have hafter := hquiet.similar (World.similar_note hevents)
    exact ⟨_, ns, threshold, .unbounded, hafter.similar (World.similar_note hlater), .inr rfl, rfl⟩
  | @streams threshold ns interval events _ _ hwait hevents =>
    cases hstage
    exact ⟨_, ns, threshold, interval, hquiet.similar (World.similar_note hevents), .inl hwait, rfl⟩

theorem Reachable.transfer {P : Transfer → Prop} (h : Reachable r) (hstage : r.stage = .moving t)
    (start : ∀ (w : World) (ns : Namespace) (threshold : Timestamp) (interval : Span), w.Quiet →
      (r.plan.interval.wait? = .ok interval ∨ interval = .unbounded) →
      P (.start w (.start ns threshold r.plan.idle w.now) r.plan.capacity interval))
    (step : ∀ {q : Run} {t u : Transfer}, Reachable q → q.stage = .moving t → P t → t.Goes u → P u) :
    P t := by
  induction h generalizing t with
  | made hmade =>
    cases hmade
    cases hstage
  | @step q r hq hstep ih =>
    have hstanding := reachable_standing hq
    rw [plan_of_step hstanding hstep] at start
    cases hbefore : q.stage with
    | before w =>
      obtain ⟨v, ns, threshold, interval, hquiet, hinterval, rfl⟩ :=
        start_of_step hstanding hstep hbefore hstage
      exact start v ns threshold interval hquiet hinterval
    | moving v =>
      obtain ⟨u, hu, hgoes⟩ := goes_of_step hstanding hstep hbefore
      cases hu.symm.trans hstage
      exact step hq hbefore (ih hbefore start) hgoes

theorem reachable_timed (h : Reachable r) (hstage : r.stage = .moving t) : t.forwarder.tail.Timed := by
  refine h.transfer (P := fun t => t.forwarder.tail.Timed) hstage ?_ ?_
  · intro w ns threshold interval _ _
    refine Tail.timed_of_busy ?_ ?_
    · intro until? woken hphase
      cases hphase
    · intro hphase
      cases hphase
  · intro q t u hq hstage htimed hgoes
    obtain ⟨threshold, _, hinv⟩ := (reachable_standing hq).invariant hstage
    exact hgoes.timed hinv htimed

theorem reachable_idle (h : Reachable r) (hstage : r.stage = .moving t) :
    t.forwarder.tail.idle = r.plan.idle := by
  refine h.transfer (P := fun t => t.forwarder.tail.idle = r.plan.idle) hstage ?_ ?_
  · intro w ns threshold interval _ _
    rfl
  · intro q t u hq hstage hidle hgoes
    obtain ⟨threshold, _, hinv⟩ := (reachable_standing hq).invariant hstage
    exact (hgoes.idle hinv).trans hidle

/-- The clock of a run can be set forward by its wait for new entries. -/
def CountsOn (r : Run) : Prop := r.plan.idle.span.SetsForward r.world.now

def TicksOn (r : Run) : Prop := r.plan.interval.span.SetsForward r.world.now

theorem CountsOn.moving (h : r.CountsOn) (hr : Reachable r) (hstage : r.stage = .moving t) :
    t.CountsOn := by
  rw [CountsOn, world_of_moving hstage] at h
  rw [Transfer.CountsOn, reachable_idle hr hstage]
  exact h

end Run

end OplogRelay
