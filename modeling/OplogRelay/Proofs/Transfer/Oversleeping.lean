import OplogRelay.Proofs.Transfer.Draining
/-!
How the end of the forwarder is missed. A round that begins before that end is woken by it, and a round
that finds the hand-off drained is the last one. But nothing is looked at after the answer to a batch that
the timer has sent: if the forwarder has ended by then and left nothing, the next round begins all the
same, and only the timer is left to wake it.
-/
namespace OplogRelay

theorem Event.flush?_of_verdict {ev : Event} (h : ev.isVerdict = true) : ev.flush? = none := by
  cases ev <;> first | rfl | cases h

namespace Transfer

variable {t u v : Transfer} {threshold : Timestamp} {events : List Event} {f : Flush}

/-- Nothing is left for a coordinator that will not hear of the forwarder's end: it waits in a round that
began after that, or for the answer to a batch that the timer has sent. -/
structure Overlooks (t : Transfer) : Prop where
  drained : t.drained = true
  deaf : t.phase = .waiting false ∨ ∃ f, t.phase.flush? = some f ∧ f.trigger = .timer

/-- The forwarder comes to its end while a batch is under way that the timer has sent, and nothing is left
on the hand-off. -/
structure EndsUnheard (t u : Transfer) : Prop where
  live : t.forwarder.ending = none
  timed : ∃ f, t.phase.flush? = some f ∧ f.trigger = .timer
  phase : u.phase = t.phase
  drained : u.drained = true

theorem Overlooks.not_done (h : t.Overlooks) : t.isDone = false := by
  by_contra hdone
  obtain ⟨outcome, hphase⟩ := done_of_isDone (by simpa using hdone)
  rcases h.deaf with hwaits | ⟨f, hf, _⟩
  · cases hwaits.symm.trans hphase
  · simp [hphase, Phase.flush?] at hf

theorem Aside.overlooks (h : t.Aside u) (hwakeful : t.Wakeful) (hu : u.Overlooks) :
    t.Overlooks ∨ t.EndsUnheard u := by
  have hdeaf := hu.deaf
  rw [h.phase] at hdeaf
  by_cases hlive : t.forwarder.ending = none
  · rcases hdeaf with hphase | htimed
    · exact absurd hlive (hwakeful.unwatched hphase).1
    · exact .inr ⟨hlive, htimed, h.phase, hu.drained⟩
  · exact .inl ⟨h.undrained hlive hu.drained, hdeaf⟩

theorem Hears.not_overlooks (h : v.Hears u events) (hforwarder : u.forwarder = v.forwarder)
    (hclaim : v.batch.entries ≠ [] → v.claim.entries = []) : ¬ u.Overlooks := by
  intro hu
  obtain ⟨hended, hqueue, _⟩ := drained_iff.mp hu.drained
  rw [hforwarder] at hended hqueue
  rcases hu.deaf with hphase | ⟨f, hf, htimer⟩
  · obtain ⟨hbegins, hgoes⟩ := h.begins hphase
    cases hgoes.symm.trans (hbegins.drained.symm.trans hu.drained)
  · cases h with
    | waits _ _ _ hbegins => simp [hbegins.phase, Phase.flush?] at hf
    | ticks _ _ _ _ hbegins => simp [hbegins.phase, Phase.flush?] at hf
    | sends hb hdue _ hflush =>
      cases hflush.symm.trans hf
      have hdrained : v.drained = true := drained_iff.mpr ⟨hended, hqueue, hclaim hb⟩
      cases (hdue htimer).2.symm.trans hdrained
    | ends _ _ hdone => cases hu.not_done.symm.trans hdone

/-- What the coordinator overlooks after a step, it has overlooked before: no batch was sent, and if it
has begun to wait there is nothing to send. -/
theorem Invariant.overlooks_of_coordinate? (h : t.Invariant threshold) (hstep : t.coordinate? = some u)
    (hu : u.Overlooks) : t.Overlooks ∧ u.flushes = t.flushes ∧
      (u.phase = .waiting false → u.batch.entries = []) := by
  have hforwarder := (h.coordinate?_advances hstep).forwarder
  obtain ⟨events, hadds, hclocks⟩ := h.clocks hstep
  have hflushes : u.flushes = t.flushes ++ events.filterMap Event.flush? := by
    rw [flushes, hadds.journal, Journal.flushes_note]
    rfl
  cases hclocks with
  | waited _ _ hclaim hhears => exact absurd hu (hhears.not_overlooks hforwarder fun _ => hclaim)
  | received _ _ _ hhears => exact absurd hu (hhears.not_overlooks hforwarder fun _ => rfl)
  | @heard f ops due answer hphase _ hphase' =>
    have htimed : f.trigger = .timer := by
      rcases hu.deaf with hwaits | ⟨g, hg, htimer⟩
      · cases hwaits.symm.trans hphase'
      · rw [hphase'] at hg
        cases hg
        exact htimer
    have hsame : u.claim.entries = t.claim.entries := by
      have hacts := h.acts hstep
      cases hacts with
      | heard _ _ heq =>
        subst heq
        rfl
      | waited hwaits => cases hwaits.symm.trans hphase
      | received hwaits => cases hwaits.symm.trans hphase
      | refused hanswered => cases hanswered.symm.trans hphase
      | counted hanswered => cases hanswered.symm.trans hphase
    obtain ⟨hended, hqueue, hclaim⟩ := drained_iff.mp hu.drained
    rw [hforwarder] at hended hqueue
    rw [hsame] at hclaim
    refine ⟨⟨drained_iff.mpr ⟨hended, hqueue, hclaim⟩, .inr ⟨f, ?_, htimed⟩⟩, ?_, ?_⟩
    · rw [hphase]
      rfl
    · simpa using hflushes
    · intro hwaits
      cases hwaits.symm.trans hphase'
  | refused _ _ hdone => cases hu.not_done.symm.trans hdone
  | counted _ _ _ _ _ hhears => exact absurd hu (hhears.not_overlooks hforwarder fun hb => absurd rfl hb)
  | @resumed f answer last moment verdict hphase htimed hverdict _ hbegins =>
    have hdrained : t.drained = true := hbegins.drained.symm.trans hu.drained
    refine ⟨⟨hdrained, .inr ⟨f, ?_, htimed⟩⟩, ?_, fun _ => ?_⟩
    · rw [hphase]
      rfl
    · simpa [Event.flush?_of_verdict hverdict] using hflushes
    · rw [hbegins.batch]
      rfl
  | concluded _ _ _ _ hdone => cases hu.not_done.symm.trans hdone

theorem Invariant.drained_of_coordinate? (h : t.Invariant threshold) (hstep : t.coordinate? = some u)
    (hd : t.drained = true) : u.drained = true ∧ u.forwarder = t.forwarder := by
  have hforwarder := (h.coordinate?_advances hstep).forwarder
  obtain ⟨hended, hqueue, hclaim⟩ := drained_iff.mp hd
  refine ⟨drained_iff.mpr ⟨by rwa [hforwarder], by rwa [hforwarder], ?_⟩, hforwarder⟩
  rcases (h.acts hstep).claim with ⟨_, _, hnone⟩ | ⟨hsame, _⟩
  · exact hnone
  · exact hsame.trans hclaim

theorem step?_of_drained {watching : Bool} (hphase : t.phase = .waiting watching)
    (hunasked : t.shutdown = false) (hunheard : t.heard = false) (hd : t.drained = true)
    (hb : t.batch.entries = []) (halarm : t.alarmDue = true) : t.step? = some t.conclude := by
  obtain ⟨hended, hqueue, hclaim⟩ := drained_iff.mp hd
  have hdone : t.isDone = false := by simp [isDone, hphase]
  have hfill : t.fill? = none := by simp [Transfer.fill?, hqueue]
  have hforward : t.forward? = none := by
    rw [Transfer.forward?, Forwarder.step?_of_ended hended]
  have hhear : t.hear? = none := by simp [Transfer.hear?, hunasked]
  have hproceed : t.proceed t.heard = t.conclude := by
    simp [proceed, hunheard, hd, isEmpty_iff.mpr hb]
  have hcoordinate : t.coordinate? = some t.conclude := by
    have hroused : t.roused watching = true := by simp [roused, halarm]
    simp only [Transfer.coordinate?, hphase, if_pos hroused]
    cases hc : t.claim with
    | filled e => simp [hc, Claim.entries] at hclaim
    | none => rw [hproceed]
    | outstanding => rw [hproceed]
  simp [step?, hdone, hfill, hforward, hhear, hcoordinate]

end Transfer

end OplogRelay
