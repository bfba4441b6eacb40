import OplogRelay.Proofs.Run.Timelines
import OplogRelay.Proofs.Transfer.Patience
/-!
Failing fast: batches are sent one after the other, and a batch that is refused is the last one.
What was read meanwhile, what was requested and what is appended afterwards make no difference.
-/
namespace OplogRelay

namespace Transfer

variable {threshold : Timestamp} {t u : Transfer} {settled : List (Trigger × List Entry)}
variable {b : Trigger × List Entry} {answer : Answer}

/-- The last batch that was sent has failed, and nothing of it is applied or counted. Its answer is
still to be settled, or has ended the transfer. -/
structure Failing (settled : List (Trigger × List Entry)) (b : Trigger × List Entry)
    (answer : Answer) (t : Transfer) : Prop where
  flushes : t.flushes = settled ++ [b]
  counted : t.Counted settled
  applied : t.Applied settled
  refused : answer.isAccepted = false
  phase : (∃ f, t.phase = .answered f answer ∧ t.batch.entries ≠ []) ∨
    t.phase = .done (.error answer.failure) ∧ t.batch.entries = []

/-- The answer that does not accept the last batch, as long as it is still to be settled. -/
def refusal? (t : Transfer) : Option (Flush × Answer) :=
  match t.phase with
  | .answered f answer => if answer.isAccepted then none else some (f, answer)
  | _ => none

theorem answered_of_refusal? {f : Flush} (h : t.refusal? = some (f, answer)) :
    t.phase = .answered f answer ∧ answer.isAccepted = false := by
  unfold refusal? at h
  split at h
  · next hphase =>
    split at h
    · cases h
    · next hnot =>
      cases h
      exact ⟨hphase, by simpa using hnot⟩
  · cases h

theorem Invariant.failing {f : Flush} (h : t.Invariant threshold)
    (hrefusal : t.refusal? = some (f, answer)) :
    ∃ settled, Failing settled (f.trigger, t.batch.entries) answer t := by
  obtain ⟨hphase, hrefused⟩ := answered_of_refusal? hrefusal
  cases h.standing_at hphase with
  | answered hflushes hb hcounted happlied _ =>
    rw [hrefused] at happlied
    exact ⟨_, hflushes, hcounted, happlied, hrefused, .inl ⟨f, hphase, hb⟩⟩

theorem Failing.beside (h : Failing settled b answer t) (hb : t.Beside u) :
    Failing settled b answer u where
  flushes := hb.flushes.trans h.flushes
  counted := hb.counted_transport h.counted
  applied := hb.applied_transport h.applied
  refused := h.refused
  phase := by
    rw [hb.phase, hb.batch]
    exact h.phase

theorem Failing.settle {f : Flush} (h : Failing settled b answer t)
    (hb : t.batch.entries ≠ []) : Failing settled b answer (t.settle f answer) := by
  have hrefuses := settle_refuses f hb h.refused
  refine ⟨hrefuses.flushes.trans h.flushes, ?_, ?_, h.refused, ?_⟩
  · exact h.counted.transport hrefuses.counted (by rw [hrefuses.applier]) (by rw [hrefuses.applier])
  · exact h.applied.transport (by rw [hrefuses.destination]) (by rw [hrefuses.destination])
      hrefuses.flushes hrefuses.attached
  · exact .inr ⟨hrefuses.phase, hrefuses.batch⟩

theorem Failing.coordinate? (h : Failing settled b answer t) (hstep : t.coordinate? = some u) :
    Failing settled b answer u := by
  rcases h.phase with ⟨f, hphase, hb⟩ | ⟨hphase, _⟩
  · simp only [Transfer.coordinate?, hphase] at hstep
    cases hstep
    exact h.settle hb
  · simp [Transfer.coordinate?, hphase] at hstep

theorem Invariant.descends_of_failing (h : t.Invariant threshold)
    (hfailing : Failing settled b answer t) (hstep : t.step? = some u) :
    Prod.Lex (· < ·) Busier (u.rank, u.bustle) (t.rank, t.bustle) := by
  rcases hfailing.phase with ⟨f, hphase, hb⟩ | ⟨hphase, _⟩
  · rcases h.step?_of_answered hphase with ⟨v, hv, hbeside, hless⟩ | hsettle
    · cases hv.symm.trans hstep
      rw [rank, hbeside.phase, ← rank]
      exact .right _ hless
    · cases hsettle.symm.trans hstep
      refine .left _ _ ?_
      simp only [rank, hphase, (settle_refuses f hb hfailing.refused).phase]
      omega
  · simp [step?, isDone, hphase] at hstep

end Transfer

namespace Run

variable {r s : Run} {settled : List (Trigger × List Entry)} {b : Trigger × List Entry}
variable {answer : Answer}

/-- What there is of a run whose last batch has failed: that batch is the last command, and nothing
of it is applied or counted. Once the run is over its buffer is empty, and the failure is reported
unless a resource overrules it. -/
structure Failed (settled : List (Trigger × List Entry)) (b : Trigger × List Entry)
    (answer : Answer) (r : Run) : Prop where
  flushes : r.world.journal.flushes = settled ++ [b]
  commands : r.world.destination.commands =
    if r.world.attached then (settled ++ [b]).map fun b => .ofBatch b.2 else []
  batches : r.world.destination.batches = settled.map fun b => .ofBatch b.2
  batchesApplied : r.stats.batchesApplied = settled.length
  appliedTotal : r.stats.appliedTotal = (settled.flatMap Prod.snd).length
  lastApplied : r.stats.lastApplied =
    (settled.flatMap Prod.snd).getLast?.bind fun e => e.timestamp.timestamp?
  report : r.isOver = true → r.buffered = 0 ∧ (∃ e, r.outcome = some (.error e)) ∧
    (r.plan.Mild → r.outcome = some (.error answer.failure))

theorem failing_of_step {t : Transfer} (h : r.Standing) (hs : r.Step s)
    (hstage : r.stage = .moving t) (hfailing : t.Failing settled b answer) :
    ∃ u, s.stage = .moving u ∧ u.Failing settled b answer := by
  obtain ⟨u, hu, hbeside | hcoordinate⟩ := beside_of_step h hs hstage
  · exact ⟨u, hu, hfailing.beside hbeside⟩
  · exact ⟨u, hu, hfailing.coordinate? hcoordinate⟩

theorem failing_of_leads {t : Transfer} (h : Reachable r) (hs : Leads r s)
    (hstage : r.stage = .moving t) (hfailing : t.Failing settled b answer) :
    ∃ u, s.stage = .moving u ∧ u.Failing settled b answer := by
  induction hs with
  | refl => exact ⟨t, hstage, hfailing⟩
  | tail hleads hstep ih =>
    obtain ⟨u, hu, hfailing⟩ := ih
    exact failing_of_step (reachable_standing (h.leads hleads)) hstep hu hfailing

theorem over_of_failing {t : Transfer} (h : r.Standing) (hstage : r.stage = .moving t)
    (hfailing : t.Failing settled b answer) (hover : r.isOver = true) :
    t.batch.entries = [] ∧ r.Ended .streaming (.error answer.failure) := by
  rcases h.over_cases hstage hover with ⟨hnone, _⟩ | ⟨result, hdone, hended⟩
  · have hsome := hfailing.flushes
    rw [hnone] at hsome
    simp at hsome
  · rcases hfailing.phase with ⟨f, hphase, _⟩ | ⟨hphase, hb⟩
    · cases hphase.symm.trans hdone
    · cases hphase.symm.trans hdone
      exact ⟨hb, hended⟩

theorem failed_of_failing {t : Transfer} (h : r.Standing) (hstage : r.stage = .moving t)
    (hfailing : t.Failing settled b answer) : r.Failed settled b answer where
  flushes := by
    rw [world_of_moving hstage]
    exact hfailing.flushes
  commands := by
    rw [world_of_moving hstage, hfailing.applied.commands, hfailing.flushes]
  batches := by
    rw [world_of_moving hstage]
    exact hfailing.applied.batches
  batchesApplied := by
    rw [stats, transfer?_of_moving hstage]
    exact hfailing.counted.batches
  appliedTotal := by
    rw [stats, transfer?_of_moving hstage]
    exact hfailing.counted.total
  lastApplied := by
    rw [stats, transfer?_of_moving hstage]
    show t.applier.last.timestamp? = _
    rw [hfailing.counted.last]
    cases (settled.flatMap Prod.snd).getLast? <;> rfl
  report hover := by
    obtain ⟨hb, hended⟩ := over_of_failing h hstage hfailing hover
    refine ⟨?_, ?_, hended.reports⟩
    · rw [buffered, transfer?_of_moving hstage]
      exact Transfer.size_eq_zero.mpr hb
    · rcases hended.outcome with hreports | ⟨resource, f, _, _, houtcome⟩
      · exact ⟨_, hreports⟩
      · exact ⟨_, houtcome⟩

/-- The run gets to its end. The forwarder may work first, and there is only so much of that. -/
theorem finishes_of_failing {t : Transfer} (h : Reachable r) (hstage : r.stage = .moving t)
    (hfailing : t.Failing settled b answer) : r.Finishes := by
  have keeps {r s : Run}
      (h : Reachable r ∧ ∃ t, r.stage = .moving t ∧ t.Failing settled b answer)
      (hnext : Timed.tick? none r = some s) :
      Reachable s ∧ ∃ t, s.stage = .moving t ∧ t.Failing settled b answer := by
    obtain ⟨hr, t, hstage, hfailing⟩ := h
    have hstep := step_of_tick? hnext
    exact ⟨hr.step hstep, failing_of_step (reachable_standing hr) hstep hstage hfailing⟩
  refine finishes_of_descent
    (WellFounded.prod_lex Nat.lt_wfRel.wf Transfer.busier_wellFounded) (fun t => (t.rank, t.bustle))
    keeps ?_ ?_ ⟨h, t, hstage, hfailing⟩ hstage
  · rintro r t u ⟨hr, v, hv, hfailing⟩ hstage hstep
    cases hv.symm.trans hstage
    obtain ⟨threshold, _, hinv⟩ := (reachable_standing hr).invariant hstage
    exact hinv.descends_of_failing hfailing hstep
  · rintro r t ⟨hr, v, hv, hfailing⟩ hstage hdone hrest
    cases hv.symm.trans hstage
    obtain ⟨_, _, _, hcoordinate, _⟩ := Transfer.steps_none hrest hdone
    rcases hfailing.phase with ⟨f, hphase, _⟩ | ⟨hphase, _⟩
    · simp [Transfer.coordinate?, hphase] at hcoordinate
    · simp [Transfer.isDone, hphase] at hdone

theorem even_of_step_before {w : World} {t : Transfer} {result : Except Failure Unit}
    (h : Reachable r) (hs : r.Step s) (hbefore : r.stage = .before w)
    (hstage : s.stage = .moving t) (hphase : t.phase = .done result) : t.Even := by
  have hnone := flushes_of_step_before (reachable_standing h) hs hbefore
  obtain ⟨threshold, _, hinv⟩ := (reachable_standing (h.step hs)).invariant hstage
  rw [world_of_moving hstage] at hnone
  have hdone := hinv.standing
  rw [hphase] at hdone
  cases hdone with
  | finished heven => exact heven
  | stopped heven => exact heven
  | refused hflushes => simp [Transfer.flushes, hnone] at hflushes

theorem exists_refusal {t : Transfer} {result : Except Failure Unit} (h : Reachable r)
    (hstage : r.stage = .moving t) (hphase : t.phase = .done result) :
    t.Even ∨ ∃ s u f answer, Reachable s ∧ Leads s r ∧ s.stage = .moving u ∧
      u.refusal? = some (f, answer) ∧ result = .error answer.failure := by
  induction h generalizing t with
  | made hmade =>
    cases hmade
    cases hstage
  | @step q r hq hstep ih =>
    have hstanding := reachable_standing hq
    cases hbefore : q.stage with
    | before w => exact .inl (even_of_step_before hq hstep hbefore hstage hphase)
    | moving u =>
      obtain ⟨threshold, _, hinv⟩ := hstanding.invariant hbefore
      obtain ⟨t', ht', hbeside | hcoordinate⟩ := beside_of_step hstanding hstep hbefore
      -- the phase is the coordinator's, so beside it the transfer had ended before this step
      · cases ht'.symm.trans hstage
        have hdone := hbeside.phase.symm.trans hphase
        rcases ih hbefore hdone with heven | ⟨s, v, f, answer, hs, hleads, h⟩
        · exact .inl (hbeside.even heven)
        · exact .inr ⟨s, v, f, answer, hs, .tail hleads hstep, h⟩
      · cases ht'.symm.trans hstage
        rcases (hinv.coordinate?_advances hcoordinate).ends (by simp [Transfer.isDone, hphase]) with
          heven | ⟨f, answer, hanswered, hrefused, hfailed⟩
        · exact .inl heven
        · refine .inr ⟨q, u, f, answer, hq, .single hstep, hbefore, ?_, ?_⟩
          · simp [Transfer.refusal?, hanswered, hrefused]
          · cases hphase.symm.trans hfailed
            rfl

theorem flushes_le (h : Reachable r) :
    r.world.journal.flushes.length ≤ r.world.destination.batches.length + 1 := by
  have hstanding := reachable_standing h
  cases hstage : r.stage with
  | before w =>
    rw [world_of_before hstage, (hstanding.quiet hstage).flushes]
    exact Nat.zero_le _
  | moving t =>
    obtain ⟨threshold, _, hinv⟩ := hstanding.invariant hstage
    obtain ⟨settled, happlied, _, hlen⟩ := hinv.standing.applied
    rw [world_of_moving hstage, happlied.batches, List.length_map]
    exact hlen

theorem sends_of_step (h : Reachable r) (hs : r.Step s) :
    s.world.journal.flushes = r.world.journal.flushes ∨
    ∃ b, s.world.journal.flushes = r.world.journal.flushes ++ [b] ∧
      r.world.destination.batches = r.world.journal.flushes.map fun b => .ofBatch b.2 := by
  have hstanding := reachable_standing h
  cases hstage : r.stage with
  | before w =>
    refine .inl ?_
    rw [flushes_of_step_before hstanding hs hstage, world_of_before hstage,
      (hstanding.quiet hstage).flushes]
  | moving t =>
    obtain ⟨threshold, _, hinv⟩ := hstanding.invariant hstage
    obtain ⟨u, hu, hbeside | hcoordinate⟩ := beside_of_step hstanding hs hstage
    · rw [world_of_moving hstage, world_of_moving hu]
      exact .inl hbeside.flushes
    · rw [world_of_moving hstage, world_of_moving hu]
      refine (hinv.coordinate?_advances hcoordinate).sends.imp_right ?_
      rintro ⟨b, hb, happlied⟩
      exact ⟨b, hb, happlied.batches⟩

/-- Batches are sent one at a time, each after those before it have been applied. From the moment at
which one is rejected or answered with a fault it stays the last one, whatever happens to the run;
and left to itself the run ends with that failure. -/
theorem fails_fast (h : Reachable r) :
    r.world.journal.flushes.length ≤ r.world.destination.batches.length + 1 ∧
    (∀ s, r.Step s → s.world.journal.flushes = r.world.journal.flushes ∨
      ∃ b, s.world.journal.flushes = r.world.journal.flushes ++ [b] ∧
        r.world.destination.batches = r.world.journal.flushes.map fun b => .ofBatch b.2) ∧
    ∀ t f answer, r.stage = .moving t → t.refusal? = some (f, answer) →
      ∃ settled, ∀ s, Leads r s →
        s.Failed settled (f.trigger, t.batch.entries) answer ∧ s.Finishes := by
  refine ⟨flushes_le h, fun s hs => sends_of_step h hs, ?_⟩
  intro t f answer hstage hrefusal
  obtain ⟨threshold, _, hinv⟩ := (reachable_standing h).invariant hstage
  obtain ⟨settled, hfailing⟩ := hinv.failing hrefusal
  refine ⟨settled, fun s hs => ?_⟩
  obtain ⟨u, hu, hfailing⟩ := failing_of_leads h hs hstage hfailing
  have hreach := h.leads hs
  exact ⟨failed_of_failing (reachable_standing hreach) hu hfailing,
    finishes_of_failing hreach hu hfailing⟩

def rejected : Run := primed (.reject "no") 9

theorem leads_rejected : Leads (construct Plan.small smallLog (.whole 0) true false) rejected :=
  leads_primed (start?_eq_begun rfl) 9

/-- A run whose destination rejects the first batch ends with one batch sent and none applied. -/
theorem fails_fast_small : ∃ f answer r, Leads rejected r ∧
    rejected.transfer?.bind Transfer.refusal? = some (f, answer) ∧ r.isOver = true ∧
    r.world.journal.flushes.length = 1 ∧ r.world.destination.batches = [] ∧
    r.outcome = some (.error answer.failure) := by
  have hreach := (Reachable.made made_small).leads leads_rejected
  have hsome : (rejected.transfer?.bind Transfer.refusal?).isSome = true := by decide +kernel
  obtain ⟨⟨f, answer⟩, hrefused⟩ := Option.isSome_iff_exists.mp hsome
  obtain ⟨t, htransfer, hrefusal⟩ := Option.bind_eq_some_iff.mp hrefused
  obtain ⟨settled, hall⟩ :=
    (fails_fast hreach).2.2 t f answer (moving_of_transfer? htransfer) hrefusal
  obtain ⟨hfailed, n, hn⟩ := hall rejected .refl
  have hsettled : settled.length = 0 := by
    rw [← List.length_map (fun b => Value.ofBatch b.2), ← hfailed.batches]
    decide +kernel
  have hleads := leads_ticks n hreach
  have hlast := (hall _ hleads).1
  have hmild : (Timed.run none n rejected).plan.Mild := by
    rw [plan_of_leads (.made made_small) (leads_rejected.trans hleads)]
    exact Plan.small_mild
  refine ⟨f, answer, _, hleads, hrefused, hn n (Nat.le_refl n), ?_, ?_,
    (hlast.report (hn n (Nat.le_refl n))).2.2 hmild⟩
  · rw [hlast.flushes, List.length_append, hsettled]
    rfl
  · rw [hlast.batches, List.length_eq_zero_iff.mp hsettled]
    rfl

end Run

end OplogRelay
