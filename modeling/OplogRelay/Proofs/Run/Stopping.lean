import OplogRelay.Proofs.Run.Backpressure
import OplogRelay.Proofs.Run.Moving
import OplogRelay.Proofs.Run.Requests
import OplogRelay.Proofs.Run.Spinning
/-!
Requests to stop. From the moment at which the event is set that a run waits on, two more entries can
be received and two more batches be sent, and one once the coordinator has heard of it; after the last of them
all has been sent that was received. The run gets to its end, if the clock can be set forward by the wait for
new entries; there nothing is left of what it received, and at most three entries of what it read beyond that.
-/
namespace OplogRelay

namespace Run

variable {r s : Run} {t : Transfer}

/-- Left to itself the run gets to a moment from which the clock cannot be set forward by the wait for new
entries. -/
def Stalls (r : Run) : Prop := ∃ n, ¬ (Timed.run none n r).CountsOn

/-- A run that was asked to stop gets to its end: each step leaves fewer rounds, or less to do before
the next step of the coordinator. -/
theorem finishes_of_asked (h : Reachable r) (hasked : r.isAsked = true)
    (hstage : r.stage = .moving t) : r.Finishes ∨ r.Stalls := by
  have keeps {r s : Run} (h : Reachable r ∧ r.isAsked = true) (hnext : Timed.tick? none r = some s) :
      Reachable s ∧ s.isAsked = true := by
    have hstep := step_of_tick? hnext
    exact ⟨h.1.step hstep, asked_of_step h.1 hstep h.2⟩
  refine finishes_or_of_descent (Q := fun r => ¬ r.CountsOn) Transfer.sooner_wellFounded
    Transfer.stopping keeps ?_ ?_ ⟨h, hasked⟩ hstage
  · rintro r t u ⟨hr, hasked⟩ hstage hstep
    by_cases hcounts : r.CountsOn
    · obtain ⟨threshold, _, hinv⟩ := (reachable_standing hr).invariant hstage
      exact .inr (hinv.descends (shutdown_of_asked hr hstage hasked) (reachable_timed hr hstage)
        (hcounts.moving hr hstage) hstep)
    · exact .inl hcounts
  · rintro r t ⟨hr, hasked⟩ hstage hdone hrest
    exact Transfer.sooner_of_rest (shutdown_of_asked hr hstage hasked) hdone hrest

/-- What a run comes to from a moment on at which it was asked to stop, with so many rounds left. The last
batch that may still be sent leaves nothing of what was received. -/
structure Closing (rounds : Nat) (r s : Run) : Prop where
  received : s.stats.received ≤ r.stats.received + rounds
  sends : ∃ batches, s.world.journal.flushes = r.world.journal.flushes ++ batches ∧
    batches.length ≤ rounds ∧ (batches.length = rounds →
      s.world.journal.receipts = s.world.journal.flushes.flatMap Prod.snd)
  commands : s.world.destination.commands.length ≤ r.world.destination.commands.length + rounds

def streamFailure? (r : Run) : Option Failure :=
  r.transfer?.bind fun t => t.forwarder.ending.bind Forwarder.Ending.failure?

def FailsWithStream (r : Run) : Prop :=
  ∃ t e, r.stage = .moving t ∧ r.streamFailure? = some e ∧ t.phase = .done (.error e)

/-- A clean stop: all that was received is applied, and what was read beyond that comes directly
after it. -/
structure Stopped (r : Run) : Prop where
  outcome : ∃ stats, r.outcome = some (.ok stats) ∧ stats.lifecycle = .stopped ∧
    stats.appliedTotal = stats.received
  lifecycle : r.lifecycle = .stopped
  empty : r.buffered = 0
  applied : r.stats.appliedTotal = r.stats.received
  order : r.handedOut <+: r.relayable
  dropped : ∃ rest, r.handedOut.map Value.document =
    r.world.destination.appliedEntries ++ rest ∧ rest.length ≤ 3

theorem closing {rounds : Nat} (h : Reachable r) (hasked : r.isAsked = true)
    (hopen : r.openings ≤ rounds) (hs : Leads r s) : r.Closing rounds s := by
  obtain ⟨hwinds, _, hattached⟩ := winds_of_leads h hasked hs
  obtain ⟨batches, hsent, hleft⟩ := hwinds.sends
  refine ⟨?_, ⟨batches, hsent, by omega, fun hlast => receipts_of_closed (h.leads hs) (by omega)⟩, ?_⟩
  · have hreceived := hwinds.received
    omega
  · rw [commands_eq h, commands_eq (h.leads hs), hattached]
    split
    · rw [List.length_map, List.length_map, hsent, List.length_append]
      omega
    · exact Nat.zero_le _

theorem Standing.moving_of_live (h : r.Standing) (hstarted : r.started = true)
    (hlive : r.isOver = false) : ∃ t, r.stage = .moving t := by
  cases h with
  | fresh _ _ _ hnot => cases hnot.symm.trans hstarted
  | misnamed _ _ _ hover => cases hlive.symm.trans hover
  | barred _ _ _ _ _ hended => cases hlive.symm.trans hended.closed
  | streaming hmoving => exact ⟨_, hmoving⟩
  | untimed hmoving => exact ⟨_, hmoving⟩
  | ended hmoving => exact ⟨_, hmoving⟩

theorem finishes (h : Reachable r) (hasked : r.isAsked = true) (hstarted : r.started = true) :
    r.Finishes ∨ r.Stalls := by
  cases hover : r.isOver with
  | true => exact .inl (finishes_of_over hover)
  | false =>
    obtain ⟨t, hstage⟩ := (reachable_standing h).moving_of_live hstarted hover
    exact finishes_of_asked h hasked hstage

theorem Standing.ended_of_starts (h : r.Standing) (hover : r.isOver = true)
    (hstarts : r.plan.Starts) :
    ∃ t result, r.stage = .moving t ∧ t.phase = .done result ∧ r.Ended .streaming result := by
  cases h with
  | fresh _ _ _ _ hfalse => cases hfalse.symm.trans hover
  | misnamed _ _ _ _ hns =>
    cases (Plan.barrier?_of_misnamed hns).symm.trans hstarts.unbarred
  | barred _ _ _ _ hbars => cases hbars.symm.trans hstarts.unbarred
  | streaming _ _ _ _ _ hfalse => cases hfalse.symm.trans hover
  | untimed _ _ _ _ _ _ _ hwait =>
    obtain ⟨interval, hok⟩ := hstarts.timed
    cases hok.symm.trans hwait
  | ended hstage _ _ _ _ hphase hended => exact ⟨_, _, hstage, hphase, hended⟩

theorem handedOut_prefix (h : Reachable r) : r.handedOut <+: r.relayable := by
  cases hstage : r.stage with
  | before w =>
    rw [handedOut_of_before hstage]
    exact List.nil_prefix
  | moving t =>
    obtain ⟨threshold, hthreshold, hinv⟩ := (reachable_standing h).invariant hstage
    rw [handedOut_of_moving hstage hthreshold, relayable, hthreshold, world_of_moving hstage]
    exact hinv.feed.selected

/-- Beyond what was received there is one entry in the claim, one in the queue and one that the
forwarder holds. -/
theorem dropped_le (h : Reachable r)
    (happlied : r.world.destination.appliedEntries.length = r.stats.received) :
    ∃ rest, r.handedOut.map Value.document = r.world.destination.appliedEntries ++ rest ∧
      rest.length ≤ 3 := by
  obtain ⟨rest, hsplit⟩ := applied_prefix h
  have hlength := congrArg List.length hsplit
  have hread := length_handedOut h
  have hclaimed := r.length_claimed_le
  have hqueued := length_queued_le h
  have hheld := r.length_held_le
  rw [List.length_append, List.length_map] at hlength
  exact ⟨rest, hsplit.symm, by omega⟩

theorem stopped_of_even (h : Reachable r) (hstage : r.stage = .moving t) (heven : t.Even)
    (hb : t.batch.entries = []) (hphase : t.phase = .done (.ok ()))
    (hended : r.Ended .streaming (.ok ())) (hmild : r.plan.Mild) : r.Stopped := by
  obtain ⟨threshold, _, hinv⟩ := (reachable_standing h).invariant hstage
  obtain ⟨horderly, _⟩ := reachable_orderly h hstage
  have hunsent : t.unsent = [] := by simp [Transfer.unsent, hphase, hb]
  have hreceived : t.received = t.sent.length := by
    rw [hinv.received_eq horderly, horderly.receipts, hunsent, List.append_nil]
  have htotal : t.applier.total = t.received := heven.counted.total.trans hreceived.symm
  have hstats : r.stats.appliedTotal = r.stats.received := by
    rw [stats_of_moving hstage]
    exact htotal
  obtain ⟨stats, hok, hlife, hsame, _, hsame', _⟩ := hended.reports hmild
  constructor
  · exact ⟨stats, hok, hlife, by rw [hsame, hsame', hstats]⟩
  · exact hended.lifecycle
  · rw [buffered, transfer?_of_moving hstage]
    exact Transfer.size_eq_zero.mpr hb
  · exact hstats
  · exact handedOut_prefix h
  · apply dropped_le h
    rw [world_of_moving hstage, stats_of_moving hstage, heven.applied_length, hreceived]

theorem stopped_of_over (h : Reachable r) (hover : r.isOver = true) (hstarts : r.plan.Starts)
    (happlied : r.world.destination.batches.length = r.world.journal.flushes.length)
    (hstream : ¬ r.FailsWithStream) (hmild : r.plan.Mild) : r.Stopped := by
  obtain ⟨t, result, hstage, hphase, hended⟩ :=
    (reachable_standing h).ended_of_starts hover hstarts
  obtain ⟨threshold, _, hinv⟩ := (reachable_standing h).invariant hstage
  cases hinv.standing_at hphase with
  | finished heven hb => exact stopped_of_even h hstage heven hb hphase hended hmild
  | @stopped ending e _ _ _ hend hfail =>
    have hfailed : r.streamFailure? = some e := by
      simp [streamFailure?, transfer?_of_moving hstage, hend, hfail]
    exact absurd ⟨t, e, hstage, hfailed, hphase⟩ hstream
  | refused hflushes _ _ hrefused =>
    rw [world_of_moving hstage, hrefused.batches, List.length_map] at happlied
    change _ = t.flushes.length at happlied
    simp [hflushes] at happlied

/-- The law of requests to stop, from any moment on at which the event is set. Two more entries are received
and two more batches sent at most, and one of either once the coordinator has heard of the request, as it has
wherever the run rests. Once started the run gets to its end, unless the clock cannot be set forward any more
by the wait for new entries; and if it streamed, no batch was refused, its stream did not fail and no release
overrules the result, it has stopped, with nothing received that is not applied and at most three entries more
that were read. -/
theorem stops_when_asked (h : Reachable r) (hasked : r.isAsked = true) (hs : Leads r s) :
    r.Closing 2 s ∧ (r.hasHeard = true → r.Closing 1 s) ∧
    (s.isOver = false → s.step? = none → s.hasHeard = true) ∧
    (s.started = true → s.Finishes ∨ s.Stalls) ∧
    (s.isOver = true → s.plan.Starts →
      s.world.destination.batches.length = s.world.journal.flushes.length →
      ¬ s.FailsWithStream → s.plan.Mild → s.Stopped) := by
  have hreach := h.leads hs
  have hasked' := (winds_of_leads h hasked hs).2.1
  refine ⟨closing h hasked r.openings_le hs, ?_, ?_, ?_, ?_⟩
  · intro hheard
    exact closing h hasked (openings_le_of_heard hheard) hs
  · intro hlive hrest
    exact hasHeard_of_rest hreach hasked' hlive hrest
  · intro hstarted
    exact finishes hreach hasked' hstarted
  · intro hover hstarts happlied hstream hmild
    exact stopped_of_over hreach hover hstarts happlied hstream hmild

theorem not_failsWithStream (h : r.streamFailure?.isNone = true) : ¬ r.FailsWithStream := by
  rintro ⟨t, e, _, hfailed, _⟩
  rw [hfailed] at h
  cases h

theorem Plan.small_starts : Plan.small.Starts :=
  ⟨by decide +kernel, Plan.small.interval.span, by decide +kernel⟩

def lingering : Run :=
  paused [.append (lateLog.take 1), .delay (.whole 60)]

/-- Asked while a full batch is under way, a run receives one more entry and sends it; asked while
it waits, it drops three entries that come before the end. -/
theorem stops_when_asked_small :
    (∃ r s, Reachable r ∧ r.isAsked = true ∧ Leads r s ∧ r.hasHeard = true ∧ r.Closing 1 s ∧ s.Stopped ∧
      s.stats.received = r.stats.received + 1 ∧
      s.world.destination.commands.length = r.world.destination.commands.length + 1) ∧
    ∃ r s, Reachable r ∧ r.isAsked = true ∧ Leads r s ∧ r.Closing 2 s ∧ s.Stopped ∧
      s.handedOut.length = s.world.destination.appliedEntries.length + 3 := by
  have hstops {actions : List Action} {r s : Run} (hr : Leads (paused actions) r)
      (hs : Leads r s) (hasked : r.isAsked = true) (hover : s.isOver = true)
      (happlied : s.world.destination.batches.length = s.world.journal.flushes.length)
      (hstream : s.streamFailure?.isNone = true) :
      Reachable r ∧ r.Closing 2 s ∧ (r.hasHeard = true → r.Closing 1 s) ∧ s.Stopped := by
    have hreach := (reachable_paused actions).leads hr
    have hplan : s.plan = Plan.small :=
      plan_of_leads (.made made_small) (((leads_paused actions).trans hr).trans hs)
    obtain ⟨hclosing, hheard, _, _, hstopped⟩ := stops_when_asked hreach hasked hs
    refine ⟨hreach, hclosing, hheard, hstopped hover ?_ happlied (not_failsWithStream hstream) ?_⟩
    · exact hplan ▸ Plan.small_starts
    · exact hplan ▸ Plan.small_mild
  constructor
  · have hmet : Leads laden (laden.act .requestShutdown) := leads_act _ reachable_laden
    have hr := hmet.trans (leads_ticks 1 (reachable_laden.leads hmet))
    have hs := leads_finish (reachable_laden.leads hr)
    have hasked : (Timed.run none 1 (laden.act .requestShutdown)).isAsked = true := by decide +kernel
    have hheard : (Timed.run none 1 (laden.act .requestShutdown)).hasHeard = true := by decide +kernel
    obtain ⟨hreach, _, hclosing, hstopped⟩ := hstops hr hs hasked (by decide +kernel)
      (by decide +kernel) (by decide +kernel)
    exact ⟨_, _, hreach, hasked, hs, hheard, hclosing hheard, hstopped, by decide +kernel,
      by decide +kernel⟩
  · have hlingering : Reachable lingering := reachable_paused _
    have hr : Leads lingering (lingering.act .requestShutdown) := leads_act _ hlingering
    have hreach := hlingering.leads hr
    have hsettled := leads_settle hreach
    have hlate := hsettled.trans (leads_perform (.append lateLog) (hreach.leads hsettled))
    have hs := hlate.trans (leads_finish (hreach.leads hlate))
    have hasked : (lingering.act .requestShutdown).isAsked = true := by decide +kernel
    obtain ⟨hreach, hclosing, _, hstopped⟩ := hstops hr hs hasked (by decide +kernel)
      (by decide +kernel) (by decide +kernel)
    exact ⟨_, _, hreach, hasked, hs, hclosing, hstopped, by decide +kernel⟩

def unreachable : Run :=
  construct { Plan.small with source := { name := "source", refusal := some "down" } } []
    (.whole 0) true false

theorem made_unreachable : Made unreachable := by
  have hplan : Plan.make? { Plan.small with
      source := { name := "source", refusal := some "down" } } 2 (.whole 5) =
      .ok { Plan.small with source := { name := "source", refusal := some "down" } } := rfl
  exact made_construct [] (.whole 0) true false hplan

def turnedAway : Run := (unreachable.act .requestShutdown).begun

def coordinated (r : Run) : Run :=
  match r.transfer?.bind Transfer.coordinate? with
  | some u => { r with stage := .moving u }
  | none => r

theorem leads_coordinated (hlive : r.isOver = false) : Leads r r.coordinated := by
  unfold coordinated
  split
  · next u hu =>
    obtain ⟨t, ht, hcoordinate⟩ := Option.bind_eq_some_iff.mp hu
    have hdone : t.isDone = false := by
      by_contra hdone
      obtain ⟨result, hphase⟩ := Transfer.done_of_isDone (by simpa using hdone)
      simp [Transfer.coordinate?, hphase] at hcoordinate
    exact .single (.move hlive (moving_of_transfer? ht) hdone (.coordinate hcoordinate))
  · exact .refl

/-- A run with two entries on their way to a batch with one, of which the first is there for the
coordinator. -/
def called : Run :=
  Timed.run none 4 ((paused [.append (lateLog.take 1)]).act (.append ((lateLog.drop 1).take 2)))

theorem reachable_called : Reachable called := by
  have hpaused := reachable_paused [.append (lateLog.take 1)]
  have hmet := hpaused.leads (leads_act (.append ((lateLog.drop 1).take 2)) hpaused)
  exact hmet.leads (leads_ticks 4 hmet)

theorem called_leads : ∃ s, Leads (called.act .requestShutdown) s ∧
    s.stats.received = called.stats.received + 2 ∧
    s.world.destination.commands.length = called.world.destination.commands.length + 2 := by
  have hmet := reachable_called.leads (leads_act .requestShutdown reachable_called)
  have hmoved : Leads (called.act .requestShutdown) (called.act .requestShutdown).coordinated :=
    leads_coordinated (by decide +kernel)
  exact ⟨_, hmoved.trans (leads_finish (hmet.leads hmoved)), by decide +kernel, by decide +kernel⟩

/-- A run that was asked to stop before its start does not stop cleanly if it never comes to stream; one that
is asked when an entry wakes its coordinator receives two and sends two batches; and one whose wait for new
entries is too short for the clock need not end. -/
theorem not_stopped_turnedAway : (Reachable (unreachable.act .requestShutdown) ∧
    (unreachable.act .requestShutdown).isAsked = true ∧
    Leads (unreachable.act .requestShutdown) turnedAway ∧ turnedAway.isOver = true ∧
    turnedAway.world.destination.batches.length = turnedAway.world.journal.flushes.length ∧
    ¬ turnedAway.FailsWithStream ∧ turnedAway.plan.Mild ∧ ¬ turnedAway.Stopped ∧
    turnedAway.lifecycle = .fatal) ∧
    (∃ r s, Reachable r ∧ r.isAsked = true ∧ Leads r s ∧ s.stats.received = r.stats.received + 2 ∧
      s.world.destination.commands.length = r.world.destination.commands.length + 2) ∧
    ∃ r, Reachable r ∧ r.isAsked = true ∧ r.started = true ∧ ¬ r.Finishes := by
  refine ⟨?_, ?_, ?_⟩
  · have hmade := Reachable.made made_unreachable
    have hasked := leads_act .requestShutdown hmade
    have hbegun : Leads (unreachable.act .requestShutdown) turnedAway :=
      .single (.start (start?_eq_begun rfl))
    have hfatal : turnedAway.lifecycle = .fatal := by decide +kernel
    refine ⟨hmade.leads hasked, by decide +kernel, hbegun, by decide +kernel, by decide +kernel,
      not_failsWithStream (by decide +kernel), ?_, ?_, hfatal⟩
    · rw [plan_of_leads hmade (hasked.trans hbegun)]
      exact Plan.mild_of_none rfl rfl rfl
    · intro hstopped
      cases hfatal.symm.trans hstopped.lifecycle
  · obtain ⟨s, hs, hreceived, hcommands⟩ := called_leads
    have hmet := reachable_called.leads (leads_act .requestShutdown reachable_called)
    exact ⟨_, s, hmet, by decide +kernel, hs, hreceived.trans (by decide +kernel),
      hcommands.trans (by decide +kernel)⟩
  · have hmet := reachable_stranded.leads (leads_act .requestShutdown reachable_stranded)
    exact ⟨hindered, hmet.leads leads_hindered, by decide +kernel, by decide +kernel,
      hindered_sticks.not_finishes⟩

end Run

end OplogRelay
