import OplogRelay.Proofs.Run.Stopping
import OplogRelay.Proofs.Transfer.Heeding
/-!
Requests to stop are not lost, if they are made to the event that a run waits on. A run ends because of them
and for no other reason, but for a stream whose end it finds when it has an answer to the batch that was under
way.
-/
namespace OplogRelay.Run

variable {r s : Run} {t u : Transfer} {a : Action}

/-- A request to the event that a run waits on, or is going to wait on: its own if its caller gives it none. -/
inductive Requests (r : Run) : Action → Prop where
  | own : r.started = true ∨ r.callerRequest = none → Requests r .requestShutdown
  | caller : r.callerRequest ≠ none → Requests r .signalCaller

/-- The end of the stream comes before a request that is heard now: the coordinator has come to its end, or
goes on without a look at requests after the batch that is under way. -/
def IsDeaf (r : Run) : Prop :=
  ∃ t, r.stage = .moving t ∧ (t.isDone = true ∨ ∃ f, t.phase.flush? = some f ∧ f.isDeaf = true)

/-- The run came to a clean end because of a request. -/
structure Heeded (r : Run) : Prop where
  told : .shutdownSeen ∈ r.world.journal.map Prod.snd
  ended : r.Ended .streaming (.ok ())
  stopped : r.plan.Mild → r.Stopped

/-- The run came to the end that its stream had, with nothing left of it. -/
structure FollowsStream (r : Run) : Prop where
  ended : ∃ t ending, r.stage = .moving t ∧ t.drained = true ∧ t.forwarder.ending = some ending ∧
    r.Ended .streaming ending.result

theorem Requests.instant (ha : r.Requests a) : ∀ span, a ≠ .advance span := by
  intro span
  cases ha with
  | own => simp
  | caller => simp

theorem Requests.meets (ha : r.Requests a) : r.Step (r.act a) := .meet a ha.instant

theorem asked_of_requests (ha : r.Requests a) : (r.act a).isAsked = true := by
  have hset {q : Run} (hq : q.started = true) :
      (q.onWorld fun w => { w with shutdown := true }).isAsked = true := by
    have hstarted : (q.onWorld fun w => { w with shutdown := true }).started = true := hq
    rw [isAsked, if_pos hstarted, world_onWorld]
  cases ha with
  | own hreaches =>
    by_cases hstarted : r.started = true
    · simp only [act, requestShutdown, if_pos hstarted]
      exact hset hstarted
    · simp [act, requestShutdown, isAsked, hstarted, hreaches.resolve_left hstarted]
  | caller hgiven =>
    obtain ⟨request, hrequest⟩ := Option.ne_none_iff_exists'.mp hgiven
    by_cases hstarted : r.started = true
    · simp only [act, signalCaller, hrequest, if_pos hstarted]
      exact hset hstarted
    · simp [act, signalCaller, isAsked, hstarted, hrequest]

/-- The transfer of a run that was asked to stop has heard of that and heeds it. -/
structure Heeds (r : Run) : Prop where
  asked : r.isAsked = true
  moving : ∀ t, r.stage = .moving t → t.Heeds

theorem reachable_accounts (h : Reachable r) (hstage : r.stage = .moving t) : t.Accounts := by
  refine h.transfer (P := Transfer.Accounts) hstage ?_ ?_
  · intro w ns threshold interval _ _
    exact Transfer.accounts_start
  · intro q t u hq hstage haccounts hgoes
    obtain ⟨threshold, _, hinv⟩ := (reachable_standing hq).invariant hstage
    exact haccounts.goes hinv hgoes

theorem Heeds.step (hheeds : r.Heeds) (h : Reachable r) (hs : r.Step s) : s.Heeds := by
  have hstanding := reachable_standing h
  have hasked := asked_of_step h hs hheeds.asked
  refine ⟨hasked, fun u hu => ?_⟩
  cases hstage : r.stage with
  | before w =>
    obtain ⟨v, ns, threshold, interval, _, _, rfl⟩ := start_of_step hstanding hs hstage hu
    exact Transfer.heeds_of_waiting (shutdown_of_asked (h.step hs) hu hasked) rfl
  | moving t =>
    obtain ⟨v, hv, hgoes⟩ := goes_of_step hstanding hs hstage
    cases hv.symm.trans hu
    obtain ⟨threshold, _, hinv⟩ := hstanding.invariant hstage
    exact (hheeds.moving t hstage).goes (reachable_accounts h hstage) hinv hgoes

theorem Heeds.leads (hheeds : r.Heeds) (h : Reachable r) (hs : Leads r s) : s.Heeds := by
  induction hs with
  | refl => exact hheeds
  | tail hleads hstep ih => exact ih.step (h.leads hleads) hstep

/-- What is under way when a request is heard tells whether the request is heeded. -/
theorem heeds_of_hasHeard (hheard : r.hasHeard = true) (hhears : ¬ r.IsDeaf) : r.Heeds := by
  refine ⟨(Bool.and_eq_true_iff.mp hheard).1, fun t hstage => ?_⟩
  refine ⟨heard_of_hasHeard hheard hstage, fun f hf => ?_, fun hdone => ?_⟩
  · by_contra hdeaf
    exact hhears ⟨t, hstage, .inr ⟨f, hf, by simpa using hdeaf⟩⟩
  · exact absurd ⟨t, hstage, .inl hdone⟩ hhears

theorem heeded_of_told (h : Reachable r) (hstage : r.stage = .moving t) (htold : t.Told)
    (hphase : t.phase = .done (.ok ())) (hended : r.Ended .streaming (.ok ())) (hstarts : r.plan.Starts)
    (happlied : r.world.destination.batches.length = r.world.journal.flushes.length) : r.Heeded := by
  refine ⟨?_, hended, fun hmild => ?_⟩
  · rw [world_of_moving hstage]
    exact htold
  · refine stopped_of_over h hended.closed hstarts happlied ?_ hmild
    rintro ⟨u, e, hu, _, hfailed⟩
    cases hstage.symm.trans hu
    cases hphase.symm.trans hfailed

theorem Heeds.heeded (hheeds : r.Heeds) (h : Reachable r) (hover : r.isOver = true)
    (hstarts : r.plan.Starts)
    (happlied : r.world.destination.batches.length = r.world.journal.flushes.length) : r.Heeded := by
  obtain ⟨t, result, hstage, hphase, hended⟩ := (reachable_standing h).ended_of_starts hover hstarts
  have hall : t.destination.batches.length = t.flushes.length := by
    rw [world_of_moving hstage] at happlied
    exact happlied
  obtain ⟨htold, hok⟩ := (hheeds.moving t hstage).ends (Transfer.isDone_of_phase hphase) hall
  cases hphase.symm.trans hok
  exact heeded_of_told h hstage htold hphase hended hstarts happlied

theorem heeded_or_follows (h : Reachable r) (hover : r.isOver = true) (hstarts : r.plan.Starts)
    (happlied : r.world.destination.batches.length = r.world.journal.flushes.length) :
    r.Heeded ∨ r.FollowsStream := by
  obtain ⟨t, result, hstage, hphase, hended⟩ := (reachable_standing h).ended_of_starts hover hstarts
  obtain ⟨threshold, _, hinv⟩ := (reachable_standing h).invariant hstage
  cases hinv.standing_at hphase with
  | finished =>
    rcases (reachable_accounts h hstage).ended hphase with htold | ⟨hdrained, hexhausted⟩
    · exact .inl (heeded_of_told h hstage htold hphase hended hstarts happlied)
    · exact .inr ⟨t, .exhausted, hstage, hdrained, hexhausted, hended⟩
  | @stopped ending e _ _ hdrained hending hfail =>
    have hresult : ending.result = .error e := by simp [Forwarder.Ending.result, hfail]
    exact .inr ⟨t, ending, hstage, hdrained, hending, hresult ▸ hended⟩
  | refused hflushes _ _ hrefused =>
    rw [world_of_moving hstage, hrefused.batches, List.length_map] at happlied
    change _ = t.flushes.length at happlied
    simp [hflushes] at happlied

theorem applying_of_asked (h : Reachable r) (hasked : r.isAsked = true) (hstage : r.stage = .moving t)
    (hlive : r.isOver = false) (hrest : r.step? = none) :
    ∃ f ops due, t.phase = .applying f ops due := by
  have hdone : t.isDone = false := by
    by_contra hdone
    obtain ⟨result, hphase⟩ := Transfer.done_of_isDone (by simpa using hdone)
    cases (step?_of_done hlive hstage hphase).symm.trans hrest
  have hstill := (step?_eq_none_iff hlive hstage hdone).mp hrest
  exact Transfer.applying_of_rest (shutdown_of_asked h hstage hasked) hdone hstill

/-- No request is lost that is made to the event that the run waits on, at any moment before its end. From
then on the run waits for the destination alone, and rests only once it has heard of the request. Until it has
it may receive one entry and send one batch more than the one of either that it receives and sends at most from
there on; and it gets to its end, unless the clock cannot be set forward any more by the wait for new entries.
If it streamed and no batch was refused, it has stopped because it was asked to, or it was deaf when it heard of
the request, and has ended with its stream. -/
theorem request_heeded (h : Reachable r) (ha : r.Requests a) (hs : Leads (r.act a) s) :
    s.isAsked = true ∧ (r.act a).Closing 2 s ∧ (s.started = true → s.Finishes ∨ s.Stalls) ∧
    (s.isOver = false → s.step? = none → s.hasHeard = true) ∧
    (∀ t, s.stage = .moving t → s.isOver = false → s.step? = none →
      ∃ f ops due, t.phase = .applying f ops due) ∧
    (∀ q, Leads (r.act a) q → Leads q s → q.hasHeard = true → q.Closing 1 s) ∧
    (s.isOver = true → s.plan.Starts →
      s.world.destination.batches.length = s.world.journal.flushes.length →
      s.Heeded ∨ s.FollowsStream ∧
        ∀ q, Leads (r.act a) q → Leads q s → q.hasHeard = true → q.IsDeaf) := by
  have hmet := h.step ha.meets
  have hreach := hmet.leads hs
  have hbefore := asked_of_requests ha
  have hasked := (winds_of_leads hmet hbefore hs).2.1
  refine ⟨hasked, closing hmet hbefore (openings_le _) hs, finishes hreach hasked,
    hasHeard_of_rest hreach hasked, ?_, ?_, ?_⟩
  · intro t hstage hlive hrest
    exact applying_of_asked hreach hasked hstage hlive hrest
  · intro q hq hqs hheard
    exact closing (hmet.leads hq) (winds_of_leads hmet hbefore hq).2.1 (openings_le_of_heard hheard) hqs
  · intro hover hstarts happlied
    by_cases hhears : ∃ q, Leads (r.act a) q ∧ Leads q s ∧ q.hasHeard = true ∧ ¬ q.IsDeaf
    · obtain ⟨q, hq, hqs, hheard, hhears⟩ := hhears
      have hheeds := (heeds_of_hasHeard hheard hhears).leads (hmet.leads hq) hqs
      exact .inl (hheeds.heeded hreach hover hstarts happlied)
    · refine (heeded_or_follows hreach hover hstarts happlied).imp_right fun hfollows => ⟨hfollows, ?_⟩
      intro q hq hqs hheard
      by_contra hnot
      exact hhears ⟨q, hq, hqs, hheard, hnot⟩

def escorted : Run := construct Plan.small smallLog (.whole 0) true true

theorem made_escorted : Made escorted := by
  have hplan : Plan.small.make? 2 (.whole 5) = .ok Plan.small := rfl
  exact made_construct smallLog (.whole 0) true true hplan

theorem starts_of_small (h : Reachable r) (hs : Leads r s) (hplan : r.plan = Plan.small) :
    s.plan.Starts := by
  rw [plan_of_leads h hs, hplan]
  exact Plan.small_starts

/-- Asked while it waits, or through its caller's event before it starts, a run stops because of that. -/
theorem request_heeded_small :
    (∃ q s, Reachable lingering ∧ lingering.Requests .requestShutdown ∧
      Leads (lingering.act .requestShutdown) q ∧ Leads q s ∧ q.hasHeard = true ∧ ¬ q.IsDeaf ∧
      q.Closing 1 s ∧ s.isOver = true ∧ s.Heeded) ∧
    ∃ s, Reachable escorted ∧ escorted.Requests .signalCaller ∧ Leads (escorted.act .signalCaller) s ∧
      (escorted.act .signalCaller).hasHeard = true ∧ ¬ (escorted.act .signalCaller).IsDeaf ∧
      (escorted.act .signalCaller).Closing 1 s ∧ s.isOver = true ∧ s.Heeded := by
  have hheeded {r q s : Run} {a : Action} (h : Reachable r) (ha : r.Requests a)
      (hq : Leads (r.act a) q) (hs : Leads q s) (hheard : q.hasHeard = true) (hhears : ¬ q.IsDeaf)
      (hplan : r.plan = Plan.small) (hover : s.isOver = true)
      (happlied : s.world.destination.batches.length = s.world.journal.flushes.length) :
      q.Closing 1 s ∧ s.isOver = true ∧ s.Heeded := by
    have hstarts := starts_of_small h (Relation.ReflTransGen.head ha.meets (hq.trans hs)) hplan
    obtain ⟨_, _, _, _, _, hcloses, hends⟩ := request_heeded h ha (hq.trans hs)
    refine ⟨hcloses q hq hs hheard, hover, (hends hover hstarts happlied).resolve_right fun hdeaf => ?_⟩
    exact hhears (hdeaf.2 q hq hs hheard)
  constructor
  · have hlingering : Reachable lingering := reachable_paused _
    have ha : lingering.Requests .requestShutdown := .own (.inl (by decide +kernel))
    have hmet := hlingering.step ha.meets
    have hq := leads_ticks 1 hmet
    have hs := leads_finish (hmet.leads hq)
    have hwaits : ((Timed.run none 1 (lingering.act .requestShutdown)).transfer?.all fun t =>
        !t.isDone && t.phase.flush?.isNone) = true := by decide +kernel
    have hhears : ¬ (Timed.run none 1 (lingering.act .requestShutdown)).IsDeaf := by
      rintro ⟨t, hstage, hdeaf⟩
      rw [transfer?_of_moving hstage] at hwaits
      simp only [Option.all_some, Bool.and_eq_true, Bool.not_eq_true', Option.isNone_iff_eq_none] at hwaits
      rcases hdeaf with hdone | ⟨f, hf, _⟩
      · cases hwaits.1.symm.trans hdone
      · cases hwaits.2.symm.trans hf
    have hheard : (Timed.run none 1 (lingering.act .requestShutdown)).hasHeard = true := by decide +kernel
    exact ⟨_, _, hlingering, ha, hq, hs, hheard, hhears, hheeded hlingering ha hq hs hheard hhears
      (plan_of_leads (.made made_small) (leads_paused _)) (by decide +kernel) (by decide +kernel)⟩
  · have hescorted := Reachable.made made_escorted
    have ha : escorted.Requests .signalCaller := .caller (by decide)
    have hmet := hescorted.step ha.meets
    have hbegun : Leads (escorted.act .signalCaller) (escorted.act .signalCaller).begun :=
      .single (.start (start?_eq_begun rfl))
    have hs := hbegun.trans (leads_finish (hmet.leads hbegun))
    have hhears : ¬ (escorted.act .signalCaller).IsDeaf := by
      rintro ⟨t, hstage, _⟩
      cases hstage
    exact ⟨_, hescorted, ha, hs, rfl, hhears, hheeded hescorted ha .refl hs rfl hhears rfl
      (by decide +kernel) (by decide +kernel)⟩

def breaking : Run :=
  paused [.append (lateLog.take 1), .delay (.whole 2), .inject ⟨.driver .general, "gone"⟩]

theorem not_heeded_of_fatal (h : r.lifecycle = .fatal) : ¬ r.Heeded := by
  intro hheeded
  cases h.symm.trans hheeded.ended.lifecycle

theorem not_heeded_of_silent (h : (r.world.journal.any fun e =>
    match e.2 with
    | .shutdownSeen => true
    | _ => false) = false) : ¬ r.Heeded := by
  intro hheeded
  obtain ⟨e, he, hseen⟩ := List.mem_map.mp hheeded.told
  have hnot := List.any_eq_false.mp h e he
  rw [hseen] at hnot
  exact hnot rfl

/-- A run whose stream has broken reports that, though it is asked to stop while it sends the last batch; a
run that is asked to stop before it starts, and waits on its caller's event then, does not hear of it; one that
is asked when an entry wakes its coordinator sends two batches; and one whose wait for new entries is too short
for the clock need not end. -/
theorem not_heeded_small :
    (¬ ∀ (r s : Run) (a : Action), Reachable r → r.isOver = false → r.Requests a → Leads (r.act a) s →
      s.isOver = true → s.plan.Starts →
      s.world.destination.batches.length = s.world.journal.flushes.length → s.Heeded) ∧
    (¬ ∀ r s : Run, Made r → Leads (r.act .requestShutdown) s → s.isOver = true → s.plan.Starts →
      s.world.destination.batches.length = s.world.journal.flushes.length → s.Heeded) ∧
    (¬ ∀ (r s : Run) (a : Action), Reachable r → r.Requests a → Leads (r.act a) s →
      s.world.destination.commands.length ≤ r.world.destination.commands.length + 1) ∧
    ¬ ∀ (r s : Run) (a : Action), Reachable r → r.Requests a → Leads (r.act a) s → s.started = true →
      s.Finishes := by
  refine ⟨?_, ?_, ?_, ?_⟩
  · intro hheeded
    have hbreaking : Reachable breaking := reachable_paused _
    have ha : breaking.Requests .requestShutdown := .own (.inl (by decide +kernel))
    have hs := leads_finish (hbreaking.step ha.meets)
    have hstarts := starts_of_small hbreaking (Relation.ReflTransGen.head ha.meets hs)
      (plan_of_leads (.made made_small) (leads_paused _))
    refine not_heeded_of_fatal (by decide +kernel)
      (hheeded _ _ _ hbreaking ?_ ha hs ?_ hstarts ?_)
    all_goals decide +kernel
  · intro hheeded
    have hescorted := Reachable.made made_escorted
    have hmet := leads_act .requestShutdown hescorted
    have hbegun : Leads (escorted.act .requestShutdown) (escorted.act .requestShutdown).begun :=
      .single (.start (start?_eq_begun rfl))
    have hs := hbegun.trans (leads_finish ((hescorted.leads hmet).leads hbegun))
    have hstarts := starts_of_small hescorted (hmet.trans hs) rfl
    refine not_heeded_of_silent (by decide +kernel) (hheeded _ _ made_escorted hs ?_ hstarts ?_)
    all_goals decide +kernel
  · intro hfew
    obtain ⟨s, hs, _, hcommands⟩ := called_leads
    have hone := hfew called s _ reachable_called (.own (.inl (by decide +kernel))) hs
    omega
  · intro hends
    refine hindered_sticks.not_finishes (hends stranded _ .requestShutdown reachable_stranded
      (.own (.inl ?_)) leads_hindered ?_)
    all_goals decide +kernel

end OplogRelay.Run
