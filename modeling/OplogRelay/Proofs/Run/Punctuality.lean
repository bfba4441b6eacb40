import OplogRelay.Proofs.Run.Spinning
import OplogRelay.Proofs.Run.Timely
import OplogRelay.Proofs.Transfer.Punctuality
/-!
The law of the timer. On the clock every entry is sent within one flush interval of its reception, or one place
later, and while a batch waits to be sent the timer is set for it; but the timer has no batch sent before one
interval of streaming has passed, and no two batches within one interval. An interval is here what the clock
makes of it: one that is too short to move the clock has passed at once.
-/
namespace OplogRelay.Run

variable {r s : Run} {t : Transfer} {interval : Span} {steps : Int}

theorem parting_untimed (r : Run) (result : Except Failure Unit) :
    ∀ ev ∈ r.parting result, ev.isTimed = false := by
  cases result with
  | ok => exact List.forall_mem_singleton.mpr rfl
  | error e =>
    unfold parting
    dsimp only
    split
    · exact List.forall_mem_singleton.mpr rfl
    · simp

theorem Plan.Returns.untimed {plan : Plan} {held : List Resource} {given : List Event}
    (h : plan.Returns held given) : ∀ ev ∈ given, ev.isTimed = false := by
  intro ev hev
  obtain ⟨resource, _, hev⟩ := List.mem_flatMap.mp (h.first.subset hev)
  rcases List.mem_cons.mp hev with rfl | hev
  · rfl
  · obtain ⟨f, _, rfl⟩ := List.mem_map.mp hev
    rfl

theorem punctual_start {w : World} {tail : Tail} {capacity : Nat} {events : List Event}
    (hquiet : w.Quiet) (hnone : ∀ m, (m, Event.streaming) ∉ w.journal)
    (hevents : Event.TellNoBatch events) (hfinite : interval = .finite steps) :
    (Transfer.start (w.note events) tail capacity interval).Punctual interval := by
  obtain ⟨hreceptions, hsendings⟩ := (hquiet.similar (World.similar_note hevents)).idle
  have htimer := Journal.timerFlushes_of_none hsendings
  refine ⟨⟨steps, hfinite⟩, interval.arrival w.now, rfl, Transfer.after_of_finite hfinite _,
    Nat.le_refl _, ?_, ?_, ?_, ?_⟩
  · refine ⟨[], [], hreceptions, ?_, rfl, by simp⟩
    show List.Forall₂ (InTime interval) [] (w.note events).journal.dispatches
    rw [Journal.dispatches_of_none hsendings]
    exact .nil
  · intro m hm
    obtain ⟨rfl, _⟩ := (Journal.mem_note.mp hm).resolve_left (hnone m)
    refine ⟨Nat.le_refl _, ?_⟩
    show ∀ s ∈ (w.note events).journal.timerFlushes, _
    rw [htimer]
    exact fun _ hs => absurd hs List.not_mem_nil
  · show ∀ s ∈ (w.note events).journal.timerFlushes, _
    rw [htimer]
    exact fun _ hs => absurd hs List.not_mem_nil
  · show (w.note events).journal.timerFlushes.Pairwise _
    rw [htimer]
    exact .nil

theorem unsent_of_over (h : Reachable r) (hstarts : r.plan.Starts) (hstage : r.stage = .moving t)
    (hover : r.isOver = true) : t.unsent = [] ∧ t.batch.entries = [] := by
  obtain ⟨u, result, hstage', hphase, _⟩ := (reachable_standing h).ended_of_starts hover hstarts
  cases hstage'.symm.trans hstage
  obtain ⟨threshold, _, hinv⟩ := (reachable_standing h).invariant hstage
  exact hinv.unsent_of_done (by simp [Transfer.isDone, hphase])

theorem alarm_of_rest {tick : Nat} (h : Reachable r) (hstarts : r.plan.Starts)
    (hstage : r.stage = .moving t) (hleft : t.unsent ≠ []) (hnext : t.nextTick = some tick)
    (hrest : r.step? = none) : ∃ alarm moment, t.now < alarm ∧ alarm ≤ tick + 1 ∧
      r.due? = some moment ∧ t.due? = some moment ∧ moment ≤ alarm := by
  obtain ⟨threshold, _, hinv⟩ := (reachable_standing h).invariant hstage
  obtain ⟨⟨watching, hphase⟩, _⟩ := hinv.collects hleft
  have hlive : r.isOver = false := by
    by_contra hover
    exact hleft (unsent_of_over h hstarts hstage (by simpa using hover)).1
  have hdone : t.isDone = false := by simp [Transfer.isDone, hphase]
  have hstep := (step?_eq_none_iff hlive hstage hdone).mp hrest
  obtain ⟨_, _, _, hcoordinate, _⟩ := Transfer.steps_none hstep hdone
  obtain ⟨alarm, halarm, hnear⟩ := (reachable_wakeful h hstage).alarm_near hphase hnext
  have hahead : t.now < alarm := by
    by_contra hpast
    have hdue : t.alarmDue = true := by
      rw [Transfer.alarmDue, halarm]
      exact Transfer.isDue_some.mpr (Nat.le_of_not_lt hpast)
    simp [Transfer.coordinate?, hphase, Transfer.roused, hdue] at hcoordinate
  obtain ⟨moment, hmoment, hwithin⟩ := Transfer.sooner_le_right (a := t.forwarder.due?) halarm
  have hdue : t.due? = some moment := by simp [Transfer.due?, hphase, hmoment]
  exact ⟨alarm, moment, hahead, (hnear.resolve_left (Nat.not_le.mpr hahead)).1,
    (due?_of_moving hlive hstage).trans hdue, hdue, hwithin⟩

theorem punctual_pass {moment : Nat} (h : Reachable r) (hstarts : r.plan.Starts)
    (hstage : r.stage = .moving t) (hpunctual : t.Punctual interval) (hlater : r.world.now ≤ moment)
    (hpatient : r.world.now < moment → r.step? = none ∧ ∀ due, r.due? = some due → moment ≤ due) :
    Transfer.Punctual interval { t with now := moment } := by
  obtain ⟨hfinite, tick, hpoised⟩ := hpunctual
  rw [world_of_moving hstage] at hlater hpatient
  rcases Nat.lt_or_eq_of_le hlater with hless | rfl
  · obtain ⟨hrest, hdue⟩ := hpatient hless
    refine ⟨hfinite, tick, hpoised.pass hlater fun hleft => ?_⟩
    obtain ⟨alarm, due, _, hnear, hnext, _, hwithin⟩ :=
      alarm_of_rest h hstarts hstage hleft hpoised.next hrest
    exact (hdue due hnext).trans (hwithin.trans hnear)
  · exact ⟨hfinite, tick, hpoised⟩

theorem punctual_of_still {u : Transfer} {events : List Event} (h : t.Punctual interval)
    (hjournal : u.journal = t.journal.note t.now events) (hnow : u.now = t.now)
    (hinterval : u.interval = t.interval) (hnext : u.nextTick = t.nextTick)
    (hunsent : u.unsent = t.unsent) (hevents : ∀ ev ∈ events, ev.isTimed = false) :
    u.Punctual interval := by
  obtain ⟨hfinite, tick, hpoised⟩ := h
  refine ⟨hfinite, tick, ?_⟩
  rw [hunsent]
  exact hpoised.untimed ⟨hjournal, hnow, hinterval⟩ hevents hnext

theorem punctual_finish (result : Except Failure Unit) (hstage : r.stage = .moving t)
    (h : t.Punctual interval) (hafter : (r.finish result allResources).stage = .moving u) :
    u.Punctual interval := by
  obtain ⟨events, outcome, _, _, heq⟩ := r.finish_of_moving result allResources hstage
  obtain ⟨given, hgiven, hjournal⟩ := finish_moving_tells result allResources hstage
  rw [world_of_moving hafter, world_of_moving hstage] at hjournal
  rw [heq] at hafter
  cases hafter
  refine punctual_of_still h hjournal rfl rfl rfl rfl ?_
  intro ev hev
  rcases List.mem_append.mp hev with hev | hev
  · rcases List.mem_append.mp hev with hev | hev
    · exact r.parting_untimed result ev hev
    · rw [List.mem_singleton.mp hev]
      rfl
  · exact hgiven.untimed ev hev

theorem punctual_act {a : Action} (ha : ∀ span, a ≠ .advance span) (hstage : r.stage = .moving t)
    (h : t.Punctual interval) (hafter : (r.act a).stage = .moving u) : u.Punctual interval := by
  obtain ⟨w, f, hmoved, hnow, _⟩ := act_moving ha hstage
  obtain ⟨counts, hjournal⟩ := journal_act (r := r) ha
  rw [world_of_moving hafter, world_of_moving hstage] at hjournal
  cases hmoved.symm.trans hafter
  refine punctual_of_still h hjournal hnow rfl rfl rfl ?_
  intro ev hev
  obtain ⟨count, _, rfl⟩ := List.mem_map.mp hev
  rfl

theorem not_streaming_of_before (h : Reachable r) (hstage : r.stage = .before w)
    (hstarted : r.started = false) (m : Nat) : (m, Event.streaming) ∉ w.journal := by
  intro hm
  cases reachable_marks h with
  | fresh _ _ _ hmarks =>
    have hmem : Event.streaming ∈ r.landmarks := by
      rw [landmarks, world_of_before hstage]
      exact List.mem_filter.mpr ⟨List.mem_map.mpr ⟨_, hm, rfl⟩, rfl⟩
    rw [hmarks] at hmem
    cases hmem
  | barred _ _ _ _ hyes => cases hstarted.symm.trans hyes
  | streaming hmoving => cases hmoving.symm.trans hstage
  | ended _ _ _ _ hmoving => cases hmoving.symm.trans hstage

theorem punctual_begun (h : Reachable r) (hs : r.Step s) (hbefore : r.stage = .before w)
    (hspan : r.plan.interval.span = .finite steps) (hstarts : r.plan.Starts)
    (hstage : s.stage = .moving t) : t.Punctual r.plan.interval.span := by
  obtain ⟨hstarted, hopens⟩ := begun_of_step hs hbefore hstage
  have hquiet := (reachable_standing h).quiet hbefore
  have hnone := not_streaming_of_before h hbefore hstarted
  cases hopens with
  | barred _ _ _ _ _ hbarred => cases hbarred.symm.trans hstage
  | untimed _ _ _ hwait =>
    obtain ⟨interval, hok⟩ := hstarts.timed
    cases hok.symm.trans hwait
  | streams events _ _ hwait hevents =>
    cases hstage
    cases Quantity.span_of_wait? hwait
    exact punctual_start ⟨hquiet.commands, hquiet.batches, hquiet.account⟩ hnone hevents hspan

theorem Timely.punctual (h : Timely r) (hspan : r.plan.interval.span = .finite steps)
    (hstarts : r.plan.Starts) (hstage : r.stage = .moving t) :
    t.Punctual r.plan.interval.span := by
  induction h generalizing t with
  | made hmade =>
    cases hmade
    cases hstage
  | @beat q r hq hbeat ih =>
    have hreach := hq.reachable
    have hstanding := reachable_standing hreach
    have hplan := plan_of_step hstanding hbeat.step
    rw [hplan] at hspan hstarts ⊢
    obtain ⟨hstep, hpatient⟩ := hbeat
    cases hbefore : q.stage with
    | before w => exact punctual_begun hreach hstep hbefore hspan hstarts hstage
    | moving v =>
      have hpunctual := ih hspan hstarts hbefore
      cases hstep with
      | start hstart =>
        obtain ⟨w, hw, _⟩ := hstanding.before_of_start? hstart
        cases hw.symm.trans hbefore
      | move _ hmoving _ hmoves =>
        cases hmoving.symm.trans hbefore
        cases hstage
        obtain ⟨threshold, _, hinv⟩ := hstanding.invariant hbefore
        exact hpunctual.moves hinv hmoves
      | finish _ hmoving => exact punctual_finish _ hbefore hpunctual hstage
      | pass moment hlater =>
        cases (stage_moveTo moment hbefore).symm.trans hstage
        rw [now_moveTo] at hpatient
        exact punctual_pass hreach hstarts hbefore hpunctual hlater hpatient
      | meet a ha => exact punctual_act ha hbefore hpunctual hstage

theorem receptions_of_step (h : Reachable r) (hs : r.Step s) :
    r.world.journal.receptions <+: s.world.journal.receptions := by
  have hr := reachable_standing h
  cases hstage : r.stage with
  | before w =>
    rw [world_of_before hstage, (hr.quiet hstage).idle.1]
    exact List.nil_prefix
  | moving t =>
    obtain ⟨events, hjournal⟩ := journal_of_step hr hs hstage
    rw [hjournal, Journal.receptions_note]
    exact List.prefix_append _ _

theorem receptions_of_leads (h : Reachable r) (hs : Leads r s) :
    r.world.journal.receptions <+: s.world.journal.receptions := by
  induction hs with
  | refl => exact List.prefix_refl _
  | tail hleads hstep ih => exact ih.trans (receptions_of_step (h.leads hleads) hstep)

def lull (r : Run) : Nat × Nat × Nat :=
  match r.transfer? with
  | some t => t.lull
  | none => (0, 0, 0)

theorem lull_of_moving (hstage : r.stage = .moving t) : r.lull = t.lull := by
  rw [lull, transfer?_of_moving hstage]

/-- A run with something to send goes on by itself, and comes nearer to sending it. -/
theorem tick_of_unsent (h : Timely r) (hspan : r.plan.interval.span = .finite steps)
    (hstarts : r.plan.Starts) (hcounts : r.CountsOn) (hstage : r.stage = .moving t)
    (hleft : t.unsent ≠ []) : ∃ s u, Timed.tick? none r = some s ∧ s.stage = .moving u ∧
      (u.unsent = [] ∨ Transfer.Briefer s.lull r.lull) := by
  have hreach := h.reachable
  obtain ⟨threshold, _, hinv⟩ := (reachable_standing hreach).invariant hstage
  have hcollects := hinv.collects hleft
  obtain ⟨watching, hphase⟩ := hcollects.waits
  have hlive : r.isOver = false := by
    by_contra hover
    exact hleft (unsent_of_over hreach hstarts hstage (by simpa using hover)).1
  cases hstep : t.step? with
  | some u =>
    have hnext := tick?_of_step? (step?_of_not_done hlive hstage hstep)
    refine ⟨{ r with stage := .moving u }, u, hnext, rfl, ?_⟩
    rw [lull_of_moving (r := { r with stage := .moving u }) rfl, lull_of_moving hstage]
    have hclaim := reachable_claims hreach hstage hphase
    have hmoves := hinv.collects_of_step? hcollects hclaim (reachable_timed hreach hstage)
      (hcounts.moving hreach hstage) hstep
    exact hmoves.imp_right And.right
  | none =>
    obtain ⟨_, tick, hpoised⟩ := h.punctual hspan hstarts hstage
    have hrest := (step?_eq_none_iff hlive hstage (by simp [Transfer.isDone, hphase])).mpr hstep
    obtain ⟨alarm, moment, _, hnear, hdue, hmoment, hwithin⟩ :=
      alarm_of_rest hreach hstarts hstage hleft hpoised.next hrest
    have hmoved := stage_moveTo moment hstage
    refine ⟨Timed.moveTo moment r, _, tick?_of_due? hrest hdue, hmoved, .inr ?_⟩
    rw [lull_of_moving hmoved, lull_of_moving hstage]
    exact Transfer.briefer_of_pass hpoised.next (Transfer.lt_due hstep hmoment) (hwithin.trans hnear)

theorem exists_all_sent (h : Timely r) (hspan : r.plan.interval.span = .finite steps)
    (hstarts : r.plan.Starts) (hstage : r.stage = .moving t) : r.Stalls ∨
    ∃ n u, Leads r (Timed.run none n r) ∧ (Timed.run none n r).stage = .moving u ∧ u.unsent = [] := by
  have htick (s : Run) (hs : Leads r s ∧ Timely s ∧ ∃ u, s.stage = .moving u) :
      (¬ s.CountsOn ∨ ∃ u, s.stage = .moving u ∧ u.unsent = []) ∨ ∃ s', Timed.tick? none s = some s' ∧
        (Leads r s' ∧ Timely s' ∧ ∃ u, s'.stage = .moving u) ∧
        ((¬ s'.CountsOn ∨ ∃ u, s'.stage = .moving u ∧ u.unsent = []) ∨
          Transfer.Briefer s'.lull s.lull) := by
    obtain ⟨hleads, htimely, u, hu⟩ := hs
    by_cases hleft : u.unsent = []
    · exact .inl (.inr ⟨u, hu, hleft⟩)
    · by_cases hcounts : s.CountsOn
      · have hplan := plan_of_leads h.reachable hleads
        rw [← hplan] at hspan hstarts
        obtain ⟨s', u', hnext, hu', hbriefer⟩ := tick_of_unsent htimely hspan hstarts hcounts hu hleft
        refine .inr ⟨s', hnext, ⟨.tail hleads (step_of_tick? hnext), htimely.tick hnext, u', hu'⟩, ?_⟩
        exact hbriefer.imp_left fun hsent => .inr ⟨u', hu', hsent⟩
      · exact .inl (.inl hcounts)
  obtain ⟨n, ⟨hleads, _⟩, hstalled | ⟨u, hu, hsent⟩⟩ :=
    Timed.exists_run Transfer.briefer_wellFounded lull htick ⟨.refl, h, t, hstage⟩
  · exact .inl ⟨n, hstalled⟩
  · exact .inr ⟨n, u, hleads, hu, hsent⟩

/-- The law of the timer. Each moment is followed by the one at which the interval from it ends, as the clock
adds the two. -/
structure KeepsTime (r : Run) (interval : Span) : Prop where
  /-- What was received first was sent first, and in time; for all else there is time left. -/
  inTime : ∃ earlier pending, r.world.journal.receptions = earlier ++ pending ∧
    List.Forall₂ (InTime interval) earlier r.world.journal.dispatches ∧
    ∀ p ∈ pending, r.world.now ≤ interval.arrival p.1 + 1
  /-- In the end all that was received was sent. -/
  closed : r.isOver = true →
    List.Forall₂ (InTime interval) r.world.journal.receptions r.world.journal.dispatches
  /-- Where the run rests with a batch that is not under way, the timer is set for it. -/
  armed : r.step? = none → ∀ t, r.transfer? = some t → t.batch.entries ≠ [] →
    t.phase.flush? = none → ∃ tick, t.nextTick = some tick ∧ r.world.now ≤ tick ∧
      ∃ earlier pending, r.world.journal.receptions = earlier ++ pending ∧
        pending.map Prod.snd = t.batch.entries ∧ ∀ p ∈ pending, tick ≤ interval.arrival p.1
  opened : ∀ m, (m, Event.streaming) ∈ r.world.journal →
    ∀ s ∈ r.world.journal.timerFlushes, interval.arrival m ≤ s
  apart : r.world.journal.timerFlushes.Pairwise fun a b => interval.arrival a ≤ b

theorem unsent_of_waiting (hflush : t.phase.flush? = none) : t.unsent = t.batch.entries := by
  unfold Transfer.unsent
  cases hphase : t.phase with
  | waiting => rfl
  | done => rfl
  | applying => simp [hphase, Transfer.Phase.flush?] at hflush
  | answered => simp [hphase, Transfer.Phase.flush?] at hflush

theorem keepsTime_of_idle (hreceptions : r.world.journal.receptions = [])
    (hsendings : r.world.journal.sendings = [])
    (hempty : ∀ t, r.transfer? = some t → t.unsent = []) : r.KeepsTime interval := by
  have hdispatches := Journal.dispatches_of_none hsendings
  have htimer := Journal.timerFlushes_of_none hsendings
  constructor
  · refine ⟨[], [], hreceptions, ?_, by simp⟩
    rw [hdispatches]
    exact .nil
  · intro _
    rw [hreceptions, hdispatches]
    exact .nil
  · intro _ t ht hbatch hflush
    exact absurd ((unsent_of_waiting hflush).symm.trans (hempty t ht)) hbatch
  · simp [htimer]
  · rw [htimer]
    exact .nil

theorem keepsTime_of_punctual (h : Timely r) (hstarts : r.plan.Starts)
    (hstage : r.stage = .moving t) (hpunctual : t.Punctual interval) : r.KeepsTime interval := by
  have hreach := h.reachable
  obtain ⟨_, tick, hpoised⟩ := hpunctual
  obtain ⟨earlier, pending, hsplit, hsent, hleft, htimes⟩ := hpoised.inTime
  have hworld := world_of_moving hstage
  constructor
  · rw [hworld]
    exact ⟨earlier, pending, hsplit, hsent, fun p hp => (htimes p hp).2.1⟩
  · intro hover
    rw [(unsent_of_over hreach hstarts hstage hover).1] at hleft
    obtain rfl : pending = [] := List.map_eq_nil_iff.mp hleft
    rw [hworld, hsplit, List.append_nil]
    exact hsent
  · intro hrest u hu hbatch hflush
    cases (transfer?_of_moving hstage).symm.trans hu
    have hwaiting : t.unsent ≠ [] := by rwa [unsent_of_waiting hflush]
    obtain ⟨alarm, _, hahead, hnear, _⟩ :=
      alarm_of_rest hreach hstarts hstage hwaiting hpoised.next hrest
    rw [hworld]
    rw [unsent_of_waiting hflush] at hleft
    refine ⟨tick, hpoised.next, Nat.le_of_lt_succ (hahead.trans_le hnear), earlier, pending, hsplit,
      hleft, fun p hp => (htimes p hp).2.2⟩
  · rw [hworld]
    exact fun m hm => (hpoised.opened m hm).2
  · rw [hworld]
    exact hpoised.apart

theorem idle_or_starts (h : Reachable r) :
    (r.world.journal.receptions = [] ∧ r.world.journal.sendings = [] ∧
      ∀ t, r.transfer? = some t → t.unsent = []) ∨ r.plan.Starts ∧ ∃ t, r.stage = .moving t := by
  have hr := reachable_standing h
  have hbefore {w : World} (hstage : r.stage = .before w) :
      r.world.journal.receptions = [] ∧ r.world.journal.sendings = [] ∧
        ∀ t, r.transfer? = some t → t.unsent = [] := by
    rw [world_of_before hstage]
    refine ⟨(hr.quiet hstage).idle.1, (hr.quiet hstage).idle.2, fun t ht => ?_⟩
    cases (transfer?_of_before hstage).symm.trans ht
  cases hr with
  | fresh hstage => exact .inl (hbefore hstage)
  | misnamed hstage => exact .inl (hbefore hstage)
  | barred hstage => exact .inl (hbefore hstage)
  | streaming hstage hstarts => exact .inr ⟨hstarts, _, hstage⟩
  | @untimed t threshold e hstage _ _ _ _ hflushes _ hwait =>
    have hreceipts := receipts_of_untimed h hwait hstage
    refine .inl ⟨?_, ?_, fun u hu => ?_⟩
    · rw [← List.map_eq_nil_iff (f := Prod.snd), Journal.receipts_eq, world_of_moving hstage]
      exact hreceipts
    · rw [← List.map_eq_nil_iff (f := Prod.snd), Journal.flushes_eq, world_of_moving hstage]
      exact hflushes
    · cases (transfer?_of_moving hstage).symm.trans hu
      have hwhole := (reachable_orderly h hstage).1.receipts
      rw [hreceipts] at hwhole
      exact (List.append_eq_nil_iff.mp hwhole.symm).2
  | ended hstage hstarts => exact .inr ⟨hstarts, _, hstage⟩

/-- On the clock, with a finite flush interval: an entry that was received is sent in time, the timer is
set for whatever waits to be sent, and its batches are one interval apart and away from the beginning
of streaming. What is told of batches that were sent are the commands of the destination; and a run
that is left to itself sends, in time, all that it has received, or comes to a moment from which its clock
cannot be set forward by the wait for new entries. -/
theorem keeps_time (h : Timely r) (hspan : r.plan.interval.span = .finite steps) :
    r.KeepsTime r.plan.interval.span ∧
    (r.world.attached = true →
      r.world.destination.commands = r.world.journal.sendings.map fun b => .ofBatch b.2.2) ∧
    (r.Stalls ∨ ∃ n given, given <+: (Timed.run none n r).world.journal.dispatches ∧
      List.Forall₂ (InTime r.plan.interval.span) r.world.journal.receptions given) := by
  have hreach := h.reachable
  have hcommands : r.world.attached = true →
      r.world.destination.commands = r.world.journal.sendings.map fun b => .ofBatch b.2.2 := by
    intro hattached
    rw [commands_eq hreach, if_pos hattached, ← Journal.flushes_eq, List.map_map]
    rfl
  rcases idle_or_starts hreach with ⟨hreceptions, hsendings, hempty⟩ | ⟨hstarts, t, hstage⟩
  · refine ⟨keepsTime_of_idle hreceptions hsendings hempty, hcommands, .inr ⟨0, [], List.nil_prefix, ?_⟩⟩
    rw [hreceptions]
    exact .nil
  · refine ⟨keepsTime_of_punctual h hstarts hstage (h.punctual hspan hstarts hstage), hcommands, ?_⟩
    refine (exists_all_sent h hspan hstarts hstage).imp_right ?_
    rintro ⟨n, u, hleads, hu, hsent⟩
    have hplan := plan_of_leads hreach hleads
    have htimely : Timely (Timed.run none n r) := h.run n
    rw [← hplan] at hspan hstarts ⊢
    obtain ⟨_, tick, hpoised⟩ := htimely.punctual hspan hstarts hu
    obtain ⟨earlier, pending, hsplit, hall, hleft, _⟩ := hpoised.inTime
    rw [hsent] at hleft
    obtain rfl : pending = [] := List.map_eq_nil_iff.mp hleft
    have hgrown := receptions_of_leads hreach hleads
    rw [world_of_moving hu, hsplit, List.append_nil] at hgrown
    refine ⟨n, u.journal.dispatches.take r.world.journal.receptions.length, ?_, ?_⟩
    · rw [world_of_moving hu]
      exact List.take_prefix _ _
    · have htaken := List.forall₂_take r.world.journal.receptions.length hall
      rw [← List.prefix_iff_eq_take.mp hgrown] at htaken
      exact htaken

def dozing : Run := Timed.advanceTo (Moment.second 3) (paused [.append lateLog])

theorem timely_dozing : Timely dozing := by
  refine (timely_paused (by simp)).advanceTo (by decide +kernel) (Option.isNone_iff_eq_none.mp ?_)
  decide +kernel

/-- One entry waits to be sent, two seconds before the timer falls due. -/
theorem keeps_time_dozing : Timely dozing ∧ dozing.plan.interval.span = .finite (5 * Binary64.one : Nat) ∧
    dozing.KeepsTime dozing.plan.interval.span ∧ dozing.step?.isNone = true ∧
    dozing.world.now = Moment.second 3 ∧ dozing.buffered = 1 ∧
    (dozing.transfer?.bind Transfer.nextTick) = some (Moment.second 5) ∧
    dozing.world.journal.receptions.length = 7 ∧ dozing.world.journal.dispatches.length = 6 ∧
    (dozing.Stalls ∨ ∃ n given, given <+: (Timed.run none n dozing).world.journal.dispatches ∧
      List.Forall₂ (InTime dozing.plan.interval.span) dozing.world.journal.receptions given) ∧
    (Timed.run none 3 dozing).world.journal.timerFlushes = [Moment.second 5] := by
  have hspan : dozing.plan.interval.span = .finite (5 * Binary64.one : Nat) := by decide +kernel
  obtain ⟨hkeeps, _, hsent⟩ := keeps_time timely_dozing hspan
  exact ⟨timely_dozing, hspan, hkeeps, by decide +kernel, by decide +kernel, by decide +kernel,
    by decide +kernel, by decide +kernel, by decide +kernel, hsent, by decide +kernel⟩

def flurry : Run :=
  Timed.run none 13 ((Timed.settle (hurried 0)).act (.delay (.whole 0)))

theorem timely_flurry : Timely flurry :=
  ((((Timely.made made_hurried).start (start?_eq_begun rfl)).run 0).settle.meet (by simp)).run 13

theorem timely_stranded : Timely stranded :=
  ((Timely.made made_fleeting).start (start?_eq_begun rfl)).run 30

/-- A plan with an interval of five seconds and the least that the clock can tell there. -/
def Plan.uneven : Plan :=
  { Plan.small with capacity := 3, interval := .real (.finite false ((5 <<< 1074) + (1 <<< 1024))) }

theorem made_uneven : Made (construct Plan.uneven (smallLog.take 2) (.whole 0) true false) := by
  have hplan : Plan.uneven.make? 3 Plan.uneven.interval = .ok Plan.uneven := rfl
  exact made_construct (smallLog.take 2) (.whole 0) true false hplan

/-- Half a second after its start, and a little more, the run meets with a second entry. Its alarm is set
again there and goes off one place after the timer. -/
def belated : Run :=
  Timed.run none 6 ((Timed.advanceTo (Moment.nearest ((1 <<< 1073) + (3 <<< 1023)))
    (Timed.settle (construct Plan.uneven (smallLog.take 2) (.whole 0) true false).begun)).act
      (.append (lateLog.take 1)))

theorem timely_belated : Timely belated := by
  have hsettled := ((Timely.made made_uneven).start (start?_eq_begun rfl)).settle
  refine ((hsettled.advanceTo (by decide +kernel) ?_).meet (by simp)).run 6
  exact Option.isNone_iff_eq_none.mp (by decide +kernel)

/-- With an interval that is too short for the clock two batches of the timer can be sent at one moment;
even with a longer one an entry can be sent one place too late; and where the wait for new entries is too short
for the clock, what was received need not be sent. -/
theorem not_keeps_time_exactly :
    (¬ ∀ (r : Run) (steps : Int), Timely r → r.plan.interval.span = .finite steps →
      r.world.journal.timerFlushes.Pairwise fun a b =>
        (Moment.steps a : Int) + steps ≤ Moment.steps b) ∧
    (¬ ∀ (r : Run) (steps : Int), Timely r → r.plan.interval.span = .finite steps →
      ∀ p ∈ r.world.journal.receptions.zip r.world.journal.dispatches,
        p.2.1 ≤ r.plan.interval.span.arrival p.1.1) ∧
    ¬ ∀ (r : Run) (steps : Int), Timely r → r.plan.interval.span = .finite steps →
      ∃ n, r.world.journal.receptions.length ≤ (Timed.run none n r).world.journal.dispatches.length := by
  refine ⟨fun hapart => ?_, fun hintime => ?_, fun hsends => ?_⟩
  · have hspan : flurry.plan.interval.span = .finite (1 <<< 1017 : Nat) := by decide +kernel
    have hflushes : flurry.world.journal.timerFlushes = [Moment.second 2, Moment.second 2] := by
      decide +kernel
    have htwice := hapart flurry _ timely_flurry hspan
    rw [hflushes, List.pairwise_pair] at htwice
    have hpositive : 0 < (1 <<< 1017 : Nat) := by decide +kernel
    omega
  · have hspan : belated.plan.interval.span = .finite ((5 <<< 1074) + (1 <<< 1024) : Nat) := by
      decide +kernel
    have hlate : (belated.world.journal.receptions.zip belated.world.journal.dispatches).all
        (fun p => decide (p.2.1 ≤ belated.plan.interval.span.arrival p.1.1)) = false := by
      decide +kernel
    have hnever := List.all_eq_true.mpr fun p hp =>
      decide_eq_true (hintime belated _ timely_belated hspan p hp)
    cases hlate.symm.trans hnever
  · obtain ⟨hlive, t, hstage, hcircles, _⟩ := stranded_circles
    have hspan : stranded.plan.interval.span = .finite (5 * Binary64.one : Nat) := by decide +kernel
    obtain ⟨n, hall⟩ := hsends stranded _ timely_stranded hspan
    obtain ⟨phase, hrun⟩ := run_of_circles hlive hstage hcircles none n
    have hsame : (Timed.run none n stranded).world.journal = stranded.world.journal := by
      rw [hrun, world_of_moving hstage]
      rfl
    have hfewer : stranded.world.journal.dispatches.length < stranded.world.journal.receptions.length := by
      decide +kernel
    rw [hsame] at hall
    exact absurd hall (Nat.not_le.mpr hfewer)

end OplogRelay.Run
