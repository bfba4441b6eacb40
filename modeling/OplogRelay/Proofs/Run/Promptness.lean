import OplogRelay.Proofs.Run.Termination
import OplogRelay.Proofs.Transfer.Oversleeping
/-!
Whether a run ends as soon as there is nothing left to relay. It does, unless its forwarder comes to its
end while a batch is under way that the timer has sent: then the run sleeps until the alarm goes off that was
set for the timer, and ends there.
-/
namespace OplogRelay

namespace Transfer

theorem phase_conclude {t : Transfer} {ending : Forwarder.Ending}
    (h : t.forwarder.ending = some ending) (hnot : ending ≠ .cancelled) :
    t.conclude.phase = .done ending.result := by
  unfold conclude
  rw [h]
  cases ending with
  | exhausted => rfl
  | failed e => rfl
  | escaped e => rfl
  | cancelled => exact absurd rfl hnot

end Transfer

namespace Run

variable {r s : Run} {t u : Transfer}

/-- The end of the forwarder came while a batch was under way that the timer had sent, and left nothing on
the hand-off; and no batch has been sent since. -/
def Overslept (r : Run) : Prop :=
  ∃ q s t u, Reachable q ∧ q.Step s ∧ q.stage = .moving t ∧ s.stage = .moving u ∧ t.EndsUnheard u ∧
    Leads s r ∧ r.world.journal.flushes = s.world.journal.flushes

theorem Overslept.step (h : r.Overslept) (hstep : r.Step s)
    (hflushes : s.world.journal.flushes = r.world.journal.flushes) : s.Overslept := by
  obtain ⟨q, p, t, u, hq, hqp, ht, hu, hends, hleads, hsame⟩ := h
  exact ⟨q, p, t, u, hq, hqp, ht, hu, hends, .tail hleads hstep, hflushes.trans hsame⟩

/-- Nothing else makes a coordinator overlook the end of the forwarder. -/
theorem overslept_of_overlooks (h : Reachable r) (hstage : r.stage = .moving t) (ho : t.Overlooks) :
    r.Overslept := by
  induction h generalizing t with
  | made hmade =>
    cases hmade
    cases hstage
  | @step q r hq hstep ih =>
    have hstanding := reachable_standing hq
    cases hbefore : q.stage with
    | before w =>
      obtain ⟨v, ns, threshold, interval, _, _, rfl⟩ := start_of_step hstanding hstep hbefore hstage
      cases ho.drained
    | moving v =>
      obtain ⟨u, hu, hgoes⟩ := goes_of_step hstanding hstep hbefore
      cases hu.symm.trans hstage
      obtain ⟨threshold, _, hinv⟩ := hstanding.invariant hbefore
      have hsame (hflushes : t.flushes = v.flushes) :
          r.world.journal.flushes = q.world.journal.flushes := by
        rw [world_of_moving hu, world_of_moving hbefore]
        exact hflushes
      rcases hgoes.aside_or_coordinate hinv with haside | hcoordinate
      · rcases haside.overlooks (reachable_wakeful hq hbefore) ho with hearlier | hends
        · exact (ih hbefore hearlier).step hstep (hsame haside.flushes)
        · exact ⟨q, r, v, t, hq, hstep, hbefore, hu, hends, .refl, rfl⟩
      · obtain ⟨hearlier, hflushes, _⟩ := hinv.overlooks_of_coordinate? hcoordinate ho
        exact (ih hbefore hearlier).step hstep (hsame hflushes)

theorem drained_of_leads (h : Reachable r) (hs : Leads r s) (hstage : r.stage = .moving t)
    (hd : t.drained = true) : ∃ u, s.stage = .moving u ∧ u.drained = true ∧
      u.forwarder.ending = t.forwarder.ending := by
  induction hs with
  | refl => exact ⟨t, hstage, hd, rfl⟩
  | @tail q s hleads hstep ih =>
    obtain ⟨v, hv, hdrained, hsame⟩ := ih
    have hstanding := reachable_standing (h.leads hleads)
    obtain ⟨u, hu, hbeside | hcoordinate⟩ := beside_of_step hstanding hstep hv
    · obtain ⟨hkept, hending⟩ := hbeside.drained hdrained
      exact ⟨u, hu, hkept, hending.trans hsame⟩
    · obtain ⟨threshold, _, hinv⟩ := hstanding.invariant hv
      obtain ⟨hkept, hforwarder⟩ := hinv.drained_of_coordinate? hcoordinate hdrained
      exact ⟨u, hu, hkept, by rw [hforwarder, hsame]⟩

theorem reachable_emptied (h : Reachable r) (hstage : r.stage = .moving t) (ho : t.Overlooks)
    (hphase : t.phase = .waiting false) : t.batch.entries = [] := by
  refine h.transfer (P := fun t => t.Wakeful ∧
    (t.Overlooks → t.phase = .waiting false → t.batch.entries = [])) hstage ?_ ?_ |>.2 ho hphase
  · intro w ns threshold interval _ hinterval
    exact ⟨Transfer.wakeful_start (Plan.Times.isPositive hinterval h), fun _ _ => rfl⟩
  · intro q v u hq hstage ⟨hwakeful, hemptied⟩ hgoes
    obtain ⟨threshold, _, hinv⟩ := (reachable_standing hq).invariant hstage
    refine ⟨hwakeful.goes hinv hgoes, fun ho hphase => ?_⟩
    rcases hgoes.aside_or_coordinate hinv with haside | hcoordinate
    · have hwaits := haside.phase.symm.trans hphase
      rw [haside.batch]
      rcases haside.overlooks hwakeful ho with hearlier | hends
      · exact hemptied hearlier hwaits
      · obtain ⟨f, hf, _⟩ := hends.timed
        simp [hwaits, Transfer.Phase.flush?] at hf
    · exact (hinv.overlooks_of_coordinate? hcoordinate ho).2.2 hphase

/-- A run that waits and has nothing to do is not over, was not asked to stop, and does not hear of the
forwarder's end if that has come. -/
structure WaitsUnaware (r : Run) (t : Transfer) : Prop where
  live : r.isOver = false
  unasked : t.shutdown = false
  unheard : t.heard = false
  early : t.alarmDue = false
  unwatched : t.phase = .waiting false

theorem overlooks_of_rest {watching : Bool} (h : Reachable r) (hstage : r.stage = .moving t)
    (hphase : t.phase = .waiting watching) (hrest : r.step? = none) (hd : t.drained = true) :
    r.WaitsUnaware t := by
  have hdone : t.isDone = false := by simp [Transfer.isDone, hphase]
  have hlive : r.isOver = false := by
    by_contra hover
    rcases (reachable_standing h).over_cases hstage (by simpa using hover) with
      ⟨_, hnone, _⟩ | ⟨result, hended, _⟩
    · exact Transfer.ended_of_drained hd hnone
    · cases hended.symm.trans hphase
  have hstill := (step?_eq_none_iff hlive hstage hdone).mp hrest
  obtain ⟨_, _, hhear, hcoordinate, _⟩ := Transfer.steps_none hstill hdone
  have hfinished : t.forwarder.finished = true :=
    t.forwarder.finished_iff.mpr (Transfer.ended_of_drained hd)
  have hquiet : t.roused watching = false := by
    by_contra hroused
    simp [Transfer.coordinate?, hphase, hroused] at hcoordinate
  simp only [Transfer.roused, hfinished, Bool.and_true, Bool.or_eq_false_iff] at hquiet
  obtain ⟨⟨⟨_, hunheard⟩, hwatching⟩, hearly⟩ := hquiet
  have hunasked : t.shutdown = false := by
    by_contra hasked
    simp [Transfer.hear?, hunheard, hasked] at hhear
  exact ⟨hlive, hunasked, hunheard, hearly, hwatching ▸ hphase⟩

/-- A run with nothing in its batch and its stream at an end, that ends with it only when its alarm goes off.
That was set for the timer, which has been set for one flush interval, and misses it by one place at most. -/
structure Sleeps (r : Run) (tick alarm : Nat) : Prop where
  emptied : r.buffered = 0
  later : r.world.now < alarm
  near : alarm ≤ tick + 1 ∧ tick ≤ alarm + 1
  within : ∃ since, since ≤ r.world.now ∧ r.plan.interval.span.after since = some tick
  ends : ∃ t ending, r.stage = .moving t ∧ t.forwarder.ending = some ending ∧ ∀ n, 3 ≤ n →
    (Timed.run none n r).endedAt = some alarm ∧ (Timed.run none n r).Ended .streaming ending.result

theorem run_of_tick? {n : Nat} (h : Timed.tick? none r = some s) :
    Timed.run none (n + 1) r = Timed.run none n s := by
  rw [Timed.run, h]

theorem ends_at_alarm {alarm : Nat} {ending : Forwarder.Ending}
    (hlifecycle : r.lifecycle = .streaming) (hstage : r.stage = .moving t)
    (hwaits : r.WaitsUnaware t) (hd : t.drained = true)
    (hb : t.batch.entries = []) (halarm : t.alarm = some alarm)
    (hended : t.forwarder.ending = some ending) (hnot : ending ≠ .cancelled) (hrest : r.step? = none)
    {n : Nat} (hn : 3 ≤ n) : (Timed.run none n r).endedAt = some alarm ∧
      (Timed.run none n r).Ended .streaming ending.result := by
  obtain ⟨m, rfl⟩ : ∃ m, n = m + 3 := ⟨n - 3, by omega⟩
  have hfinished : t.forwarder.finished = true :=
    t.forwarder.finished_iff.mpr (Transfer.ended_of_drained hd)
  have hdue : r.due? = some alarm := by
    rw [due?_of_moving hwaits.live hstage]
    simp [Transfer.due?, hwaits.unwatched, Forwarder.due?, hfinished, halarm, Transfer.sooner]
  have hround : Transfer.step? { t with now := alarm } =
      some (Transfer.conclude { t with now := alarm }) :=
    Transfer.step?_of_drained hwaits.unwatched hwaits.unasked hwaits.unheard hd hb
      (by simp [Transfer.alarmDue, Transfer.isDue, halarm])
  have hresult : (Transfer.conclude { t with now := alarm }).phase = .done ending.result :=
    Transfer.phase_conclude hended hnot
  -- the run at the last of its rounds, with everything still to be released
  generalize hlast : ({ (Timed.moveTo alarm r : Run) with
    stage := .moving (Transfer.conclude { t with now := alarm }) } : Run) = last
  have hmoving : last.stage = .moving (Transfer.conclude { t with now := alarm }) := by rw [← hlast]
  have hlast_live : last.isOver = false := by
    rw [← hlast]
    exact hwaits.live
  have hlast_lifecycle : last.lifecycle = .streaming := by
    rw [← hlast]
    exact hlifecycle
  have hjump := tick?_of_due? hrest hdue
  have hround' := tick?_of_step?
    (step?_of_not_done (r := Timed.moveTo alarm r) hwaits.live (stage_moveTo alarm hstage) hround)
  rw [hlast] at hround'
  have hrelease := tick?_of_step? (step?_of_done hlast_live hmoving hresult)
  have hclosed := ended_finish_of_moving ending.result allResources hmoving
  rw [run_of_tick? hjump, run_of_tick? hround', run_of_tick? hrelease, run_of_over hclosed.closed]
  refine ⟨?_, hlast_lifecycle ▸ hclosed⟩
  obtain ⟨events, outcome, _, _, heq⟩ := last.finish_of_moving ending.result allResources hmoving
  rw [heq]
  show some last.world.now = some alarm
  rw [world_of_moving hmoving, (Transfer.conclude_ends _).1.now]

/-- Where a run waits and has nothing to do, its hand-off is drained if and only if it has overslept; and
then it sleeps on until the alarm goes off that was set for its timer. -/
theorem oversleeps {watching : Bool} (h : Reachable r) (hstage : r.stage = .moving t)
    (hphase : t.phase = .waiting watching) (hrest : r.step? = none) :
    (t.drained = true ↔ r.Overslept) ∧ (r.Overslept → ∃ tick alarm, r.Sleeps tick alarm) := by
  have hcause : t.drained = true ↔ r.Overslept := by
    constructor
    · intro hd
      have hwaits := overlooks_of_rest h hstage hphase hrest hd
      exact overslept_of_overlooks h hstage ⟨hd, .inl hwaits.unwatched⟩
    · rintro ⟨q, s, v, u, hq, hqs, _, hu, hends, hleads, _⟩
      obtain ⟨w, hw, hd, _⟩ := drained_of_leads (hq.step hqs) hleads hu hends.drained
      cases hw.symm.trans hstage
      exact hd
  refine ⟨hcause, fun hoverslept => ?_⟩
  have hd := hcause.mpr hoverslept
  have hwaits := overlooks_of_rest h hstage hphase hrest hd
  have hunwatched := hwaits.unwatched
  have hstanding := reachable_standing h
  obtain ⟨threshold, _, hinv⟩ := hstanding.invariant hstage
  have hwakeful := reachable_wakeful h hstage
  have hb := reachable_emptied h hstage ⟨hd, .inl hunwatched⟩ hunwatched
  have hbounded := (hwakeful.unwatched hunwatched).2 hd
  obtain ⟨tick, hnext⟩ := Option.ne_none_iff_exists'.mp (mt hwakeful.unset.mp hbounded)
  obtain ⟨alarm, halarm, hnear⟩ := hwakeful.alarm_near hunwatched hnext
  have hlater : t.now < alarm := by simpa [Transfer.alarmDue, Transfer.isDue, halarm] using hwaits.early
  obtain ⟨ending, hended⟩ := Option.ne_none_iff_exists'.mp (Transfer.ended_of_drained hd)
  have hnot : ending ≠ .cancelled := by
    rintro rfl
    have hdone := hinv.uncancelled hended
    simp [Transfer.isDone, hphase] at hdone
  refine ⟨tick, alarm, ?_, ?_, hnear.resolve_left (Nat.not_le.mpr hlater), ?_, ?_⟩
  · rw [buffered, transfer?_of_moving hstage]
    exact Transfer.size_eq_zero.mpr hb
  · rw [world_of_moving hstage]
    exact hlater
  · obtain ⟨since, hpast, hset⟩ := hwakeful.set
    rw [world_of_moving hstage]
    refine ⟨since, hpast, ?_⟩
    rcases reachable_times h hstage with hwait | hunbounded
    · rw [← Quantity.span_of_wait? hwait, ← hset, hnext]
    · exact absurd hunbounded hbounded
  · refine ⟨t, ending, hstage, hended, fun n hn => ?_⟩
    exact ends_at_alarm (hstanding.lifecycle_of_live hstage hwaits.live) hstage hwaits hd hb halarm
      hended hnot hrest hn

def Plan.hasty : Plan := { Plan.small with idle := .whole 6 }

def oversleeping : Run :=
  Timed.run none 12 (construct Plan.hasty (smallLog.take 2) (.whole 2) true false).begun

theorem oversleeping_waits : Reachable oversleeping ∧ ∃ t, oversleeping.stage = .moving t ∧
    t.phase = .waiting false ∧ oversleeping.step? = none ∧ t.drained = true := by
  have hplan : Plan.hasty.make? 2 (.whole 5) = .ok Plan.hasty := rfl
  have hmade : Made (construct Plan.hasty (smallLog.take 2) (.whole 2) true false) :=
    made_construct _ _ _ _ hplan
  have hbegun := (Reachable.made hmade).leads (leads_begun hmade)
  have hreach : Reachable oversleeping := hbegun.leads (leads_ticks 12 hbegun)
  have hrest : oversleeping.step? = none := Option.isNone_iff_eq_none.mp (by decide +kernel)
  have hfacts : (oversleeping.transfer?.any fun t =>
      t.drained && (!t.isDone && t.phase.flush?.isNone)) = true := by decide +kernel
  obtain ⟨t, ht, hidle⟩ := (Option.any_eq_true _ _).mp hfacts
  simp only [Bool.and_eq_true, Bool.not_eq_true', Option.isNone_iff_eq_none] at hidle
  obtain ⟨hdrained, hgoes, hunsent⟩ := hidle
  obtain ⟨watching, hphase⟩ : ∃ watching, t.phase = .waiting watching := by
    cases hphase : t.phase with
    | waiting watching => exact ⟨watching, rfl⟩
    | applying f ops due => simp [hphase, Transfer.Phase.flush?] at hunsent
    | answered f answer => simp [hphase, Transfer.Phase.flush?] at hunsent
    | done outcome => simp [hphase, Transfer.isDone] at hgoes
  have hstage := moving_of_transfer? ht
  have hwaits := overlooks_of_rest hreach hstage hphase hrest hdrained
  exact ⟨hreach, t, hstage, hwaits.unwatched, hrest, hdrained⟩

/-- The run sleeps from the seventh second to the tenth, with nothing to do. -/
theorem oversleeps_hasty : ∃ t, Reachable oversleeping ∧ oversleeping.stage = .moving t ∧
    t.phase = .waiting false ∧ oversleeping.step? = none ∧ oversleeping.world.now = Moment.second 7 ∧
    (t.drained = true ↔ oversleeping.Overslept) ∧ oversleeping.Overslept ∧
    (∃ tick alarm, oversleeping.Sleeps tick alarm) ∧
    (Timed.run none 3 oversleeping).endedAt = some (Moment.second 10) := by
  obtain ⟨hreach, t, hstage, hphase, hrest, hdrained⟩ := oversleeping_waits
  obtain ⟨hcause, hsleeps⟩ := oversleeps hreach hstage hphase hrest
  have hoverslept := hcause.mp hdrained
  exact ⟨t, hreach, hstage, hphase, hrest, by decide +kernel, hcause, hoverslept, hsleeps hoverslept,
    by decide +kernel⟩

/-- So it does happen that a run waits though its stream has ended and all of it has been relayed. -/
theorem not_prompt_hasty : ¬ ∀ (r : Run) (t : Transfer) (watching : Bool), Reachable r →
    r.stage = .moving t → t.phase = .waiting watching → r.step? = none → t.drained = false := by
  intro hprompt
  obtain ⟨hreach, t, hstage, hphase, hrest, hdrained⟩ := oversleeping_waits
  cases (hprompt _ t _ hreach hstage hphase hrest).symm.trans hdrained

end Run

end OplogRelay
