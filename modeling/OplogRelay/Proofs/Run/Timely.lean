import OplogRelay.Proofs.Run.Landmarks
import OplogRelay.Proofs.Run.Stopping
import OplogRelay.Proofs.Transfer.Wakefulness
/-!
Runs on the clock. Time passes only where a run has nothing left to do, and goes no further than the
next moment at which something falls due; the surroundings may act at any moment, and what moves at one
moment may move in any order.
-/
namespace OplogRelay

namespace Run

variable {r s : Run} {t : Transfer}

/-- A step on the clock: time passes only where the run has nothing left to do, and no further than
the next moment at which something falls due. -/
structure Beats (r s : Run) : Prop where
  step : r.Step s
  patient : r.world.now < s.world.now →
    r.step? = none ∧ ∀ due, r.due? = some due → s.world.now ≤ due

inductive Timely : Run → Prop where
  | made {r : Run} : Made r → Timely r
  | beat {r s : Run} : Timely r → Beats r s → Timely s

theorem Timely.reachable (h : Timely r) : Reachable r := by
  induction h with
  | made hmade => exact .made hmade
  | beat _ hbeat ih => exact .step ih hbeat.step

theorem now_of_opens {w : World} (h : r.Opens w s) : s.world.now = w.now := by
  cases h with
  | barred _ _ _ _ _ hstage =>
    rw [world_of_before hstage]
    rfl
  | untimed _ _ _ _ _ _ _ _ hstage =>
    rw [world_of_moving hstage]
    rfl
  | streams => rfl

theorem now_act {a : Action} (ha : ∀ span, a ≠ .advance span) : (r.act a).world.now = r.world.now := by
  cases hstage : r.stage with
  | moving t =>
    obtain ⟨w, f, hmoved, hnow, _⟩ := act_moving ha hstage
    rw [world_of_moving hmoved, world_of_moving hstage]
    exact hnow
  | before w =>
    obtain ⟨plan, stage, lifecycle, started, own, caller, outcome, endedAt⟩ := r
    cases hstage
    cases a with
    | advance span => exact absurd rfl (ha span)
    | requestShutdown => cases started <;> rfl
    | signalCaller => cases caller <;> cases started <;> rfl
    | _ => rfl

theorem now_begun {w : World} (hstage : r.stage = .before w) : r.begun.world.now = w.now := by
  rcases begun_cases hstage with ⟨e, _, heq⟩ | hopens
  · have hasked : r.asked.stage =
        .before { w with shutdown := r.callerRequest.getD r.ownRequest } := by
      simp [asked, onWorld, Stage.onWorld, hstage]
    rw [heq]
    show r.asked.world.now = w.now
    rw [world_of_before hasked]
  · exact (now_of_opens hopens).trans rfl

theorem Beats.of_still (hs : r.Step s) (hnow : s.world.now = r.world.now) : Beats r s := by
  refine ⟨hs, fun hlater => ?_⟩
  rw [hnow] at hlater
  exact absurd hlater (Nat.lt_irrefl _)

theorem beats_of_start? (h : r.Standing) (hstart : r.start? = .ok s) : Beats r s := by
  refine .of_still (.start hstart) ?_
  obtain ⟨w, hstage, _⟩ := h.before_of_start? hstart
  rw [(begun_of_start? hstart).2, world_of_before hstage]
  exact now_begun hstage

theorem Timely.start (h : Timely r) (hstart : r.start? = .ok s) : Timely s :=
  h.beat (beats_of_start? (reachable_standing h.reachable) hstart)

theorem Timely.meet (h : Timely r) {a : Action} (ha : ∀ span, a ≠ .advance span) : Timely (r.act a) :=
  h.beat (.of_still (.meet a ha) (now_act ha))

/-- What a run does with nothing done to it: it starts, a part of it moves, it comes to its end, and
time passes where it rests. -/
inductive Proceeds (r : Run) : Run → Prop where
  | start {s : Run} : r.start? = .ok s → Proceeds r s
  | move {t u : Transfer} : r.isOver = false → r.stage = .moving t → t.isDone = false → t.Moves u →
      Proceeds r { r with stage := .moving u }
  | finish {t : Transfer} {result : Except Failure Unit} : r.isOver = false → r.stage = .moving t →
      t.phase = .done result → Proceeds r (r.finish result allResources)
  | pass (moment : Nat) : r.world.now ≤ moment →
      (r.world.now < moment → r.step? = none ∧ ∀ due, r.due? = some due → moment ≤ due) →
      Proceeds r (Timed.moveTo moment r)

theorem proceeds_of_step? (h : r.step? = some s) : r.Proceeds s := by
  obtain ⟨hfalse, t, hstage, ⟨u, hdone, hmoves, rfl⟩ | ⟨result, hphase, rfl⟩⟩ := step?_cases h
  · exact .move hfalse hstage hdone hmoves
  · exact .finish hfalse hstage hphase

/-- What a run does by itself is what it does with nothing done to it. -/
theorem proceeds_of_tick? {limit : Option Nat} (h : Timed.tick? limit r = some s) :
    r.Proceeds s := by
  rcases Timed.tick?_cases h with hwork | ⟨due, hnone, hdue, _, rfl⟩
  · exact proceeds_of_step? hwork
  · refine .pass due (Nat.le_of_lt (lt_due hnone hdue)) fun _ => ⟨hnone, ?_⟩
    intro other hother
    cases hdue.symm.trans hother
    exact Nat.le_refl _

theorem Proceeds.beats (h : r.Proceeds s) (hr : r.Standing) : Beats r s := by
  cases h with
  | start hstart => exact beats_of_start? hr hstart
  | move hfalse hstage hdone hmoves =>
    refine .of_still (.move hfalse hstage hdone hmoves) ?_
    obtain ⟨_, _, hinv⟩ := hr.invariant hstage
    rw [world_of_moving hstage]
    exact Transfer.now_of_moves hinv hmoves
  | finish hfalse hstage hphase =>
    refine .of_still (.finish hfalse hstage hphase) ?_
    obtain ⟨events, outcome, _, _, heq⟩ := r.finish_of_moving _ allResources hstage
    rw [heq, world_of_moving hstage]
    rfl
  | pass moment hle hpatient =>
    refine ⟨.pass moment hle, fun hlater => ?_⟩
    rw [now_moveTo] at hlater ⊢
    exact hpatient hlater

theorem Timely.proceed (h : Timely r) (hs : r.Proceeds s) : Timely s :=
  h.beat (hs.beats (reachable_standing h.reachable))

theorem Timely.tick {limit : Option Nat} (h : Timely r) (htick : Timed.tick? limit r = some s) :
    Timely s :=
  h.proceed (proceeds_of_tick? htick)

theorem Timely.run {limit : Option Nat} (ticks : Nat) (h : Timely r) :
    Timely (Timed.run limit ticks r) :=
  Timed.run_induction (fun _ _ hq htick => hq.tick htick) ticks h

theorem Timely.settle (h : Timely r) : Timely (Timed.settle r) := h.run Timed.fuel

theorem Timely.perform {a : Action} (ha : ∀ span, a ≠ .advance span) (h : Timely r) :
    Timely (r.perform a) := (h.meet ha).settle

theorem Timely.foldl {actions : List Action} (ha : ∀ a ∈ actions, ∀ span, a ≠ .advance span)
    (h : Timely r) : Timely (actions.foldl Run.perform r) := by
  induction actions generalizing r with
  | nil => exact h
  | cons a rest ih =>
    obtain ⟨hfirst, hrest⟩ := List.forall_mem_cons.mp ha
    exact ih hrest (h.perform hfirst)

theorem Timely.advanceTo {goal : Nat} (h : Timely r) (hgoal : r.world.now ≤ goal)
    (hrest : Timed.tick? (some goal) (Timed.run (some goal) Timed.fuel r) = none) :
    Timely (Timed.advanceTo goal r) := by
  have hlimit : ∀ last, some goal = some last → r.world.now ≤ last := by
    rintro last ⟨⟩
    exact hgoal
  obtain ⟨_, hwithin⟩ := (keeps_leads h.reachable).run .refl Timed.fuel hlimit
  refine (h.run Timed.fuel).beat ⟨.pass _ (hwithin _ rfl), fun _ => ?_⟩
  unfold Timed.tick? at hrest
  split at hrest
  · cases hrest
  · next hnone =>
    refine ⟨hnone, fun due hdue => ?_⟩
    have hdue : Timed.due? (Timed.run (some goal) Timed.fuel r) = some due := hdue
    rw [hdue] at hrest
    by_cases hle : due ≤ goal
    · simp [hle] at hrest
    · have hnow : (Timed.advanceTo goal r).world.now = goal := now_moveTo _ _
      exact hnow.trans_le (Nat.le_of_not_le hle)

theorem reachable_claims (h : Reachable r) (hstage : r.stage = .moving t) {watching : Bool}
    (hphase : t.phase = .waiting watching) : t.claim ≠ .none := by
  refine h.transfer (P := fun t => ∀ watching, t.phase = .waiting watching → t.claim ≠ .none)
    hstage ?_ ?_ watching hphase
  · intro w ns threshold interval _ _ watching _ hnone
    cases hnone
  · intro q t u hq hstage hclaims hgoes
    obtain ⟨threshold, _, hinv⟩ := (reachable_standing hq).invariant hstage
    exact hgoes.claims hinv hclaims

theorem Plan.interval_isPositive {draft plan : Plan} {maxBatch : Int} {flush : Quantity}
    (h : draft.make? maxBatch flush = .ok plan) : plan.interval.span.IsPositive := by
  unfold make? at h
  split at h
  · cases h
  · next hpositive =>
    split at h
    · cases h
    · cases h
      exact Quantity.span_isPositive (by simpa using hpositive)

theorem reachable_interval (h : Reachable r) : r.plan.interval.span.IsPositive := by
  induction h with
  | made hmade =>
    cases hmade with
    | planned _ _ hplan => exact Plan.interval_isPositive hplan
  | step hq hstep ih =>
    rw [plan_of_step (reachable_standing hq) hstep]
    exact ih

/-- The interval of a timer is the one of the plan, unless the timer cannot be set. -/
def Plan.Times (plan : Plan) (interval : Span) : Prop :=
  plan.interval.wait? = .ok interval ∨ interval = .unbounded

theorem Plan.Times.isPositive {interval : Span} (h : r.plan.Times interval) (hr : Reachable r) :
    interval.IsPositive := by
  rcases h with hwait | rfl
  · rw [Quantity.span_of_wait? hwait]
    exact reachable_interval hr
  · exact trivial

theorem reachable_times (h : Reachable r) (hstage : r.stage = .moving t) : r.plan.Times t.interval := by
  refine h.transfer (P := fun t => r.plan.Times t.interval) hstage ?_ ?_
  · intro w ns threshold interval _ hinterval
    exact hinterval
  · intro q t u hq hstage htimes hgoes
    obtain ⟨threshold, _, hinv⟩ := (reachable_standing hq).invariant hstage
    rcases hgoes.aside_or_coordinate hinv with haside | hcoordinate
    · rw [haside.interval]
      exact htimes
    · obtain ⟨events, hadds, _⟩ := hinv.clocks hcoordinate
      rw [hadds.interval]
      exact htimes

theorem reachable_wakeful (h : Reachable r) (hstage : r.stage = .moving t) : t.Wakeful := by
  refine h.transfer hstage ?_ ?_
  · intro w ns threshold interval _ hinterval
    exact Transfer.wakeful_start (Plan.Times.isPositive hinterval h)
  · intro q t u hq hstage hwakeful hgoes
    obtain ⟨threshold, _, hinv⟩ := (reachable_standing hq).invariant hstage
    exact hwakeful.goes hinv hgoes

theorem journal_of_step (hr : r.Standing) (hs : r.Step s) (hstage : r.stage = .moving t) :
    ∃ events, s.world.journal = r.world.journal.note r.world.now events := by
  cases hs with
  | start hstart =>
    obtain ⟨w, hbefore, _⟩ := hr.before_of_start? hstart
    cases hbefore.symm.trans hstage
  | move _ hmoving _ hmoves =>
    cases hmoving.symm.trans hstage
    obtain ⟨threshold, _, hinv⟩ := hr.invariant hstage
    obtain ⟨events, hadds, _⟩ := hinv.adds_of_moves hmoves
    rw [world_of_moving hstage]
    exact ⟨events, hadds.journal⟩
  | @finish _ result _ hmoving _ =>
    obtain ⟨given, _, hjournal⟩ := finish_moving_tells result allResources hmoving
    exact ⟨_, hjournal⟩
  | pass moment _ =>
    refine ⟨[], ?_⟩
    rw [journal_pass]
    exact (Journal.note_nil _ _).symm
  | meet a ha =>
    obtain ⟨counts, hjournal⟩ := journal_act ha
    exact ⟨_, hjournal⟩

theorem timely_paused {actions : List Action} (ha : ∀ a ∈ actions, ∀ span, a ≠ .advance span) :
    Timely (paused actions) :=
  ((Timely.made made_small).start (start?_eq_begun rfl)).settle.foldl ha

end Run

end OplogRelay
