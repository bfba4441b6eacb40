import OplogRelay.Proofs.Run.Termination
/-!
Runs over a log that is there before them, to which nothing is done from outside. Such a run relays
what there is to relay in pieces as large as a batch can be, whatever its delays are and in whatever order
its parts move, if its clock can be set forward by its flush interval; and left to itself it comes to its end,
if the clock can also be set forward by its wait for new entries.
-/
namespace OplogRelay

namespace Run

variable {plan : Plan} {docs : List Document} {delay : Quantity} {threshold : Timestamp}
variable {r s : Run} {t : Transfer}

/-- What becomes of a run that is left to itself, and whose clock can be set forward by its flush interval
from every moment that it comes to. -/
inductive Unattended (origin : Run) : Run → Prop where
  | made : Unattended origin origin
  | proceed {r s : Run} : Unattended origin r → r.TicksOn → r.Proceeds s → Unattended origin s

/-- A plan that nothing stands in the way of, for a run over these documents. -/
structure Plan.Untroubled (plan : Plan) (docs : List Document) (delay : Quantity)
    (threshold : Timestamp) : Prop where
  made : ∃ draft maxBatch flush, Plan.make? draft maxBatch flush = .ok plan
  starts : plan.Starts
  window : plan.threshold? = .ok threshold
  readable : ∀ d ∈ docs, d.IsReadable threshold
  idle : ∃ span, plan.idle.wait? = .ok span
  delay : ∃ duration, delay.wait? = .ok duration
  mild : plan.Mild

def Plan.pieces (plan : Plan) (threshold : Timestamp) (docs : List Document) : List Value :=
  (chunks plan.capacity (Document.relayable threshold docs)).map fun piece =>
    .array (piece.map .document)

/-- Where an untroubled run stands that is left to itself. -/
inductive Smooth (docs : List Document) (threshold : Timestamp) (r : Run) : Prop where
  | before {w : World} : r.stage = .before w → w.Serves → w.oplog.fault = none →
      w.oplog.documents = docs → r.callerRequest.getD r.ownRequest = false → Smooth docs threshold r
  | moving {t : Transfer} : r.stage = .moving t → t.oplog.documents = docs → t.Steady threshold →
      t.Cut threshold → Smooth docs threshold r

theorem Smooth.steady (h : r.Smooth docs threshold) (hstage : r.stage = .moving t) :
    t.oplog.documents = docs ∧ t.Steady threshold ∧ t.Cut threshold := by
  cases h with
  | before hbefore => cases hbefore.symm.trans hstage
  | moving hmoving hdocs hsteady hcut =>
    cases hmoving.symm.trans hstage
    exact ⟨hdocs, hsteady, hcut⟩

theorem Plan.Untroubled.interval_isPositive (h : plan.Untroubled docs delay threshold) :
    plan.interval.span.IsPositive := by
  obtain ⟨_, _, _, hmade⟩ := h.made
  exact Plan.interval_isPositive hmade

theorem Smooth.start {w : World} (h : r.plan.Untroubled docs delay threshold) (hticks : r.TicksOn)
    (hr : r.Standing)
    (hserves : w.Serves) (hfault : w.oplog.fault = none) (hdocs : w.oplog.documents = docs)
    (hstage : r.stage = .before w) (hunasked : r.callerRequest.getD r.ownRequest = false) :
    r.begun.Smooth docs threshold := by
  have hquiet := hr.quiet hstage
  rcases begun_cases hstage with ⟨e, hns, _⟩ | hopens
  · cases (Plan.barrier?_of_misnamed hns).symm.trans h.starts.unbarred
  · rw [hunasked] at hopens
    generalize r.begun = s at hopens ⊢
    cases hopens with
    | barred _ hbars => cases hbars.symm.trans h.starts.unbarred
    | untimed _ _ _ hwait =>
      obtain ⟨interval, hok⟩ := h.starts.timed
      cases hok.symm.trans hwait
    | @streams threshold' ns interval events _ hthreshold hwait hevents =>
      cases hthreshold.symm.trans h.window
      have hpositive : interval.IsPositive := by
        rw [Quantity.span_of_wait? hwait]
        exact h.interval_isPositive
      have hsets : interval.SetsForward w.now := by
        rw [TicksOn, world_of_before hstage] at hticks
        rw [Quantity.span_of_wait? hwait]
        exact hticks
      have hquiet' : World.Quiet { w with shutdown := false } :=
        ⟨hquiet.commands, hquiet.batches, hquiet.account⟩
      refine .moving rfl hdocs (Transfer.steady_start ?_ rfl ?_ (by simp [Tail.start]) hpositive hsets)
        (.full ?_)
      · exact ⟨hserves.attached, hserves.faultless, hserves.willing, hserves.counted⟩
      · exact ⟨hfault, hdocs ▸ h.readable, h.idle⟩
      · intro b hb
        have hnone := (hquiet'.similar (World.similar_note hevents)).flushes
        change b ∈ (World.note { w with shutdown := false } events).journal.flushes at hb
        rw [hnone] at hb
        cases hb

theorem Smooth.rested {moment : Nat} (h : r.plan.Untroubled docs delay threshold) (hr : Reachable r)
    (hstage : r.stage = .moving t) (hsteady : t.Steady threshold) (hinv : t.Invariant threshold)
    (hle : r.world.now ≤ moment) (hpatient : r.world.now < moment → r.step? = none) :
    ∀ watching, t.phase = .waiting watching → t.now = moment ∨ t.AllIn threshold := by
  intro watching hphase
  rw [world_of_moving hstage] at hle hpatient
  rcases Nat.lt_or_eq_of_le hle with hlater | hsame
  · have hdone : t.isDone = false := by simp [Transfer.isDone, hphase]
    have hlive : r.isOver = false := by
      by_contra hover
      obtain ⟨u, result, hmoving, hended, _⟩ :=
        (reachable_standing hr).ended_of_starts (by simpa using hover) h.starts
      cases hmoving.symm.trans hstage
      cases hended.symm.trans hphase
    have hrest := (step?_eq_none_iff hlive hstage hdone).mp (hpatient hlater)
    obtain ⟨hfill, hforward, _, hcoordinate, _⟩ := Transfer.steps_none hrest hdone
    obtain ⟨horderly, _⟩ := reachable_orderly hr hstage
    have hclaim := reachable_claims hr hstage hphase
    exact .inr (hsteady.allIn_of_rest hinv horderly hphase hclaim hfill hforward hcoordinate)
  · exact .inl hsame

theorem Plan.Untroubled.invariant (h : r.plan.Untroubled docs delay threshold) (hr : Reachable r)
    (hstage : r.stage = .moving t) : t.Invariant threshold ∧ t.Orderly := by
  obtain ⟨threshold', hthreshold, hinv⟩ := (reachable_standing hr).invariant hstage
  cases hthreshold.symm.trans h.window
  exact ⟨hinv, (reachable_orderly hr hstage).1⟩

theorem Smooth.proceed (hsmooth : r.Smooth docs threshold) (h : r.plan.Untroubled docs delay threshold)
    (hr : Reachable r) (hticks : r.TicksOn) (hs : r.Proceeds s) : s.Smooth docs threshold := by
  have hstanding := reachable_standing hr
  cases hs with
  | start hstart =>
    rw [(begun_of_start? hstart).2]
    cases hsmooth with
    | before hstage hserves hfault hdocs hunasked =>
      exact .start h hticks hstanding hserves hfault hdocs hstage hunasked
    | moving hmoving =>
      obtain ⟨w, hbefore, _⟩ := hstanding.before_of_start? hstart
      cases hbefore.symm.trans hmoving
  | move hfalse hstage hdone hmoves =>
    obtain ⟨hdocs, hsteady, hcut⟩ := hsmooth.steady hstage
    obtain ⟨hinv, ho⟩ := h.invariant hr hstage
    have hsets := hticks.moving hr hstage
    obtain ⟨hlog, hafter⟩ := hsteady.moves hsets hinv ho hmoves
    exact .moving rfl (hlog ▸ hdocs) hafter (hcut.moves hinv ho hsteady hsets hmoves)
  | @finish t result hfalse hstage hphase =>
    obtain ⟨hdocs, hsteady, hcut⟩ := hsmooth.steady hstage
    obtain ⟨hinv, ho⟩ := h.invariant hr hstage
    obtain ⟨_, _, _, hended⟩ := hsteady.result hinv ho hphase
    obtain ⟨events, outcome, hevents, _, heq⟩ := r.finish_of_moving result allResources hstage
    rw [heq, Transfer.cancel_of_ended hended]
    exact .moving rfl hdocs (hsteady.note hevents) (hcut.note hevents)
  | pass moment hle hpatient =>
    cases hsmooth with
    | @before w hstage hserves hfault hdocs hunasked =>
      have hmoved : (Timed.moveTo moment r : Run).stage = .before { w with now := moment } := by
        simp [Timed.moveTo, onWorld, Stage.onWorld, hstage]
      refine .before hmoved ?_ hfault hdocs hunasked
      exact ⟨hserves.attached, hserves.faultless, hserves.willing, hserves.counted⟩
    | @moving t hstage hdocs hsteady hcut =>
      obtain ⟨hinv, ho⟩ := h.invariant hr hstage
      have hrested := Smooth.rested h hr hstage hsteady hinv hle fun hlater => (hpatient hlater).1
      exact .moving (stage_moveTo moment hstage) hdocs (hsteady.pass hrested) (hcut.pass moment)

theorem Unattended.run {origin : Run} {limit : Option Nat} (ticks : Nat) (h : Unattended origin r)
    (hticks : ∀ k, k < ticks → (Timed.run limit k r).TicksOn) :
    Unattended origin (Timed.run limit ticks r) := by
  induction ticks generalizing r with
  | zero => exact h
  | succ n ih =>
    have hfirst : r.TicksOn := hticks 0 (Nat.succ_pos n)
    cases htick : Timed.tick? limit r with
    | none =>
      rw [Timed.run_of_tick?_eq_none htick]
      exact h
    | some s =>
      have hrun (k : Nat) : Timed.run limit (k + 1) r = Timed.run limit k s := by
        rw [Timed.run, htick]
      rw [hrun]
      refine ih (h.proceed hfirst (proceeds_of_tick? htick)) fun k hk => ?_
      rw [← hrun]
      exact hticks (k + 1) (Nat.succ_lt_succ hk)

theorem Plan.pieces_eq (plan : Plan) (h : ∀ d ∈ docs, d.IsReadable threshold) :
    plan.pieces threshold docs =
      (chunks plan.capacity (Entry.forwardable threshold docs)).map Value.ofBatch := by
  rw [pieces, ← Entry.raw_forwardable h, chunks_map, List.map_map]
  apply List.map_congr_left
  intro piece _
  rw [Value.ofBatch, Entry.values_eq]
  rfl

theorem Smooth.batches (hsmooth : r.Smooth docs threshold)
    (h : r.plan.Untroubled docs delay threshold) (hr : Reachable r) :
    r.world.destination.batches <+: r.plan.pieces threshold docs := by
  cases hsmooth with
  | before hstage =>
    rw [world_of_before hstage, ((reachable_standing hr).quiet hstage).batches]
    exact List.nil_prefix
  | @moving t hstage hdocs _ hcut =>
    obtain ⟨hinv, ho⟩ := h.invariant hr hstage
    obtain ⟨_, hcapacity⟩ := reachable_orderly hr hstage
    obtain ⟨settled, happlied, hfirst, _⟩ := hinv.standing.applied
    have hpieces := (hcut.pieces hinv ho).1
    rw [hcapacity, hdocs] at hpieces
    rw [world_of_moving hstage, happlied.batches, r.plan.pieces_eq h.readable]
    have hsettled : settled.map (fun b => Value.ofBatch b.2) =
        (settled.map Prod.snd).map Value.ofBatch := by
      rw [List.map_map]
      rfl
    rw [hsettled]
    exact ((hfirst.map Prod.snd).trans hpieces).map Value.ofBatch

end Run

end OplogRelay
