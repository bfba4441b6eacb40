import OplogRelay.Proofs.Run.Spinning
import OplogRelay.Proofs.Run.Timely
import OplogRelay.Proofs.Transfer.Draining
/-!
Every run ends whose wait for new entries does. Whatever was done to a run before, all that its parts do
at one moment comes to a rest there; and once nothing more is done to it, the moments at which something
is left to do are finitely many.
-/
namespace OplogRelay

namespace Transfer

variable {t u : Transfer} {threshold : Timestamp}

/-- How far a transfer is from its end: until it is asked to stop by what is left to be read and by the waits
of the forwarder, and then by the rounds that are left. -/
def remainder (t : Transfer) : (Nat × Nat × Nat × Nat) ⊕ (Nat × Nat × Nat) :=
  if t.shutdown then .inl t.stopping else .inr t.distance

def Nearer : (Nat × Nat × Nat × Nat) ⊕ (Nat × Nat × Nat) →
    (Nat × Nat × Nat × Nat) ⊕ (Nat × Nat × Nat) → Prop :=
  Sum.Lex Sooner Closer

theorem nearer_wellFounded : WellFounded Nearer := Sum.lex_wf sooner_wellFounded closer_wellFounded

theorem remainder_of_asked (h : t.shutdown = true) : t.remainder = .inl t.stopping := by
  rw [remainder, if_pos h]

theorem remainder_of_unasked (h : t.shutdown = false) : t.remainder = .inr t.distance := by
  rw [remainder, h]
  rfl

theorem Restless.nearer (h : t.Restless) (hinv : t.Invariant threshold) (ho : t.Orderly)
    (hcounts : t.CountsOn) (hsets : t.interval.SetsForward t.now) (hstep : t.step? = some u) :
    Nearer u.remainder t.remainder := by
  have hmoves := moves_of_step? hstep
  cases hasked : t.shutdown with
  | true =>
    rw [remainder_of_asked hasked, remainder_of_asked (hinv.asked_of_moves hmoves hasked)]
    exact .inl (hinv.descends hasked h.tail hcounts hstep)
  | false =>
    rw [remainder_of_unasked hasked]
    cases hasked' : u.shutdown with
    | true =>
      rw [remainder_of_asked hasked']
      exact .sep _ _
    | false =>
      rw [remainder_of_unasked hasked']
      exact .inr (h.descends hinv ho hasked hcounts hsets hstep)

theorem Restless.nearer_of_rest (h : t.Restless) (hinv : t.Invariant threshold) (ho : t.Orderly)
    (hdone : t.isDone = false) (hrest : t.step? = none) : ∃ moment, t.due? = some moment ∧
      Nearer (remainder { t with now := moment }) t.remainder := by
  by_cases hasked : t.shutdown = true
  · obtain ⟨moment, hdue, hsooner⟩ := sooner_of_rest hasked hdone hrest
    refine ⟨moment, hdue, ?_⟩
    rw [remainder_of_asked hasked, remainder_of_asked (t := { t with now := moment }) hasked]
    exact .inl hsooner
  · have hunasked : t.shutdown = false := by simpa using hasked
    obtain ⟨moment, hdue, hcloser⟩ := h.closer_of_rest hinv ho hdone hrest
    refine ⟨moment, hdue, ?_⟩
    rw [remainder_of_unasked hunasked,
      remainder_of_unasked (t := { t with now := moment }) hunasked]
    exact .inr hcloser

end Transfer

namespace Run

variable {r s : Run} {t u : Transfer}

theorem reachable_restless {steps : Int} (h : Reachable r) (hidle : r.plan.idle.span = .finite steps)
    (hstage : r.stage = .moving t) : t.Restless := by
  refine h.transfer hstage ?_ ?_
  · intro w ns threshold interval _ hinterval
    exact Transfer.restless_start threshold ns hidle (Plan.Times.isPositive hinterval h)
  · intro q t u hq hstage hrestless hgoes
    obtain ⟨threshold, _, hinv⟩ := (reachable_standing hq).invariant hstage
    exact hrestless.goes hinv hgoes

theorem TicksOn.moving (h : r.TicksOn) (hr : Reachable r) (hstage : r.stage = .moving t) :
    t.interval.SetsForward t.now := by
  rw [TicksOn, world_of_moving hstage] at h
  rcases reachable_times hr hstage with hwait | hnone
  · rw [Quantity.span_of_wait? hwait]
    exact h
  · rw [hnone]
    intro _ _ hafter
    cases hafter

/-- A run whose wait for new entries ends. -/
structure Bounded (r : Run) : Prop where
  reachable : Reachable r
  idle : ∃ steps, r.plan.idle.span = .finite steps

theorem Bounded.leads (h : r.Bounded) (hs : Leads r s) : s.Bounded := by
  refine ⟨h.reachable.leads hs, ?_⟩
  rw [plan_of_leads h.reachable hs]
  exact h.idle

theorem Bounded.step? (h : r.Bounded) (hstep : r.step? = some s) : s.Bounded :=
  h.leads (.single (step_of_step? hstep))

/-- The clock of a run can be set forward by both spans that its parts wait for. -/
def Advances (r : Run) : Prop := r.CountsOn ∧ r.TicksOn

theorem Bounded.nearer (h : r.Bounded) (hadvances : r.Advances) (hstage : r.stage = .moving t)
    (hstep : t.step? = some u) : Transfer.Nearer u.remainder t.remainder := by
  obtain ⟨threshold, _, hinv⟩ := (reachable_standing h.reachable).invariant hstage
  obtain ⟨horderly, _⟩ := reachable_orderly h.reachable hstage
  obtain ⟨steps, hidle⟩ := h.idle
  exact (reachable_restless h.reachable hidle hstage).nearer hinv horderly
    (hadvances.1.moving h.reachable hstage) (hadvances.2.moving h.reachable hstage) hstep

theorem Bounded.nearer_of_rest (h : r.Bounded) (hstage : r.stage = .moving t)
    (hdone : t.isDone = false) (hrest : t.step? = none) : ∃ moment, t.due? = some moment ∧
      Transfer.Nearer (Transfer.remainder { t with now := moment }) t.remainder := by
  obtain ⟨threshold, _, hinv⟩ := (reachable_standing h.reachable).invariant hstage
  obtain ⟨horderly, _⟩ := reachable_orderly h.reachable hstage
  obtain ⟨steps, hidle⟩ := h.idle
  exact (reachable_restless h.reachable hidle hstage).nearer_of_rest hinv horderly hdone hrest

theorem Advances.step? (h : r.Advances) (hr : r.Standing) (hstep : r.step? = some s) : s.Advances := by
  have hplan := plan_of_step hr (step_of_step? hstep)
  have hnow := now_of_step? hr hstep
  rw [Advances, CountsOn, TicksOn, hplan, hnow]
  exact h

theorem Standing.outcome_of_over (h : r.Standing) (hover : r.isOver = true) : r.outcome ≠ none := by
  have hended {before : Lifecycle} {result : Except Failure Unit} (h : r.Ended before result) :
      r.outcome ≠ none := by
    rcases h.outcome with hreports | ⟨_, _, _, _, houtcome⟩
    · cases result with
      | ok =>
        obtain ⟨stats, hok, _⟩ := hreports
        simp [hok]
      | error e =>
        have herror : r.outcome = some (.error e) := hreports
        simp [herror]
    · simp [houtcome]
  cases h with
  | fresh _ _ _ _ hfalse => cases hfalse.symm.trans hover
  | misnamed _ _ _ _ _ houtcome => simp [houtcome]
  | barred _ _ _ _ _ h => exact hended h
  | streaming _ _ _ _ _ hfalse => cases hfalse.symm.trans hover
  | untimed _ _ _ _ _ _ _ _ h => exact hended h
  | ended _ _ _ _ _ _ h => exact hended h

/-- Left to itself the run gets to a moment from which the clock cannot be set forward by one of its spans. -/
def Halts (r : Run) : Prop := ∃ n, ¬ (Timed.run none n r).Advances

theorem Bounded.finishes (h : r.Bounded) (hstarted : r.started = true) : r.Finishes ∨ r.Halts := by
  have keeps {r s : Run} (h : r.Bounded) (hnext : Timed.tick? none r = some s) : s.Bounded :=
    h.leads (.single (step_of_tick? hnext))
  cases hover : r.isOver with
  | true => exact .inl (finishes_of_over hover)
  | false =>
    obtain ⟨t, hstage⟩ := (reachable_standing h.reachable).moving_of_live hstarted hover
    refine finishes_or_of_descent (Q := fun r => ¬ r.Advances) Transfer.nearer_wellFounded
      Transfer.remainder keeps ?_ ?_ h hstage
    · intro r t u h hstage hstep
      by_cases hadvances : r.Advances
      · exact .inr (h.nearer hadvances hstage hstep)
      · exact .inl hadvances
    · intro r t h hstage hdone hrest
      exact h.nearer_of_rest hstage hdone hrest

/-- Left to itself, a run comes to its end after finitely many pieces of work and jumps of the clock,
and returns or fails. -/
def Concludes (r : Run) : Prop :=
  ∃ n, ∀ m, n ≤ m → (Timed.run none m r).isOver = true ∧ (Timed.run none m r).outcome ≠ none

theorem Bounded.concludes (h : r.Bounded) (hstarted : r.started = true) : r.Concludes ∨ r.Halts := by
  refine (h.finishes hstarted).imp_left ?_
  rintro ⟨n, hn⟩
  refine ⟨n, fun m hm => ⟨hn m hm, ?_⟩⟩
  have hreach := h.reachable.leads (leads_ticks m h.reachable)
  exact (reachable_standing hreach).outcome_of_over (hn m hm)

end Run

end OplogRelay
