import OplogRelay.Number.Quantity
import OplogRelay.Proofs.Number.Moments
/-!
Spans of time. A span leads to no earlier moment, and a longer time to no earlier one than a shorter. But
a span that is too short for the clock leads to no later one either: that a span sets the clock forward
has to be asked for.
-/
namespace OplogRelay

namespace Span

variable {s : Span} {start now moment due : Nat}

/-- A clock that is set forward by the span shows a later moment, if the span has any length and an end. -/
def SetsForward (start : Nat) (s : Span) : Prop :=
  s.IsPositive → ∀ moment, s.after start = some moment → start < moment

/-- A clock that is set forward by the span shows no moment that is still to come. -/
def HasPassed (start now : Nat) (s : Span) : Prop := ∃ moment, s.after start = some moment ∧ moment ≤ now

instance (start : Nat) (s : Span) : Decidable (s.SetsForward start) :=
  match h : s.after start with
  | none => isTrue fun _ _ hafter => by cases h.symm.trans hafter
  | some moment =>
    decidable_of_iff (s.IsPositive → start < moment)
      ⟨fun hlt hpositive _ hafter => by cases h.symm.trans hafter; exact hlt hpositive,
        fun hsets hpositive => hsets hpositive moment h⟩

theorem after_finite (start : Nat) (steps : Int) : (Span.finite steps).after start =
    some (Moment.nearest (Moment.steps start + Moment.steps (Moment.nearest steps.toNat))) :=
  rfl

theorem after_eq_none_iff : s.after start = none ↔ s = .unbounded := by
  cases s <;> simp [after]

theorem le_after (h : s.after start = some moment) : start ≤ moment := by
  cases s with
  | finite steps =>
    obtain rfl := Option.some.inj ((after_finite start steps).symm.trans h)
    exact Moment.le_nearest (Nat.le_add_right _ _)
  | unbounded => cases h

theorem after_mono (h : s.after start = some moment) (hle : start ≤ now)
    (hdue : s.after now = some due) : moment ≤ due := by
  cases s with
  | finite steps =>
    obtain rfl := Option.some.inj ((after_finite start steps).symm.trans h)
    obtain rfl := Option.some.inj ((after_finite now steps).symm.trans hdue)
    exact Moment.nearest_mono (Nat.add_le_add_right (Moment.steps_strictMono.monotone hle) _)
  | unbounded => cases h

theorem HasPassed.since {begun : Nat} (h : s.HasPassed begun now) (hle : start ≤ begun) :
    s.HasPassed start now := by
  obtain ⟨due, hdue, hcame⟩ := h
  cases hafter : s.after start with
  | none =>
    rw [after_eq_none_iff] at hafter
    subst hafter
    cases hdue
  | some moment => exact ⟨moment, hafter, (after_mono hafter hle hdue).trans hcame⟩

theorem arrival_of_after (h : s.after start = some moment) : s.arrival start = moment := by
  rw [arrival, h, Option.getD_some]

theorem le_arrival (start : Nat) (s : Span) : start ≤ s.arrival start := by
  unfold arrival
  cases h : s.after start with
  | none => exact Nat.le_max_left _ _
  | some moment => exact le_after h

theorem arrival_mono (s : Span) (hle : start ≤ now) : s.arrival start ≤ s.arrival now := by
  cases s with
  | finite steps =>
    rw [arrival_of_after (after_finite start steps), arrival_of_after (after_finite now steps)]
    exact after_mono (after_finite start steps) hle (after_finite now steps)
  | unbounded => exact max_le_max_right _ hle

/-- A moment by which a span that ends has passed, however the difference is rounded. -/
def horizon (start : Nat) : Span → Nat
  | .finite steps => if 0 < steps then Moment.steps start + Moment.steps steps.toNat else 0
  | .unbounded => 0

theorem horizon_of_not_positive (h : ¬ s.IsPositive) : s.horizon start = 0 := by
  cases s with
  | finite steps => exact if_neg h
  | unbounded => rfl

theorem elapsed_of_horizon {steps : Int} (h : (Span.finite steps).horizon start ≤ now) :
    (Span.finite steps).elapsed start now = true := by
  by_cases hpositive : 0 < steps
  case neg =>
    have hgap : (0 : Int) ≤ Moment.gap start now := Int.natCast_nonneg _
    simp only [elapsed, decide_eq_true_eq]
    omega
  rw [horizon, if_pos hpositive] at h
  have hfar : Moment.steps steps.toNat ≤ Moment.steps now - Moment.steps start := by
    have hnow := Moment.le_steps now
    have hsum : Moment.steps start + Moment.steps steps.toNat ≤ now := h
    omega
  have hgap : steps.toNat ≤ Moment.gap start now := by
    calc steps.toNat ≤ Moment.steps steps.toNat := Moment.le_steps _
      _ = Moment.steps (Moment.nearest (Moment.steps steps.toNat)) := by rw [Moment.nearest_steps]
      _ ≤ Moment.gap start now := Moment.steps_strictMono.monotone (Moment.nearest_mono hfar)
  simp only [elapsed, decide_eq_true_eq]
  omega

end Span

theorem Quantity.span_of_wait? {q : Quantity} {s : Span} (h : q.wait? = .ok s) : s = q.span := by
  unfold wait? at h
  split at h
  · exact (Except.ok.inj h).symm
  · split at h
    · exact (Except.ok.inj h).symm
    · cases h

theorem Binary64.one_pos : 0 < Binary64.one := by
  rw [Binary64.one, Nat.one_shiftLeft]
  exact Nat.two_pow_pos 1074

theorem Quantity.span_isPositive {q : Quantity} (h : q.isNonpositive = false) :
    q.span.IsPositive := by
  cases q with
  | whole n =>
    have hpos : 0 < n := by simpa [isNonpositive] using h
    exact Int.mul_pos hpos (Int.natCast_pos.mpr Binary64.one_pos)
  | real x =>
    cases x with
    | nan => exact trivial
    | infinity negative =>
      cases negative with
      | true => cases h
      | false => exact trivial
    | finite negative units =>
      obtain ⟨rfl, hne⟩ : negative = false ∧ units ≠ 0 := by
        simpa [isNonpositive, Binary64.isNonpositive] using h
      exact Int.natCast_pos.mpr (Nat.pos_of_ne_zero hne)

def Quantity.isFinite : Quantity → Bool
  | .whole _ => true
  | .real x => decide x.IsFinite

namespace Moment

def second (n : Nat) : Nat := (Span.seconds n).arrival 0

variable {now tick : Nat}

theorem arrival_gap (now tick : Nat) :
    (Span.finite (gap now tick)).arrival now = nearest (steps now + gap now tick) := by
  have hsame : steps (nearest (gap now tick)) = gap now tick := by rw [gap, nearest_steps]
  rw [Span.arrival_of_after (Span.after_finite now _), Int.toNat_natCast, hsame]

theorem lt_arrival_gap (h : now < tick) : now < (Span.finite (gap now tick)).arrival now := by
  rw [arrival_gap]
  have hsum : steps (now + 1) ≤ steps now + gap now tick := by
    rw [steps_succ]
    exact Nat.add_le_add_left (width_le_gap h) _
  exact Nat.lt_of_succ_le (le_nearest hsum)

/-- A wait for a later moment is over one place too late at most. -/
theorem arrival_gap_le (h : now ≤ tick) : (Span.finite (gap now tick)).arrival now ≤ tick + 1 := by
  rw [arrival_gap]
  exact nearest_add_gap_le h

theorem le_arrival_gap (h : now ≤ tick) : tick ≤ (Span.finite (gap now tick)).arrival now + 1 := by
  rw [arrival_gap]
  exact le_nearest_add_gap h

theorem arrival_gap_of_le (h : tick ≤ now) : (Span.finite (gap now tick)).arrival now = now := by
  rw [arrival_gap, gap_eq_zero h, Nat.add_zero, nearest_steps]

end Moment

end OplogRelay
