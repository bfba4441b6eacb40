import Mathlib.Data.Nat.Log
import Mathlib.Order.Monotone.Basic
import Mathlib.Order.WellFounded
import Mathlib.Tactic.Ring
import OplogRelay.Number.Moment
/-!
The row of the clock's moments: a later moment lies more steps away from zero, every moment is the one
nearest to itself, and rounding keeps the order. So a sum of moments and spans is never earlier than
either, and the sum of a moment and the distance to a later one misses that one by one place at most.
-/
namespace OplogRelay

namespace Binary64

theorem div_le_roundDiv (num den : Nat) : num / den ≤ roundDiv num den := by
  unfold roundDiv
  dsimp only
  split
  · exact Nat.le_refl _
  · split
    · exact Nat.le_succ _
    · exact Nat.le_add_right _ _

theorem roundDiv_le (num den : Nat) : roundDiv num den ≤ num / den + 1 := by
  unfold roundDiv
  dsimp only
  split
  · exact Nat.le_succ _
  · split
    · exact Nat.le_refl _
    · exact Nat.add_le_add_left (Nat.le_of_lt_succ (Nat.mod_lt _ Nat.zero_lt_two)) _

theorem roundDiv_mono {m n : Nat} (den : Nat) (h : m ≤ n) : roundDiv m den ≤ roundDiv n den := by
  rcases Nat.lt_or_eq_of_le (Nat.div_le_div_right (c := den) h) with hlt | heq
  · exact (roundDiv_le m den).trans (Nat.succ_le_of_lt hlt |>.trans (div_le_roundDiv n den))
  · -- the same quotient, so that the remainders are in order
    have hmod : m % den ≤ n % den := by
      have hm := Nat.div_add_mod m den
      have hn := Nat.div_add_mod n den
      rw [heq] at hm
      omega
    unfold roundDiv
    dsimp only
    rw [heq]
    have hparity := Nat.mod_lt (n / den) Nat.zero_lt_two
    split <;> split <;> (try split) <;> (try split) <;> omega

theorem two_mul_roundDiv_le (num den : Nat) : 2 * (roundDiv num den * den) ≤ 2 * num + den := by
  have hdiv := Nat.div_add_mod num den
  have hsucc : (num / den + 1) * den = den * (num / den) + den := by ring
  have hsame : num / den * den = den * (num / den) := Nat.mul_comm _ _
  unfold roundDiv
  dsimp only
  split
  · omega
  · split
    · omega
    · rcases Nat.mod_two_eq_zero_or_one (num / den) with hparity | hparity <;> rw [hparity]
      · rw [Nat.add_zero]
        omega
      · omega

theorem le_two_mul_roundDiv (num : Nat) {den : Nat} (hden : 0 < den) :
    2 * num ≤ 2 * (roundDiv num den * den) + den := by
  have hdiv := Nat.div_add_mod num den
  have hmod := Nat.mod_lt num hden
  have hsucc : (num / den + 1) * den = den * (num / den) + den := by ring
  have hsame : num / den * den = den * (num / den) := Nat.mul_comm _ _
  unfold roundDiv
  dsimp only
  split
  · omega
  · split
    · omega
    · rcases Nat.mod_two_eq_zero_or_one (num / den) with hparity | hparity <;> rw [hparity]
      · rw [Nat.add_zero]
        omega
      · omega

theorem roundDiv_mul (k : Nat) {den : Nat} (hden : 0 < den) : roundDiv (k * den) den = k := by
  unfold roundDiv
  dsimp only
  rw [Nat.mul_div_cancel k hden, Nat.mul_mod_left, if_pos (by omega)]

theorem exponentBelow_eq {k n : Nat} (h : n < 1 <<< (1 <<< k)) : exponentBelow k n = n.log2 := by
  induction k generalizing n with
  | zero =>
    have hsmall : n < 2 := h
    obtain rfl | rfl : n = 0 ∨ n = 1 := by omega
    · rfl
    · rfl
  | succ k ih =>
    rw [exponentBelow]
    split
    · next hlow => exact ih hlow
    · next hhigh =>
      simp only [Nat.one_shiftLeft] at h hhigh ih ⊢
      have hpow : 2 ^ 2 ^ (k + 1) = 2 ^ 2 ^ k * 2 ^ 2 ^ k := by rw [← pow_add, pow_succ, Nat.mul_two]
      have hupper : n / 2 ^ 2 ^ k < 2 ^ 2 ^ k := Nat.div_lt_of_lt_mul (hpow ▸ h)
      have hlower : 2 ^ k ≤ Nat.log 2 n := Nat.le_log_of_pow_le Nat.one_lt_two (Nat.not_lt.mp hhigh)
      rw [Nat.shiftRight_eq_div_pow, ih hupper, Nat.log2_eq_log_two, Nat.log2_eq_log_two,
        Nat.log_div_base_pow]
      exact Nat.add_sub_cancel' hlower

theorem doublings_eq (units : Nat) : doublings units = units.log2 - 52 := by
  rw [doublings]
  split
  · next h => rw [exponentBelow_eq h]
  · rfl

theorem spacing_eq (units : Nat) : spacing units = 2 ^ (units.log2 - 52) := by
  rw [spacing, doublings_eq, Nat.one_shiftLeft]

theorem spacing_pos (n : Nat) : 0 < spacing n := by
  rw [spacing_eq]
  exact Nat.two_pow_pos _

theorem spacing_mono {m n : Nat} (h : m ≤ n) : spacing m ≤ spacing n := by
  rw [spacing_eq, spacing_eq]
  refine Nat.pow_le_pow_right Nat.zero_lt_two (Nat.sub_le_sub_right ?_ 52)
  rcases Nat.eq_zero_or_pos m with rfl | hpos
  · exact Nat.zero_le _
  · exact (Nat.le_log2 (by omega)).mpr ((Nat.log2_self_le hpos.ne').trans h)

end Binary64

namespace Moment

variable {m n place start moment : Nat}

theorem steps_eq (place : Nat) : steps place =
    if place < 2 ^ 53 then place else (2 ^ 52 + place % 2 ^ 52) * 2 ^ (place / 2 ^ 52 - 1) := by
  simp only [steps, Nat.shiftLeft_eq, Nat.one_mul]

theorem steps_of_exponent (exponent digits : Nat) (hlow : 2 ^ 52 ≤ digits) (hhigh : digits ≤ 2 ^ 53) :
    steps (exponent * 2 ^ 52 + digits) = digits * 2 ^ exponent := by
  rw [steps_eq]
  split
  · obtain rfl : exponent = 0 := by omega
    omega
  · rcases Nat.lt_or_eq_of_le hhigh with hlt | rfl
    · have hdiv : (exponent * 2 ^ 52 + digits) / 2 ^ 52 = exponent + 1 := by omega
      have hmod : (exponent * 2 ^ 52 + digits) % 2 ^ 52 = digits - 2 ^ 52 := by omega
      rw [hdiv, hmod, Nat.add_sub_cancel, Nat.add_sub_cancel' hlow]
    · have hdiv : (exponent * 2 ^ 52 + 2 ^ 53) / 2 ^ 52 = exponent + 2 := by omega
      have hmod : (exponent * 2 ^ 52 + 2 ^ 53) % 2 ^ 52 = 0 := by omega
      rw [hdiv, hmod, show exponent + 2 - 1 = exponent + 1 by omega, pow_succ]
      ring

def width (place : Nat) : Nat := 2 ^ (place / 2 ^ 52 - 1)

theorem width_pos (place : Nat) : 0 < width place := Nat.two_pow_pos _

theorem width_succ_le (place : Nat) : width (place + 1) ≤ 2 * width place := by
  rw [width, width, ← pow_succ']
  exact Nat.pow_le_pow_right Nat.zero_lt_two (by omega)

theorem exists_exponent (place : Nat) : place < 2 ^ 52 ∨ ∃ exponent digits, 2 ^ 52 ≤ digits ∧
    digits < 2 ^ 53 ∧ place = exponent * 2 ^ 52 + digits ∧ width place = 2 ^ exponent := by
  rcases Nat.lt_or_ge place (2 ^ 52) with hlow | hhigh
  · exact .inl hlow
  · refine .inr ⟨place / 2 ^ 52 - 1, 2 ^ 52 + place % 2 ^ 52, ?_, ?_, ?_, rfl⟩ <;> omega

theorem steps_of_lt (h : place < 2 ^ 53) : steps place = place := by
  rw [steps_eq, if_pos h]

theorem steps_succ (place : Nat) : steps (place + 1) = steps place + width place := by
  rcases exists_exponent place with hlow | ⟨exponent, digits, hlow, hhigh, hplace, hwidth⟩
  · rw [steps_of_lt (by omega), steps_of_lt (by omega), width, show place / 2 ^ 52 - 1 = 0 by omega,
      pow_zero]
  · rw [hwidth, hplace, steps_of_exponent exponent digits hlow hhigh.le, Nat.add_assoc,
      steps_of_exponent exponent (digits + 1) (by omega) hhigh, Nat.succ_mul]

theorem steps_strictMono : StrictMono steps :=
  strictMono_nat_of_lt_succ fun place => by
    rw [steps_succ]
    exact Nat.lt_add_of_pos_right (width_pos place)

theorem le_steps (place : Nat) : place ≤ steps place := steps_strictMono.le_apply

@[simp]
theorem steps_zero : steps 0 = 0 := steps_of_lt (by decide)

theorem nearest_eq (steps : Nat) : nearest steps =
    (steps.log2 - 52) * 2 ^ 52 + Binary64.roundDiv steps (2 ^ (steps.log2 - 52)) := by
  rw [nearest, Binary64.doublings_eq, Binary64.spacing_eq, Nat.shiftLeft_eq]

theorem nearest_cases (steps : Nat) : steps < 2 ^ 53 ∧ nearest steps = steps ∨
    2 ^ 53 ≤ steps ∧ ∃ exponent, steps.log2 = exponent + 52 ∧ 2 ^ 52 ≤ steps / 2 ^ exponent ∧
      steps / 2 ^ exponent < 2 ^ 53 ∧
      nearest steps = exponent * 2 ^ 52 + Binary64.roundDiv steps (2 ^ exponent) := by
  rcases Nat.lt_or_ge steps (2 ^ 53) with hlow | hhigh
  · refine .inl ⟨hlow, ?_⟩
    have hlog : steps.log2 - 52 = 0 := by
      rcases Nat.eq_zero_or_pos steps with rfl | hpos
      · decide
      · have := (Nat.log2_lt hpos.ne').mpr hlow
        omega
    have hround := Binary64.roundDiv_mul steps Nat.one_pos
    rw [Nat.mul_one] at hround
    simp only [nearest_eq, hlog, pow_zero, Nat.zero_mul, Nat.zero_add, hround]
  · have hne : steps ≠ 0 := by omega
    have hlog : 53 ≤ steps.log2 := (Nat.le_log2 hne).mpr hhigh
    obtain ⟨exponent, hexponent⟩ := Nat.exists_eq_add_of_le' (show 52 ≤ steps.log2 by omega)
    refine .inr ⟨hhigh, exponent, hexponent, ?_, ?_, ?_⟩
    · rw [Nat.le_div_iff_mul_le (Nat.two_pow_pos _), ← pow_add, Nat.add_comm 52, ← hexponent]
      exact Nat.log2_self_le hne
    · rw [Nat.div_lt_iff_lt_mul (Nat.two_pow_pos _), ← pow_add,
        show 53 + exponent = steps.log2 + 1 by omega]
      exact Nat.lt_log2_self
    · rw [nearest_eq, hexponent, Nat.add_sub_cancel]

/-- What a number is rounded to. -/
theorem steps_nearest (n : Nat) :
    steps (nearest n) = Binary64.roundDiv n (Binary64.spacing n) * Binary64.spacing n := by
  rw [Binary64.spacing_eq]
  rcases nearest_cases n with ⟨hlow, hnear⟩ | ⟨-, exponent, hlog, hdigits, hsmall, hnear⟩
  · have hlog : n.log2 - 52 = 0 := by
      rcases Nat.eq_zero_or_pos n with rfl | hpos
      · decide
      · have := (Nat.log2_lt hpos.ne').mpr hlow
        omega
    have hround := Binary64.roundDiv_mul n Nat.one_pos
    rw [Nat.mul_one] at hround
    rw [hnear, steps_of_lt hlow, hlog, pow_zero, hround, Nat.mul_one]
  · rw [hnear, hlog, Nat.add_sub_cancel, steps_of_exponent exponent _
      (hdigits.trans (Binary64.div_le_roundDiv _ _)) ((Binary64.roundDiv_le _ _).trans hsmall)]

theorem spacing_steps (place : Nat) : Binary64.spacing (steps place) = width place := by
  rw [Binary64.spacing_eq]
  rcases exists_exponent place with hlow | ⟨exponent, digits, hlow, hhigh, hplace, hwidth⟩
  · have hlog : place.log2 < 53 := by
      rcases Nat.eq_zero_or_pos place with rfl | hpos
      · decide
      · exact (Nat.log2_lt hpos.ne').mpr (by omega)
    rw [steps_of_lt (by omega), width, show place.log2 - 52 = 0 by omega,
      show place / 2 ^ 52 - 1 = 0 by omega]
  · have hpos := Nat.two_pow_pos exponent
    have hsteps : steps place = digits * 2 ^ exponent := by
      rw [hplace, steps_of_exponent exponent digits hlow hhigh.le]
    have hlog : (steps place).log2 = exponent + 52 := by
      refine (Nat.log2_eq_iff (hsteps ▸ Nat.mul_ne_zero (by omega) hpos.ne')).mpr ⟨?_, ?_⟩
      · rw [hsteps, pow_add, Nat.mul_comm]
        exact Nat.mul_le_mul_right _ hlow
      · rw [hsteps, show exponent + 52 + 1 = 53 + exponent by omega, pow_add]
        exact Nat.mul_lt_mul_of_pos_right hhigh hpos
    rw [hlog, hwidth, Nat.add_sub_cancel]

theorem width_dvd_steps (place : Nat) : width place ∣ steps place := by
  rcases exists_exponent place with hlow | ⟨exponent, digits, hlow, hhigh, hplace, hwidth⟩
  · rw [width, show place / 2 ^ 52 - 1 = 0 by omega, pow_zero]
    exact Nat.one_dvd _
  · rw [hwidth, hplace, steps_of_exponent exponent digits hlow hhigh.le]
    exact Nat.dvd_mul_left _ _

@[simp]
theorem nearest_steps (place : Nat) : nearest (steps place) = place := by
  apply steps_strictMono.injective
  obtain ⟨digits, hdigits⟩ := width_dvd_steps place
  rw [steps_nearest, spacing_steps, hdigits, Nat.mul_comm (width place) digits,
    Binary64.roundDiv_mul digits (width_pos place)]

theorem nearest_mono (h : m ≤ n) : nearest m ≤ nearest n := by
  rcases nearest_cases m with ⟨hlow, hm⟩ | ⟨hlarge, a, halog, hadigits, hasmall, hm⟩ <;>
    rcases nearest_cases n with ⟨hhigh, hn⟩ | ⟨hlater, b, hblog, hbdigits, -, hn⟩
  · rw [hm, hn]
    exact h
  · have hlog := (Nat.le_log2 (by omega)).mpr hlater
    have hround := Binary64.div_le_roundDiv n (2 ^ b)
    rw [hm, hn]
    omega
  · omega
  · have hle : a ≤ b := by
      have := (Nat.le_log2 (by omega)).mpr ((Nat.log2_self_le (by omega)).trans h)
      omega
    rw [hm, hn]
    rcases Nat.lt_or_eq_of_le hle with hlt | rfl
    · -- a place of an earlier binade, or the first one of the next
      have hup := (Binary64.roundDiv_le m (2 ^ a)).trans (Nat.succ_le_of_lt hasmall)
      have hdown := hbdigits.trans (Binary64.div_le_roundDiv n (2 ^ b))
      have hnext : (a + 1) * 2 ^ 52 ≤ b * 2 ^ 52 := Nat.mul_le_mul_right _ hlt
      omega
    · exact Nat.add_le_add_left (Binary64.roundDiv_mono _ h) _

theorem nearest_le (h : n ≤ steps place) : nearest n ≤ place :=
  (nearest_mono h).trans_eq (nearest_steps place)

theorem le_nearest (h : steps place ≤ n) : place ≤ nearest n :=
  (nearest_steps place).symm.trans_le (nearest_mono h)

@[simp]
theorem nearest_zero : nearest 0 = 0 := by decide

theorem gap_eq_zero (h : moment ≤ start) : gap start moment = 0 := by
  rw [gap, Nat.sub_eq_zero_of_le (steps_strictMono.monotone h), nearest_zero, steps_zero]

theorem gap_mono (h : m ≤ n) : gap start m ≤ gap start n :=
  steps_strictMono.monotone
    (nearest_mono (Nat.sub_le_sub_right (steps_strictMono.monotone h) (steps start)))

theorem steps_nearest_width (place : Nat) : steps (nearest (width place)) = width place := by
  rcases exists_exponent place with hlow | ⟨exponent, _, _, _, _, hwidth⟩
  · have hone : width place = 1 := by rw [width, show place / 2 ^ 52 - 1 = 0 by omega, pow_zero]
    rw [hone]
    decide
  · rw [hwidth, steps_nearest, Binary64.spacing_eq, Nat.log2_two_pow]
    obtain ⟨k, hk⟩ := Nat.exists_eq_add_of_le' (Nat.sub_le exponent 52)
    have hpow : 2 ^ exponent = 2 ^ k * 2 ^ (exponent - 52) := by rw [← pow_add, ← hk]
    nth_rewrite 1 [hpow]
    rw [Binary64.roundDiv_mul _ (Nat.two_pow_pos _), ← hpow]

theorem width_le_gap (h : start < moment) : width start ≤ gap start moment := by
  have hle : width start ≤ steps moment - steps start := by
    have hnext := steps_strictMono.monotone (Nat.succ_le_of_lt h)
    rw [Nat.succ_eq_add_one, steps_succ] at hnext
    omega
  calc width start = steps (nearest (width start)) := (steps_nearest_width start).symm
    _ ≤ gap start moment := steps_strictMono.monotone (nearest_mono hle)

/-- A moment set forward by its distance to a later one misses that one by one place at most. -/
theorem nearest_add_gap_le (h : start ≤ moment) :
    nearest (steps start + gap start moment) ≤ moment + 1 := by
  have hle := steps_strictMono.monotone h
  have hround := Binary64.two_mul_roundDiv_le (steps moment - steps start)
    (Binary64.spacing (steps moment - steps start))
  rw [← steps_nearest] at hround
  have hspacing := Binary64.spacing_mono (Nat.sub_le (steps moment) (steps start))
  rw [spacing_steps] at hspacing
  apply nearest_le
  rw [steps_succ, gap]
  omega

theorem le_nearest_add_gap (h : start ≤ moment) :
    moment ≤ nearest (steps start + gap start moment) + 1 := by
  cases moment with
  | zero => exact Nat.zero_le _
  | succ before =>
    have hle := steps_strictMono.monotone h
    have hround := Binary64.le_two_mul_roundDiv (steps (before + 1) - steps start)
      (Binary64.spacing_pos (steps (before + 1) - steps start))
    rw [← steps_nearest] at hround
    have hspacing := Binary64.spacing_mono (Nat.sub_le (steps (before + 1)) (steps start))
    rw [spacing_steps] at hspacing
    have hwidth := width_succ_le before
    have hsucc := steps_succ before
    refine Nat.succ_le_succ (le_nearest ?_)
    rw [gap]
    omega

end Moment

end OplogRelay
