import Mathlib.Tactic.Ring
import OplogRelay.Proofs.Number.Spans
/-!
Where rounding leaves the finite numbers, and what that means for numbers of seconds: a number has a
thousandfold exactly below a bound, and a reading of the clock always has an integer part.
-/
namespace OplogRelay

namespace Binary64

theorem two_mul_le_roundDiv (num : Nat) {den : Nat} (hden : 0 < den) :
    2 * num ≤ 2 * (roundDiv num den * den) + den ∧
      (roundDiv num den % 2 = 1 → 2 * num < 2 * (roundDiv num den * den) + den) := by
  have hdiv := Nat.div_add_mod num den
  have hmod := Nat.mod_lt num hden
  have hsucc : (num / den + 1) * den = den * (num / den) + den := by ring
  have hsame : num / den * den = den * (num / den) := Nat.mul_comm _ _
  unfold roundDiv
  dsimp only
  split
  · omega
  · split
    · omega
    · rcases Nat.mod_two_eq_zero_or_one (num / den) with hparity | hparity
      · rw [hparity, Nat.add_zero]
        omega
      · rw [hparity]
        omega

/-- Rounded to the spacing of its size, a number passes a power of two only if it is less than half a
spacing away from it. -/
theorem rounded_lt_iff (e num : Nat) :
    roundDiv num (spacing num) * spacing num < 2 ^ (e + 54) ↔ num + 2 ^ e < 2 ^ (e + 54) := by
  have hpos : 0 < 2 ^ e := Nat.two_pow_pos e
  have htop : 2 ^ (e + 54) = 2 ^ 54 * 2 ^ e := by rw [pow_add, Nat.mul_comm]
  have hmiddle : 2 ^ (e + 53) = 2 ^ 53 * 2 ^ e := by rw [pow_add, Nat.mul_comm]
  have hspacing := spacing_eq num
  rcases Nat.eq_zero_or_pos num with rfl | hnum
  · have hzero : roundDiv 0 (spacing 0) * spacing 0 = 0 := by decide
    rw [hzero, htop]
    omega
  by_cases hlow : num < 2 ^ (e + 53)
  · -- far below the power: one spacing more is still below
    have hlog : num.log2 < e + 53 := (Nat.log2_lt hnum.ne').mpr hlow
    have hwidth : spacing num ≤ 2 ^ e := by
      rw [hspacing]
      exact Nat.pow_le_pow_right (by decide) (by omega)
    have hup := two_mul_roundDiv_le num (spacing num)
    rw [hmiddle] at hlow
    rw [htop]
    constructor
    · intro _
      omega
    · intro _
      omega
  have hle : 2 ^ (e + 53) ≤ num := Nat.le_of_not_lt hlow
  by_cases hhigh : num < 2 ^ (e + 54)
  · -- in the last binade: the largest step below the power is an odd one
    have hlog : num.log2 = e + 53 := by
      have hlower := (Nat.le_log2 hnum.ne').mpr hle
      have hupper := (Nat.log2_lt hnum.ne').mpr hhigh
      omega
    have hwidth : spacing num = 2 * 2 ^ e := by
      rw [hspacing, hlog, show e + 53 - 52 = e + 1 by omega, pow_succ, Nat.mul_comm]
    rw [hwidth]
    have hup := two_mul_roundDiv_le num (2 * 2 ^ e)
    obtain ⟨hdown, hodd⟩ := two_mul_le_roundDiv num (show 0 < 2 * 2 ^ e by omega)
    have hlast : roundDiv num (2 * 2 ^ e) * (2 * 2 ^ e) = 2 * (roundDiv num (2 * 2 ^ e) * 2 ^ e) := by
      ring
    rw [hlast] at hup hdown hodd ⊢
    rw [htop] at hhigh ⊢
    generalize roundDiv num (2 * 2 ^ e) = n at *
    generalize 2 ^ e = m at *
    rcases Nat.lt_trichotomy n (2 ^ 53 - 1) with hn | rfl | hn
    · have hbelow : n * m ≤ (2 ^ 53 - 2) * m := Nat.mul_le_mul_right m (by omega)
      omega
    · have hstrict := hodd (by decide)
      omega
    · have habove : 2 ^ 53 * m ≤ n * m := Nat.mul_le_mul_right m (by omega)
      omega
  · -- beyond the power, which is a step there
    have hge : 2 ^ (e + 54) ≤ num := Nat.le_of_not_lt hhigh
    have hlog : e + 54 ≤ num.log2 := (Nat.le_log2 hnum.ne').mpr hge
    have hself : 2 ^ 52 * spacing num = 2 ^ num.log2 := by
      rw [hspacing, ← pow_add, show 52 + (num.log2 - 52) = num.log2 by omega]
    have hsteps : 2 ^ 52 ≤ num / spacing num := by
      rw [Nat.le_div_iff_mul_le (by rw [hspacing]; exact Nat.two_pow_pos _), hself]
      exact Nat.log2_self_le hnum.ne'
    have hrounded : 2 ^ (e + 54) ≤ roundDiv num (spacing num) * spacing num := by
      calc 2 ^ (e + 54) ≤ 2 ^ num.log2 := Nat.pow_le_pow_right (by decide) hlog
        _ = 2 ^ 52 * spacing num := hself.symm
        _ ≤ roundDiv num (spacing num) * spacing num :=
          Nat.mul_le_mul_right _ (hsteps.trans (div_le_roundDiv num (spacing num)))
    constructor
    · intro hlt
      exact absurd hlt (Nat.not_lt.mpr hrounded)
    · intro hlt
      omega

/-- Half the distance between the two largest finite numbers. -/
def halfSpacing : Nat := 1 <<< 2044

def finiteLimit : Nat := overflow - halfSpacing

theorem nearest_isFinite_iff (negative : Bool) (num : Nat) :
    (nearest negative num 1).IsFinite ↔ num < finiteLimit := by
  -- the exponent is a variable, lest the powers be computed
  obtain ⟨e, he⟩ : ∃ e, 2044 = e := ⟨2044, rfl⟩
  have hhalf : halfSpacing = 2 ^ e := by
    rw [halfSpacing, he, Nat.one_shiftLeft]
  have hoverflow : overflow = 2 ^ (e + 54) := by
    rw [overflow, show 2098 = e + 54 by omega, Nat.one_shiftLeft]
  rw [finiteLimit, hhalf, hoverflow, Nat.lt_sub_iff_add_lt, ← rounded_lt_iff e num, nearest,
    Nat.div_one, Nat.one_mul, hoverflow]
  split
  · next h => simpa [IsFinite] using h
  · next h => simpa [IsFinite] using h

theorem integerPart?_eq_ok_iff {x : Binary64} : (∃ n, x.integerPart? = .ok n) ↔ x.IsFinite := by
  cases x <;> simp [integerPart?, IsFinite]

theorem scale_isFinite_iff {x : Binary64} {k : Nat} :
    (x.scale k).IsFinite ↔ ∃ negative units, x = .finite negative units ∧ units * k < finiteLimit := by
  cases x with
  | nan => simp [scale, IsFinite]
  | infinity negative => simp [scale, IsFinite]
  | finite negative units => simp [scale, nearest_isFinite_iff]

end Binary64

theorem Quantity.thousandfold?_eq_ok_iff {x : Binary64} :
    (∃ ms, (Quantity.real x).thousandfold? = .ok ms) ↔
      ∃ negative units, x = .finite negative units ∧ units * 1000 < Binary64.finiteLimit := by
  rw [← Binary64.scale_isFinite_iff]
  exact Binary64.integerPart?_eq_ok_iff

/-- Seconds since the epoch, as many as a timestamp can hold. -/
def Quantity.IsReading (now : Quantity) : Prop :=
  ((Quantity.whole 0).order? now).any Ordering.isLE = true ∧
    (now.order? (.whole 0x100000000)).any Ordering.isLT = true

theorem Quantity.order?_of_isFinite {a b : Quantity} (ha : a.isFinite = true)
    (hb : b.isFinite = true) : a.order? b = some (compare a.steps b.steps) := by
  have hbeyond : ∀ {q : Quantity}, q.isFinite = true → q ≠ .real .nan ∧ q.beyond = 0 := by
    intro q hq
    cases q with
    | whole n => exact ⟨nofun, rfl⟩
    | real x =>
      cases x with
      | nan => cases hq
      | infinity negative => cases hq
      | finite negative units => exact ⟨nofun, rfl⟩
  unfold order?
  rw [if_neg (by simp [(hbeyond ha).1, (hbeyond hb).1]), (hbeyond ha).2, (hbeyond hb).2]
  rfl

theorem Quantity.IsReading.isFinite {now : Quantity} (h : now.IsReading) : now.isFinite = true := by
  obtain ⟨hlow, hhigh⟩ := h
  cases now with
  | whole n => rfl
  | real x =>
    cases x with
    | nan => cases hlow
    | infinity negative =>
      cases negative with
      | true => cases hlow
      | false => cases hhigh
    | finite negative units => rfl

theorem Quantity.IsReading.steps {now : Quantity} (h : now.IsReading) :
    0 ≤ now.steps ∧ now.steps < 0x100000000 * (Binary64.one : Int) := by
  obtain ⟨hlow, hhigh⟩ := h
  have hfinite := IsReading.isFinite ⟨hlow, hhigh⟩
  rw [order?_of_isFinite rfl hfinite, Option.any_some, Int.isLE_compare] at hlow
  rw [order?_of_isFinite hfinite rfl, Option.any_some, Ordering.isLT_iff_eq_lt,
    Int.compare_eq_lt] at hhigh
  refine ⟨?_, hhigh⟩
  calc (0 : Int) = 0 * (Binary64.one : Int) := (Int.zero_mul _).symm
    _ ≤ now.steps := hlow

theorem Quantity.IsReading.integerPart? {now : Quantity} (h : now.IsReading) :
    ∃ seconds, now.integerPart? = .ok seconds ∧ 0 ≤ seconds ∧ seconds < 0x100000000 := by
  obtain ⟨hlow, hhigh⟩ := h.steps
  have hfinite := h.isFinite
  have hone : 0 < (Binary64.one : Int) := Int.natCast_pos.mpr Binary64.one_pos
  cases now with
  | whole n =>
    have hle : 0 * (Binary64.one : Int) ≤ n * (Binary64.one : Int) := by
      rw [Int.zero_mul]
      exact hlow
    exact ⟨n, rfl, Int.le_of_mul_le_mul_right hle hone, Int.lt_of_mul_lt_mul_right hhigh hone.le⟩
  | real x =>
    cases x with
    | nan => cases hfinite
    | infinity negative => cases hfinite
    | finite negative units =>
      refine ⟨Binary64.truncate negative units, rfl, ?_⟩
      unfold Binary64.truncate
      cases negative with
      | true =>
        -- what is not below zero and has a minus sign is zero
        have hneg : 0 ≤ -(units : Int) := hlow
        obtain rfl : units = 0 := by omega
        simp
      | false =>
        have hlt : (units : Int) < 0x100000000 * (Binary64.one : Int) := hhigh
        have hquotient : units / Binary64.one < 0x100000000 := by
          rw [Nat.div_lt_iff_lt_mul Binary64.one_pos]
          exact_mod_cast hlt
        rw [if_neg Bool.false_ne_true]
        exact ⟨Int.natCast_nonneg _, Int.ofNat_lt.mpr hquotient⟩

end OplogRelay
