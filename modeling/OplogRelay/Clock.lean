import OplogRelay.Number.Quantity
/-!
Virtual time. A timed system does all it can at one moment and then jumps to the next moment at
which something falls due; nothing else takes time.
-/
namespace OplogRelay

/-- `step?` is one piece of work at the present moment, `due?` the next moment with more. -/
class Timed (σ : Type) where
  now : σ → Nat
  moveTo : Nat → σ → σ
  step? : σ → Option σ
  due? : σ → Option Nat

namespace Timed

variable {σ : Type} [Timed σ]

def tick? (limit : Option Nat) (s : σ) : Option σ :=
  match step? s with
  | some s' => some s'
  | none =>
    match due? s, limit with
    | some due, some last => if due ≤ last then some (moveTo due s) else none
    | some due, none => some (moveTo due s)
    | none, _ => none

def run (limit : Option Nat) : Nat → σ → σ
  | 0, s => s
  | fuel + 1, s =>
    match tick? limit s with
    | some s' => run limit fuel s'
    | none => s

/-- More ticks than any run could be waited for. -/
def fuel : Nat := 1 <<< 40

theorem tick?_cases {limit : Option Nat} {s s' : σ} (h : tick? limit s = some s') :
    step? s = some s' ∨ ∃ due, step? s = none ∧ due? s = some due ∧
      (∀ last, limit = some last → due ≤ last) ∧ s' = moveTo due s := by
  unfold tick? at h
  split at h
  · next s' hwork => exact .inl (hwork.trans h)
  · next hnone =>
    refine .inr ?_
    split at h
    · next due last hdue =>
      split at h
      · next hle =>
        cases h
        refine ⟨due, hnone, hdue, ?_, rfl⟩
        rintro other ⟨⟩
        exact hle
      · cases h
    · next due hdue =>
      cases h
      exact ⟨due, hnone, hdue, by simp, rfl⟩
    · cases h

theorem run_of_tick?_eq_none {limit : Option Nat} {s : σ} (h : tick? limit s = none)
    (fuel : Nat) : run limit fuel s = s := by
  cases fuel with
  | zero => rfl
  | succ fuel => simp [run, h]

/-- What every tick keeps, a run keeps. -/
theorem run_induction {P : σ → Prop} {limit : Option Nat}
    (tick : ∀ s s', P s → tick? limit s = some s' → P s') (fuel : Nat) {s : σ} (h : P s) :
    P (run limit fuel s) := by
  induction fuel generalizing s with
  | zero => exact h
  | succ fuel ih =>
    unfold run
    split
    · next s' hs => exact ih (tick s s' h hs)
    · exact h

/-- Ticks that lower a rank, or get there at once, get there after finitely many of them. -/
theorem exists_run {α : Type} {rel : α → α → Prop} (hrel : WellFounded rel) (rank : σ → α)
    {P Q : σ → Prop} {limit : Option Nat}
    (tick : ∀ s, P s → Q s ∨ ∃ s', tick? limit s = some s' ∧ P s' ∧ (Q s' ∨ rel (rank s') (rank s)))
    {s : σ} (h : P s) : ∃ n, P (run limit n s) ∧ Q (run limit n s) := by
  induction hs : rank s using hrel.induction generalizing s with
  | h a ih =>
    rcases tick s h with hq | ⟨s', hnext, hp, hq | hlower⟩
    · exact ⟨0, h, hq⟩
    · refine ⟨1, ?_⟩
      rw [run, hnext]
      exact ⟨hp, hq⟩
    · obtain ⟨n, hn⟩ := ih _ (hs ▸ hlower) hp rfl
      refine ⟨n + 1, ?_⟩
      rw [run, hnext]
      exact hn

def settle (s : σ) : σ := run (some (now s)) fuel s

def advanceTo (goal : Nat) (s : σ) : σ := moveTo goal (run (some goal) fuel s)

def advance (span : Span) (s : σ) : σ := advanceTo (span.arrival (now s)) s

def finish (s : σ) : σ := run none fuel s

/-- What work keeps, and what the passing of time keeps, of a system whose clock goes forward only. -/
structure Keeps (P : σ → Prop) : Prop where
  work : ∀ {s s'}, P s → step? s = some s' → P s' ∧ now s' = now s
  ahead : ∀ {s due}, P s → step? s = none → due? s = some due → now s < due
  pass : ∀ {s moment}, P s → now s ≤ moment → P (moveTo moment s) ∧ now (moveTo moment s) = moment

section Keeps

variable {P : σ → Prop} {limit : Option Nat} {s s' : σ} (hkeeps : Keeps P) (h : P s)
include hkeeps h

theorem Keeps.tick (htick : tick? limit s = some s') (hlimit : ∀ last, limit = some last → now s ≤ last) :
    P s' ∧ ∀ last, limit = some last → now s' ≤ last := by
  rcases tick?_cases htick with hwork | ⟨due, hnone, hdue, hwithin, rfl⟩
  · obtain ⟨hkept, hnow⟩ := hkeeps.work h hwork
    exact ⟨hkept, hnow ▸ hlimit⟩
  · obtain ⟨hkept, hnow⟩ := hkeeps.pass h (Nat.le_of_lt (hkeeps.ahead h hnone hdue))
    refine ⟨hkept, fun last hlast => ?_⟩
    rw [hnow]
    exact hwithin last hlast

theorem Keeps.run (fuel : Nat) (hlimit : ∀ last, limit = some last → now s ≤ last) :
    P (run limit fuel s) ∧ ∀ last, limit = some last → now (run limit fuel s) ≤ last :=
  run_induction (P := fun s => P s ∧ ∀ last, limit = some last → now s ≤ last)
    (fun _ _ hs htick => hkeeps.tick hs.1 htick hs.2) fuel ⟨h, hlimit⟩

theorem Keeps.settle : P (settle s) :=
  (hkeeps.run h fuel fun _ hlast => Nat.le_of_eq (Option.some.inj hlast)).1

theorem Keeps.finish : P (finish s) := (hkeeps.run h fuel (by simp)).1

theorem Keeps.advanceTo {goal : Nat} (hgoal : now s ≤ goal) : P (advanceTo goal s) := by
  have hlimit : ∀ last, some goal = some last → now s ≤ last := by
    rintro last ⟨⟩
    exact hgoal
  obtain ⟨hran, hwithin⟩ := hkeeps.run h fuel hlimit
  exact (hkeeps.pass hran (hwithin _ rfl)).1

end Keeps

end Timed

end OplogRelay
