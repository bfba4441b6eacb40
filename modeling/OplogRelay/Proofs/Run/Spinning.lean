import OplogRelay.Proofs.Run.Timelines
import OplogRelay.Proofs.Transfer.Spinning
/-!
Runs that stay at one moment for ever. A run does not get away from a moment at which its transfer always has
something left to do; one wait for new entries or one flush interval that is too short for the clock is enough.
-/
namespace OplogRelay

namespace Run

variable {r : Run} {t : Transfer}

/-- The run always has something left to do at this moment. -/
def Sticks (r : Run) : Prop := ∀ limit n, ∃ t u, (Timed.run limit n r).isOver = false ∧
  (Timed.run limit n r).stage = .moving t ∧ t.step? = some u

/-- Steps that always lead to another one are all that a run takes. -/
theorem run_of_endless {P : Transfer → Prop} (hsteps : ∀ t, P t → ∃ u, t.step? = some u ∧ P u)
    (hlive : r.isOver = false) (hstage : r.stage = .moving t) (h : P t) (limit : Option Nat) (n : Nat) :
    ∃ u, Timed.run limit n r = { r with stage := .moving u } ∧ P u := by
  induction n generalizing r t with
  | zero =>
    refine ⟨t, ?_, h⟩
    rw [← hstage]
    rfl
  | succ n ih =>
    obtain ⟨u, hstep, hu⟩ := hsteps t h
    have hdone : t.isDone = false := by
      by_contra hdone
      simp [Transfer.step?, hdone] at hstep
    have hwork : Timed.step? r = some { r with stage := .moving u } :=
      step?_of_not_done hlive hstage hstep
    have hnext : Timed.tick? limit r = some { r with stage := .moving u } := by
      simp [Timed.tick?, hwork]
    obtain ⟨v, hrun, hv⟩ := ih (r := { r with stage := .moving u }) hlive rfl hu
    refine ⟨v, ?_, hv⟩
    rw [Timed.run, hnext]
    exact hrun

theorem sticks_of_endless {P : Transfer → Prop} (hsteps : ∀ t, P t → ∃ u, t.step? = some u ∧ P u)
    (hlive : r.isOver = false) (hstage : r.stage = .moving t) (h : P t) : r.Sticks := by
  intro limit n
  obtain ⟨u, hrun, hu⟩ := run_of_endless hsteps hlive hstage h limit n
  obtain ⟨v, hstep, _⟩ := hsteps u hu
  rw [hrun]
  exact ⟨u, v, hlive, rfl, hstep⟩

theorem Sticks.not_finishes (h : r.Sticks) : ¬ r.Finishes := by
  rintro ⟨n, hover⟩
  obtain ⟨_, _, hlive, _⟩ := h none n
  cases hlive.symm.trans (hover n (Nat.le_refl n))

theorem run_of_circles (hlive : r.isOver = false) (hstage : r.stage = .moving t) (h : t.Circles)
    (limit : Option Nat) (n : Nat) :
    ∃ phase, Timed.run limit n r = { r with stage := .moving (t.onTail phase) } := by
  have hsteps (u : Transfer) (hu : u.Circles ∧ ∃ phase, u = t.onTail phase) :
      ∃ v, u.step? = some v ∧ v.Circles ∧ ∃ phase, v = t.onTail phase := by
    obtain ⟨hcircles, _, rfl⟩ := hu
    obtain ⟨phase, hstep, hnext⟩ := hcircles.step
    exact ⟨_, hstep, hnext, phase, rfl⟩
  obtain ⟨_, hrun, _, phase, rfl⟩ :=
    run_of_endless hsteps hlive hstage ⟨h, t.forwarder.tail.phase, rfl⟩ limit n
  exact ⟨phase, hrun⟩

theorem sticks_of_circles (hlive : r.isOver = false) (hstage : r.stage = .moving t) (h : t.Circles) :
    r.Sticks := by
  refine sticks_of_endless (fun t h => ?_) hlive hstage h
  obtain ⟨phase, hstep, hnext⟩ := h.step
  exact ⟨_, hstep, hnext⟩

/-- A span that moves the clock on its first second only. -/
def instant : Quantity := .real (.finite false (1 <<< 1017))

def Plan.fleeting : Plan := { Plan.small with capacity := 3, idle := instant }

def fleetingLog : List Document :=
  smallLog ++ lateLog.take 3 ++ [lateNoop]

theorem made_fleeting : Made (construct Plan.fleeting fleetingLog (.whole 2) true false) := by
  have hplan : Plan.fleeting.make? 3 (.whole 5) = .ok Plan.fleeting := rfl
  exact made_construct fleetingLog (.whole 2) true false hplan

/-- A run at its second second, with three entries sent, two received since, and a forwarder that circles. -/
def stranded : Run :=
  Timed.run none 30 (construct Plan.fleeting fleetingLog (.whole 2) true false).begun

theorem reachable_stranded : Reachable stranded :=
  have hbegun := (Reachable.made made_fleeting).leads (leads_begun made_fleeting)
  hbegun.leads (leads_ticks 30 hbegun)

theorem stranded_circles : stranded.isOver = false ∧
    ∃ t, stranded.stage = .moving t ∧ t.Circles ∧ t.batch.size = 2 := by
  refine ⟨by decide +kernel, ?_⟩
  have hcircles : (stranded.transfer?.any fun t => decide t.Circles && t.batch.size == 2) = true := by
    decide +kernel
  obtain ⟨t, ht, hfacts⟩ := (Option.any_eq_true _ _).mp hcircles
  rw [Bool.and_eq_true] at hfacts
  exact ⟨t, moving_of_transfer? ht, of_decide_eq_true hfacts.1, beq_iff_eq.mp hfacts.2⟩

def hindered : Run := Timed.run none 8 (stranded.act .requestShutdown)

theorem leads_hindered : Leads (stranded.act .requestShutdown) hindered :=
  leads_ticks 8 (reachable_stranded.leads (leads_act _ reachable_stranded))

theorem hindered_sticks : hindered.Sticks := by
  have hcircles : (hindered.transfer?.any fun t => decide t.Circles) = true := by decide +kernel
  obtain ⟨t, ht, hfacts⟩ := (Option.any_eq_true _ _).mp hcircles
  exact sticks_of_circles (by decide +kernel) (moving_of_transfer? ht) (of_decide_eq_true hfacts)

def Plan.hurried : Plan := { Plan.small with interval := instant }

theorem made_hurried : Made (construct Plan.hurried (smallLog ++ lateLog) (.whole 2) true false) := by
  have hplan : Plan.hurried.make? 2 instant = .ok Plan.hurried := rfl
  exact made_construct (smallLog ++ lateLog) (.whole 2) true false hplan

def hurried (ticks : Nat) : Run :=
  Timed.run none ticks (construct Plan.hurried (smallLog ++ lateLog) (.whole 2) true false).begun

end Run

end OplogRelay
