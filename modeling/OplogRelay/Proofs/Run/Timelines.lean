import OplogRelay.Proofs.Run.Execution
import OplogRelay.Proofs.Transfer.Work
/-!
Timelines are executions. What a timed run does by itself is a step at a time, the clock goes
forward only, and every state that playing a timeline comes to is reachable.
-/
namespace OplogRelay

namespace Run

variable {r s : Run}

theorem step?_cases (h : r.step? = some s) :
    r.isOver = false ∧ ∃ t, r.stage = .moving t ∧
      ((∃ u, t.isDone = false ∧ t.Moves u ∧ s = { r with stage := .moving u }) ∨
        ∃ result, t.phase = .done result ∧ s = r.finish result allResources) := by
  unfold step? at h
  split at h
  · cases h
  · next hover =>
    refine ⟨by simpa using hover, ?_⟩
    split at h
    · cases h
    · next t hstage =>
      refine ⟨t, hstage, ?_⟩
      split at h
      · next result hphase =>
        cases h
        exact .inr ⟨result, hphase, rfl⟩
      · next hphase =>
        obtain ⟨u, hu, rfl⟩ := Option.map_eq_some_iff.mp h
        refine .inl ⟨u, ?_, Transfer.moves_of_step? hu, rfl⟩
        unfold Transfer.isDone
        split
        · next result hresult => exact absurd hresult (hphase result)
        · rfl

theorem step?_of_done {t : Transfer} {result : Except Failure Unit} (hfalse : r.isOver = false)
    (hstage : r.stage = .moving t) (hphase : t.phase = .done result) :
    r.step? = some (r.finish result allResources) := by
  simp [step?, hfalse, hstage, hphase]

theorem step?_of_not_done {t u : Transfer} (hfalse : r.isOver = false)
    (hstage : r.stage = .moving t) (h : t.step? = some u) :
    r.step? = some { r with stage := .moving u } := by
  have hnot : t.isDone = false := by
    by_contra hdone
    simp [Transfer.step?, hdone] at h
  rw [step?, if_neg (by simp [hfalse]), hstage]
  unfold Transfer.isDone at hnot
  dsimp only
  split
  · next hphase => simp [hphase] at hnot
  · rw [h]
    rfl

theorem step?_eq_none_iff {t : Transfer} (hfalse : r.isOver = false) (hstage : r.stage = .moving t)
    (hdone : t.isDone = false) : r.step? = none ↔ t.step? = none := by
  unfold step? Transfer.isDone at *
  rw [if_neg (by simp [hfalse]), hstage]
  dsimp only
  split
  · next hphase => simp [hphase] at hdone
  · exact Option.map_eq_none_iff

theorem due?_of_moving {t : Transfer} (hfalse : r.isOver = false) (hstage : r.stage = .moving t) :
    r.due? = t.due? := by
  rw [due?, if_neg (by simp [hfalse]), hstage]

theorem stage_moveTo {t : Transfer} (moment : Nat) (hstage : r.stage = .moving t) :
    (Timed.moveTo moment r : Run).stage = .moving { t with now := moment } := by
  simp [Timed.moveTo, onWorld, Stage.onWorld, hstage, Transfer.onWorld]

theorem step_of_step? (h : r.step? = some s) : r.Step s := by
  obtain ⟨hfalse, t, hstage, ⟨u, hdone, hmoves, rfl⟩ | ⟨result, hphase, rfl⟩⟩ := step?_cases h
  · exact .move hfalse hstage hdone hmoves
  · exact .finish hfalse hstage hphase

theorem now_of_step? (hr : r.Standing) (h : r.step? = some s) : s.world.now = r.world.now := by
  obtain ⟨_, t, hstage, ⟨u, _, hmoves, rfl⟩ | ⟨result, _, rfl⟩⟩ := step?_cases h
  · obtain ⟨threshold, _, hinv⟩ := hr.invariant hstage
    rw [world_of_moving hstage]
    exact Transfer.now_of_moves hinv hmoves
  · obtain ⟨events, outcome, _, _, heq⟩ := r.finish_of_moving result allResources hstage
    rw [heq, world_of_moving hstage]
    rfl

theorem lt_due {moment : Nat} (h : r.step? = none) (hdue : r.due? = some moment) :
    r.world.now < moment := by
  unfold due? at hdue
  unfold step? at h
  split at hdue
  · cases hdue
  · next hover =>
    rw [if_neg hover] at h
    split at hdue
    · cases hdue
    · next t hstage =>
      rw [world_of_moving hstage]
      simp only [hstage] at h
      split at h
      · cases h
      · exact Transfer.lt_due (Option.map_eq_none_iff.mp h) hdue

theorem now_moveTo (moment : Nat) (r : Run) :
    (Timed.moveTo moment r : Run).world.now = moment := by
  obtain ⟨plan, stage, _⟩ := r
  cases stage <;> rfl

theorem step_of_tick? {limit : Option Nat} (h : Timed.tick? limit r = some s) : r.Step s := by
  rcases Timed.tick?_cases h with hwork | ⟨due, hnone, hdue, _, rfl⟩
  · exact step_of_step? hwork
  · exact .pass due (Nat.le_of_lt (lt_due hnone hdue))

theorem keeps_leads (hr : Reachable r) : Timed.Keeps (Leads r) where
  work h hs := ⟨.tail h (step_of_step? hs), now_of_step? (reachable_standing (hr.leads h)) hs⟩
  ahead _ hnone hdue := lt_due hnone hdue
  pass h hle := ⟨.tail h (.pass _ hle), now_moveTo _ _⟩

theorem leads_settle (hr : Reachable r) : Leads r (Timed.settle r) := (keeps_leads hr).settle .refl

theorem leads_ticks (ticks : Nat) (hr : Reachable r) : Leads r (Timed.run none ticks r) :=
  ((keeps_leads hr).run .refl ticks (by simp)).1

theorem leads_finish (hr : Reachable r) : Leads r (Timed.finish r) := leads_ticks _ hr

theorem leads_advance (span : Span) (hr : Reachable r) : Leads r (Timed.advance span r) :=
  (keeps_leads hr).advanceTo .refl (span.le_arrival _)

theorem leads_act (a : Action) (hr : Reachable r) : Leads r (r.act a) := by
  cases a with
  | advance span => exact leads_advance span hr
  | append docs => exact .single (.meet (.append docs) (by simp))
  | inject f => exact .single (.meet (.inject f) (by simp))
  | signalCaller => exact .single (.meet .signalCaller (by simp))
  | requestShutdown => exact .single (.meet .requestShutdown (by simp))
  | reject message => exact .single (.meet (.reject message) (by simp))
  | raise f => exact .single (.meet (.raise f) (by simp))
  | delay seconds => exact .single (.meet (.delay seconds) (by simp))

theorem leads_perform (a : Action) (hr : Reachable r) : Leads r (r.perform a) :=
  have hact := leads_act a hr
  hact.trans (leads_settle (hr.leads hact))

theorem leads_foldl (actions : List Action) (hr : Reachable r) :
    Leads r (actions.foldl perform r) := by
  induction actions generalizing r with
  | nil => exact .refl
  | cons a rest ih =>
    have hnext := leads_perform a hr
    exact hnext.trans (ih (hr.leads hnext))

theorem leads_states (actions : List Action) (hr : Reachable r) :
    ∀ s ∈ r.states actions, Leads r s := by
  induction actions generalizing r with
  | nil => simp [states]
  | cons a rest ih =>
    have hnext := leads_perform a hr
    intro s hs
    rcases List.mem_cons.mp hs with rfl | hs
    · exact hnext
    · exact hnext.trans (ih (hr.leads hnext) s hs)

theorem leads_play (actions : List Action) (hr : Reachable r) : Leads r (r.play actions).2 := by
  have hbegun := leads_settle hr
  have hlast : Leads r (((Timed.settle r).states actions).getLastD (Timed.settle r)) := by
    rw [List.getLastD_eq_getLast?]
    cases h : ((Timed.settle r).states actions).getLast? with
    | none => exact hbegun
    | some s =>
      have hmem := List.mem_of_getLast? h
      exact hbegun.trans (leads_states actions (hr.leads hbegun) s hmem)
  exact hlast.trans (leads_finish (hr.leads hlast))

def Finishes (r : Run) : Prop := ∃ n, ∀ m, n ≤ m → (Timed.run none m r).isOver = true

theorem run_of_over {limit : Option Nat} (h : r.isOver = true) (n : Nat) :
    Timed.run limit n r = r := by
  have hstep : Timed.step? r = none := by
    show r.step? = none
    rw [step?, if_pos h]
  have hdue : Timed.due? r = none := by
    show r.due? = none
    rw [due?, if_pos h]
  exact Timed.run_of_tick?_eq_none (by simp [Timed.tick?, hstep, hdue]) n

theorem finishes_of_over (h : r.isOver = true) : r.Finishes := by
  refine ⟨0, fun m _ => ?_⟩
  rw [run_of_over h]
  exact h

theorem finishes_of_tick? (h : Timed.tick? none r = some s) (hs : s.Finishes) : r.Finishes := by
  obtain ⟨n, hn⟩ := hs
  refine ⟨n + 1, fun m hm => ?_⟩
  obtain ⟨k, rfl⟩ := Nat.exists_eq_add_of_lt (Nat.lt_of_lt_of_le (Nat.succ_pos n) hm)
  rw [Nat.zero_add, Timed.run, h]
  exact hn k (by omega)

theorem tick?_of_step? (h : r.step? = some s) : Timed.tick? none r = some s := by
  have hstep : Timed.step? r = some s := h
  simp [Timed.tick?, hstep]

theorem tick?_of_due? {moment : Nat} (h : r.step? = none) (hdue : r.due? = some moment) :
    Timed.tick? none r = some (Timed.moveTo moment r) := by
  have hstep : Timed.step? r = none := h
  have hmoment : Timed.due? r = some moment := hdue
  simp [Timed.tick?, hstep, hmoment]

theorem finishes_of_done {t : Transfer} {result : Except Failure Unit} (hfalse : r.isOver = false)
    (hstage : r.stage = .moving t) (hphase : t.phase = .done result) : r.Finishes :=
  finishes_of_tick? (tick?_of_step? (step?_of_done hfalse hstage hphase))
    (finishes_of_over (ended_finish_of_moving result allResources hstage).closed)

/-- A run gets to its end if its transfer does not rest for ever, and comes down by all that it does
by itself and by the time that passes while it rests; or to where that does not hold any more. -/
theorem finishes_or_of_descent {α : Type} {rel : α → α → Prop} {P Q : Run → Prop} {t : Transfer}
    (hrel : WellFounded rel) (measure : Transfer → α)
    (keeps : ∀ {r s : Run}, P r → Timed.tick? none r = some s → P s)
    (moves : ∀ {r : Run} {t u : Transfer}, P r → r.stage = .moving t → t.step? = some u →
      Q r ∨ rel (measure u) (measure t))
    (rests : ∀ {r : Run} {t : Transfer}, P r → r.stage = .moving t → t.isDone = false →
      t.step? = none → ∃ moment, t.due? = some moment ∧
        rel (measure { t with now := moment }) (measure t))
    (h : P r) (hstage : r.stage = .moving t) : r.Finishes ∨ ∃ n, Q (Timed.run none n r) := by
  have onward {r s : Run} (hnext : Timed.tick? none r = some s)
      (hs : s.Finishes ∨ ∃ n, Q (Timed.run none n s)) : r.Finishes ∨ ∃ n, Q (Timed.run none n r) := by
    refine hs.imp (finishes_of_tick? hnext) ?_
    rintro ⟨n, hn⟩
    refine ⟨n + 1, ?_⟩
    rw [Timed.run, hnext]
    exact hn
  induction hmeasure : measure t using hrel.induction generalizing r t with
  | h a ih =>
    cases hover : r.isOver with
    | true => exact .inl (finishes_of_over hover)
    | false =>
      cases hdone : t.isDone with
      | true =>
        obtain ⟨result, hphase⟩ := Transfer.done_of_isDone hdone
        exact .inl (finishes_of_done hover hstage hphase)
      | false =>
        cases hstep : t.step? with
        | some u =>
          rcases moves h hstage hstep with hthere | hlower
          · exact .inr ⟨0, hthere⟩
          · have hnext := tick?_of_step? (step?_of_not_done hover hstage hstep)
            exact onward hnext (ih _ (hmeasure ▸ hlower) (keeps h hnext) rfl rfl)
        | none =>
          obtain ⟨moment, hdue, hlower⟩ := rests h hstage hdone hstep
          have hrest := (step?_eq_none_iff hover hstage hdone).mpr hstep
          have hnext := tick?_of_due? hrest ((due?_of_moving hover hstage).trans hdue)
          have hmoved := stage_moveTo moment hstage
          exact onward hnext (ih _ (hmeasure ▸ hlower) (keeps h hnext) hmoved rfl)

theorem finishes_of_descent {α : Type} {rel : α → α → Prop} {P : Run → Prop} {t : Transfer}
    (hrel : WellFounded rel) (measure : Transfer → α)
    (keeps : ∀ {r s : Run}, P r → Timed.tick? none r = some s → P s)
    (moves : ∀ {r : Run} {t u : Transfer}, P r → r.stage = .moving t → t.step? = some u →
      rel (measure u) (measure t))
    (rests : ∀ {r : Run} {t : Transfer}, P r → r.stage = .moving t → t.isDone = false →
      t.step? = none → ∃ moment, t.due? = some moment ∧
        rel (measure { t with now := moment }) (measure t))
    (h : P r) (hstage : r.stage = .moving t) : r.Finishes := by
  have hends := finishes_or_of_descent (Q := fun _ => False) hrel measure keeps
    (fun hp hstage hstep => .inr (moves hp hstage hstep)) rests h hstage
  exact hends.resolve_right (not_exists.mpr fun _ => id)

def played (r : Run) (actions : List Action) : Run := (r.begun.play actions).2

theorem leads_begun (h : Made r) : Leads r r.begun := by
  cases h with
  | planned => exact .single (.start (start?_eq_begun rfl))

theorem leads_played (actions : List Action) (h : Made r) : Leads r (r.played actions) :=
  have hbegun := leads_begun h
  hbegun.trans (leads_play actions ((Reachable.made h).leads hbegun))

def Plan.small : Plan where
  opening := { clock := .whole 100000 }
  source := { name := "source" }
  destination := { name := "destination" }
  capacity := 2
  interval := .whole 5

theorem Plan.mild_of_none {plan : Plan} (hsource : plan.source.releaseFault = none)
    (hdestination : plan.destination.releaseFault = none) (hcursor : plan.cursorFault = none) :
    plan.Mild := by
  intro resource f hf
  have hnone : plan.releaseFault resource = none := by
    cases resource with
    | session side =>
      cases side with
      | source => exact hsource
      | destination => exact hdestination
    | cursor => exact hcursor
  cases hnone.symm.trans hf

theorem Plan.small_mild : Plan.small.Mild := Plan.mild_of_none rfl rfl rfl

def entryAt (ts : Timestamp) (op : String) : Document := [("ts", .timestamp ts), ("op", .text op)]

/-- A small log: an entry below the threshold, two to be relayed, and a no-op between them. -/
def smallLog : List Document := [
  entryAt { seconds := 5, counter := 1 } "i",
  entryAt { seconds := 99000, counter := 1 } "i",
  entryAt { seconds := 99001, counter := 1 } "n",
  entryAt { seconds := 99002, counter := 1 } "u"]

def lateLog : List Document := [
  entryAt { seconds := 99003, counter := 1 } "i",
  entryAt { seconds := 99004, counter := 1 } "u",
  entryAt { seconds := 99005, counter := 1 } "d",
  entryAt { seconds := 99006, counter := 1 } "i",
  entryAt { seconds := 99007, counter := 1 } "i"]

def lateNoop : Document := entryAt { seconds := 99008, counter := 1 } "n"

def small (actions : List Action) : Run :=
  (construct Plan.small smallLog (.whole 0) true false).played actions

theorem made_small : Made (construct Plan.small smallLog (.whole 0) true false) := by
  have hplan : Plan.small.make? 2 (.whole 5) = .ok Plan.small := rfl
  exact made_construct smallLog (.whole 0) true false hplan

theorem reachable_small (actions : List Action) : Reachable (small actions) :=
  (Reachable.made made_small).leads (leads_played actions made_small)

theorem exists_ok (h : (r.outcome.bind Except.toOption).isSome = true) :
    ∃ stats, r.outcome = some (.ok stats) := by
  obtain ⟨stats, hstats⟩ := Option.isSome_iff_exists.mp h
  obtain ⟨outcome, houtcome, hstats⟩ := Option.bind_eq_some_iff.mp hstats
  cases outcome with
  | ok => exact ⟨_, houtcome⟩
  | error => cases hstats

theorem small_stops : ∃ stats, (small []).outcome = some (.ok stats) := exists_ok (by decide +kernel)

def paused (actions : List Action) : Run :=
  actions.foldl perform (Timed.settle (construct Plan.small smallLog (.whole 0) true false).begun)

theorem leads_paused (actions : List Action) :
    Leads (construct Plan.small smallLog (.whole 0) true false) (paused actions) := by
  have hmade := Reachable.made made_small
  have hbegun := leads_begun made_small
  have hsettled := hbegun.trans (leads_settle (hmade.leads hbegun))
  exact hsettled.trans (leads_foldl actions (hmade.leads hsettled))

theorem reachable_paused (actions : List Action) : Reachable (paused actions) :=
  (Reachable.made made_small).leads (leads_paused actions)

def primed (a : Action) (ticks : Nat) : Run :=
  Timed.run none ticks ((construct Plan.small smallLog (.whole 0) true false).act a).begun

theorem leads_primed {a : Action} (hstart :
    ((construct Plan.small smallLog (.whole 0) true false).act a).start? =
      .ok ((construct Plan.small smallLog (.whole 0) true false).act a).begun) (ticks : Nat) :
    Leads (construct Plan.small smallLog (.whole 0) true false) (primed a ticks) := by
  have hmade := Reachable.made made_small
  have hbegun := Relation.ReflTransGen.tail (leads_act a hmade) (.start hstart)
  exact hbegun.trans (leads_ticks ticks (hmade.leads hbegun))

theorem plan_small (actions : List Action) : (small actions).plan = Plan.small :=
  plan_of_leads (.made made_small) (leads_played actions made_small)

end Run

end OplogRelay
