import OplogRelay.Proofs.Number.Spans
import OplogRelay.Proofs.Transfer.Goings
import OplogRelay.Proofs.Transfer.Winding
import OplogRelay.Proofs.Transfer.Work
/-!
A coordinator that was asked to stop gets to its end. Each of its own steps brings it nearer to it; between
two of them there is only so much to do, if the clock can be set forward by the wait for new entries: then
each wait that runs out does so at a later moment, and from some moment on it is the last one.
-/
namespace OplogRelay

namespace Tail

variable {t t' : Tail} {o o' : Oplog} {now : Nat} {outcome : Outcome} {events : List Event}

/-- Only a wait with an end can run out, and a wait has one if it is not to go on for ever. -/
structure Timed (t : Tail) : Prop where
  waits : ∀ until? woken, t.phase = .waiting until? woken → (until? = none ↔ t.idle.span = .unbounded)
  lapsed : t.phase = .lapsed → t.idle.span ≠ .unbounded

theorem timed_of_busy (hwaits : ∀ until? woken, t.phase ≠ .waiting until? woken)
    (hlapsed : t.phase ≠ .lapsed) : t.Timed :=
  ⟨fun until? woken hphase => absurd hphase (hwaits until? woken), fun hphase => absurd hphase hlapsed⟩

theorem Timed.resume (h : t.Timed) : t.resume.Timed := by
  unfold Tail.resume
  split
  · exact timed_of_busy (by simp) (by simp)
  · exact h

theorem Timed.wake (h : t.Timed) : t.wake.Timed := by
  constructor
  · intro until? woken hwaits
    obtain ⟨before, hphase⟩ := waits_of_wake hwaits
    rw [wake_idle]
    exact h.waits until? before hphase
  · intro hlapsed
    rw [wake_idle]
    exact h.lapsed (lapsed_of_wake hlapsed)

theorem GivesUp.kept (h : t.GivesUp now outcome t' events) :
    t'.idle = t.idle ∧ t'.lastSeen = t.lastSeen := by
  cases h <;> exact ⟨rfl, rfl⟩

theorem Works.idle (h : t.Works now o outcome o' t' events) : t'.idle = t.idle := by
  cases h with
  | looks _ _ hlook =>
    cases hlook with
    | ended hgives => exact hgives.kept.1
    | fruitless _ hgives => exact hgives.kept.1
    | _ => rfl
  | lapses _ hgives => exact hgives.kept.1

theorem timed_of_step? (hawait : t.cursor.await = .number t.idle)
    (h : t.step? now o = some (outcome, o', t', events)) : t'.Timed := by
  have hworks := works_of_step? h
  constructor
  · intro until? woken hphase
    obtain ⟨rfl, _⟩ := hworks.wait_eq hawait hphase
    rw [hworks.idle]
    exact Span.after_eq_none_iff
  · exact fun hlapsed => absurd hlapsed hworks.not_lapsed

theorem Timed.expire? (h : t.Timed) (hexpire : t.expire? now = some t') : t'.Timed := by
  obtain ⟨due, hphase, _, rfl⟩ := expire?_eq_some hexpire
  refine ⟨by simp, fun _ hendless => ?_⟩
  cases (h.waits _ _ hphase).mpr hendless

/-- From when on a wait that runs out is the last one. -/
def brink (t : Tail) : Nat := t.idle.span.horizon t.lastSeen

/-- How many waits can still run out if nothing is read: one at a moment, and one that is the last. -/
def lapses (now : Nat) (t : Tail) : Nat :=
  match t.phase with
  | .waiting (some due) false => 1 + (t.brink - max due now)
  | .waiting none false | .over => 0
  | .lapsed => t.brink - now
  | .resting | .looking | .waiting _ true => max 1 (t.brink - now)

/-- What can happen at a tail if nothing is read. A wait that runs out counts for more than what comes before
the next one. -/
def vigil (now : Nat) (t : Tail) : Nat := t.looks + 3 * t.lapses now

theorem vigil_mono {moment : Nat} (t : Tail) (h : now ≤ moment) : t.vigil moment ≤ t.vigil now := by
  unfold vigil lapses
  split <;> omega

theorem GivesUp.before_brink {steps : Int} (h : t.GivesUp now .pending t' events)
    (hfinite : t.idle.span = .finite steps) : now < t.brink := by
  cases h with
  | anew hlate =>
    by_contra hpast
    rw [brink, hfinite] at hpast
    rw [hfinite, Span.elapsed_of_horizon (Nat.le_of_not_lt hpast)] at hlate
    cases hlate

theorem GivesUp.looking (h : t.GivesUp now .pending t' events) :
    t' = { t with phase := .looking } := by
  cases h with
  | anew => rfl

theorem Follows.lapses_le {cursor : Cursor}
    (h : ({ t with cursor := cursor } : Tail).Follows now false .nothing .pending t' events)
    (hawait : cursor.await = .number t.idle) (hsets : t.idle.span.SetsForward now) :
    t'.lapses now ≤ max 1 (t.brink - now) := by
  cases h with
  | fruitless hagain => cases hagain
  | @waits span _ hwait =>
    obtain rfl := Quantity.span_of_wait? (wait?_eq_ok hawait hwait)
    cases hafter : t.idle.span.after now with
    | none =>
      show lapses now { t with cursor := cursor, phase := .waiting none false } ≤ _
      exact Nat.zero_le _
    | some due =>
      show 1 + (t.brink - max due now) ≤ _
      by_cases hpositive : t.idle.span.IsPositive
      · have hlater := hsets hpositive due hafter
        omega
      · have hnone : t.brink = 0 := Span.horizon_of_not_positive hpositive
        omega

theorem Timed.vigil_lt_of_step? (h : t.Timed) (hawait : t.cursor.await = .number t.idle)
    (hsets : t.idle.span.SetsForward now) (halive : t.cursor.alive = true)
    (hstep : t.step? now o = some (.pending, o', t', events)) : t'.vigil now < t.vigil now := by
  have hlooks := (step?_passes hstep).2.2
  suffices hlapses : t'.lapses now ≤ t.lapses now by
    unfold vigil
    omega
  rcases works_of_step? hstep with ⟨hready, hsees, hlook⟩ | ⟨hlapsed, hgives⟩
  case lapses =>
    obtain ⟨steps, hfinite⟩ : ∃ steps, t.idle.span = .finite steps := by
      cases hspan : t.idle.span with
      | finite steps => exact ⟨steps, rfl⟩
      | unbounded => exact absurd hspan (h.lapsed hlapsed)
    have hbefore := hgives.before_brink hfinite
    obtain rfl := hgives.looking
    have hsame : t.lapses now = t.brink - now := by simp only [lapses, hlapsed]
    rw [hsame]
    show max 1 (t.brink - now) ≤ _
    omega
  have hsame : t.lapses now = max 1 (t.brink - now) := by
    rcases hready with ⟨_, hphase⟩ | ⟨_, until?, hphase⟩ <;> simp only [lapses, hphase]
  rw [hsame]
  cases hsees with
  | ended hdead => cases hdead.symm.trans halive
  | fault => cases hlook
  | document => cases hlook
  | unreadable => cases hlook
  | nothing =>
    rcases hready with ⟨rfl, _⟩ | ⟨rfl, _⟩
    · exact hlook.lapses_le hawait hsets
    · cases hlook with
      | fruitless _ hgives =>
        obtain rfl := hgives.looking
        exact Nat.le_refl _
      | waits hagain => cases hagain

theorem vigil_lt_of_expire? (h : t.expire? now = some t') : t'.vigil now < t.vigil now := by
  obtain ⟨due, hphase, hle, rfl⟩ := expire?_eq_some h
  have hbefore : t.vigil now = 3 * (1 + (t.brink - max due now)) := by
    simp only [vigil, looks, lapses, hphase, Nat.zero_add]
  rw [hbefore]
  show 2 + 3 * (t.brink - now) < _
  omega

end Tail

namespace Forwarder

variable {f f' : Forwarder} {o o' : Oplog} {now : Nat} {events : List Event}

theorem timed_onOutcome {tail : Tail} (h : tail.Timed) (outcome : Tail.Outcome) :
    ({ f with tail := tail }.onOutcome outcome).1.tail.Timed := by
  rcases tail_onOutcome { f with tail := tail } outcome with hsame | hresumed
  · rw [hsame]
    exact h
  · rw [hresumed]
    exact h.resume

theorem timed_of_step? (h : f.tail.Timed) (hawait : f.tail.cursor.await = .number f.tail.idle)
    (hstep : f.step? now o = some (o', f', events)) : f'.tail.Timed := by
  obtain ⟨_, ⟨e, _, _, _, rfl, _⟩ | ⟨_, outcome, tail, _, htail, rfl, _⟩⟩ := step?_cases hstep
  · exact h.resume
  · exact timed_onOutcome (Tail.timed_of_step? hawait htail) outcome

theorem idle_of_step? (hstep : f.step? now o = some (o', f', events)) : f'.tail.idle = f.tail.idle := by
  obtain ⟨_, ⟨e, _, _, _, rfl, _⟩ | ⟨_, outcome, tail, _, htail, rfl, _⟩⟩ := step?_cases hstep
  · exact f.tail.resume_idle
  · have hidle := (Tail.works_of_step? htail).idle
    rcases tail_onOutcome { f with tail := tail } outcome with hsame | hresumed
    · rw [hsame]
      exact hidle
    · rw [hresumed, Tail.resume_idle]
      exact hidle

def vigil (now : Nat) (f : Forwarder) : Nat := if f.finished then 0 else f.tail.vigil now

theorem vigil_of_live (f : Forwarder) (now : Nat) (h : f.ending = none) :
    f.vigil now = f.tail.vigil now := by
  rw [vigil, if_neg (by simp [finished, h])]

theorem vigil_mono {moment : Nat} (f : Forwarder) (h : now ≤ moment) : f.vigil moment ≤ f.vigil now := by
  unfold vigil
  split
  · exact Nat.le_refl 0
  · exact f.tail.vigil_mono h

theorem vigil_lt_of_expire? (h : f.expire? now = some f') : f'.vigil now < f.vigil now := by
  obtain ⟨hlive, tail, htail, rfl⟩ := expire?_cases h
  rw [f.vigil_of_live now hlive, vigil_of_live _ now (by exact hlive)]
  exact Tail.vigil_lt_of_expire? htail

end Forwarder

namespace Transfer

variable {t u : Transfer} {threshold : Timestamp}

def CountsOn (t : Transfer) : Prop := t.forwarder.tail.idle.span.SetsForward t.now

def vigil (t : Transfer) : Nat := t.forwarder.vigil t.now

theorem Invariant.timed_of_moves (h : t.Invariant threshold) (htimed : t.forwarder.tail.Timed)
    (hmoves : t.Moves u) : u.forwarder.tail.Timed := by
  cases hmoves with
  | fill hstep =>
    obtain ⟨e, rest, _, _, rfl⟩ := fill?_eq hstep
    exact htimed
  | forward hstep =>
    obtain ⟨oplog, forwarder, events, _, hf, rfl⟩ := forward?_eq hstep
    exact Forwarder.timed_of_step? htimed h.feed.placed.await hf
  | hear hstep =>
    obtain ⟨_, _, rfl⟩ := hear?_eq hstep
    exact htimed
  | coordinate hstep =>
    rw [(h.coordinate?_advances hstep).forwarder]
    exact htimed
  | expire hstep =>
    obtain ⟨forwarder, _, hf, rfl⟩ := expire?_eq hstep
    obtain ⟨_, tail, htail, rfl⟩ := Forwarder.expire?_cases hf
    exact htimed.expire? htail

theorem Goes.idle (h : t.Goes u) (hinv : t.Invariant threshold) :
    u.forwarder.tail.idle = t.forwarder.tail.idle := by
  cases h with
  | moves hmoves =>
    cases hmoves with
    | fill hstep =>
      obtain ⟨e, rest, _, _, rfl⟩ := fill?_eq hstep
      rfl
    | forward hstep =>
      obtain ⟨oplog, forwarder, events, _, hf, rfl⟩ := forward?_eq hstep
      exact Forwarder.idle_of_step? hf
    | hear hstep =>
      obtain ⟨_, _, rfl⟩ := hear?_eq hstep
      rfl
    | coordinate hstep => rw [(hinv.coordinate?_advances hstep).forwarder]
    | expire hstep =>
      obtain ⟨forwarder, _, hf, rfl⟩ := expire?_eq hstep
      obtain ⟨_, tail, htail, rfl⟩ := Forwarder.expire?_cases hf
      obtain ⟨_, _, _, rfl⟩ := Tail.expire?_eq_some htail
      rfl
  | ends events _ _ =>
    show t.forwarder.cancel.tail.idle = _
    rw [t.forwarder.tail_cancel]
  | passes _ => rfl
  | meets _ _ hf _ =>
    rcases hf with rfl | rfl
    · rfl
    · exact t.forwarder.tail.wake_idle

theorem Goes.timed (h : t.Goes u) (hinv : t.Invariant threshold) (htimed : t.forwarder.tail.Timed) :
    u.forwarder.tail.Timed := by
  cases h with
  | moves hmoves => exact hinv.timed_of_moves htimed hmoves
  | ends events _ _ =>
    show t.forwarder.cancel.tail.Timed
    rw [t.forwarder.tail_cancel]
    exact htimed
  | passes _ => exact htimed
  | meets _ _ hf _ =>
    rcases hf with rfl | rfl
    · exact htimed
    · exact htimed.wake

theorem Invariant.less_of_forward? (h : t.Invariant threshold) (htimed : t.forwarder.tail.Timed)
    (hcounts : t.CountsOn) (hstep : t.forward? = some u) :
    u.unread < t.unread ∨ u.unread = t.unread ∧ u.vigil < t.vigil := by
  obtain ⟨oplog, forwarder, events, hlive, hf, rfl⟩ := forward?_eq hstep
  obtain ⟨hdocs, hlessens⟩ := Forwarder.lessens_of_step? hf
  have hunread := unread_forwarded forwarder events hdocs
  cases hlessens with
  | reads hless => exact .inl (by omega)
  | looks hsame _ htail heq _ =>
    refine .inr ⟨by omega, ?_⟩
    subst heq
    show Forwarder.vigil t.now _ < t.forwarder.vigil t.now
    rw [t.forwarder.vigil_of_live _ hlive, Forwarder.vigil_of_live _ _ (by exact hlive)]
    exact htimed.vigil_lt_of_step? h.feed.placed.await hcounts (h.feed.live hlive).alive htail

theorem less_of_expire? (hstep : t.expire? = some u) : u.unread = t.unread ∧ u.vigil < t.vigil := by
  obtain ⟨forwarder, hlive, hf, rfl⟩ := expire?_eq hstep
  have hvigil := Forwarder.vigil_lt_of_expire? hf
  obtain ⟨_, tail, htail, rfl⟩ := Forwarder.expire?_cases hf
  obtain ⟨_, _, _, rfl⟩ := Tail.expire?_eq_some htail
  exact ⟨rfl, hvigil⟩

/-- How far a transfer is from its end that was asked for: two steps for a batch, one for the round
in which it is seen, and the same again if there is another round. -/
def rank (t : Transfer) : Nat :=
  match t.phase with
  | .waiting _ => 3
  | .applying f _ _ => 2 + 3 * f.openings
  | .answered f _ => 1 + 3 * f.openings
  | .done _ => 0

def remaining (t : Transfer) : Nat :=
  match t.phase with
  | .applying _ _ due => due - t.now
  | _ => 0

/-- What can happen before the coordinator moves, time that passes included. -/
def patience (t : Transfer) : Nat × Nat := (t.unread, t.vigil + t.remaining)

theorem Sends.rank_le {f : Flush} (h : t.Sends f u) : u.rank ≤ 2 + 3 * f.openings := by
  rcases h.phase_cases with ⟨answer, hphase⟩ | ⟨ops, due, hphase⟩
  · simp only [rank, hphase]
    omega
  · simp only [rank, hphase]
    omega

theorem Rounds.rank_lt (h : t.Rounds true u) : u.rank < 3 := by
  cases h with
  | waits hseen => cases hseen
  | ends _ _ hphase => simp [rank, hphase]
  | sends _ _ hlast hsends =>
    have hle := hsends.rank_le
    rw [Flush.openings_of_last (hlast rfl)] at hle
    exact Nat.lt_succ_of_le hle

theorem Acts.rank_lt_of_not_waiting (h : t.Acts u) (hnot : ∀ watching, t.phase ≠ .waiting watching) :
    u.rank < t.rank := by
  cases h with
  | waited hphase => exact absurd hphase (hnot _)
  | received hphase => exact absurd hphase (hnot _)
  | heard hphase _ hu =>
    subst hu
    simp only [rank, hphase]
    omega
  | refused hphase _ hrefuses =>
    simp only [rank, hphase, hrefuses.phase]
    omega
  | counted hphase _ _ _ hend =>
    rcases hend with ⟨hgoes, watching, hwaits⟩ | ⟨outcome, hdone⟩
    · simp only [rank, hphase, hwaits, Flush.openings_of_not_last hgoes]
      omega
    · simp only [rank, hphase, hdone]
      omega

theorem Acts.rank_lt (h : t.Acts u) (hheard : t.heard = true) : u.rank < t.rank := by
  by_cases hwaits : ∃ watching, t.phase = .waiting watching
  · obtain ⟨watching, hphase⟩ := hwaits
    have hrank : t.rank = 3 := by simp only [rank, hphase]
    rw [hrank]
    cases h with
    | waited _ _ hrounds =>
      rw [hheard] at hrounds
      exact hrounds.rank_lt
    | received _ _ hrounds =>
      rw [hheard] at hrounds
      exact hrounds.rank_lt
    | heard hphase' => cases hphase.symm.trans hphase'
    | refused hphase' => cases hphase.symm.trans hphase'
    | counted hphase' => cases hphase.symm.trans hphase'
  · exact h.rank_lt_of_not_waiting (not_exists.mp hwaits)

def stopping (t : Transfer) : Nat × Nat × Nat × Nat := (if t.heard then 0 else 1, t.rank, t.patience)

def Sooner : Nat × Nat × Nat × Nat → Nat × Nat × Nat × Nat → Prop :=
  Prod.Lex (· < ·) (Prod.Lex (· < ·) (Prod.Lex (· < ·) (· < ·)))

theorem sooner_wellFounded : WellFounded Sooner :=
  (Prod.lex Nat.lt_wfRel (Prod.lex Nat.lt_wfRel (Prod.lex Nat.lt_wfRel Nat.lt_wfRel))).wf

theorem sooner_of_patience (hheard : u.heard = t.heard) (hphase : u.phase = t.phase)
    (hless : Prod.Lex (· < ·) (· < ·) u.patience t.patience) : Sooner u.stopping t.stopping := by
  have hrank : u.rank = t.rank := by rw [rank, rank, hphase]
  rw [stopping, stopping, hheard, hrank]
  exact .right _ (.right _ hless)

theorem patience_lt_of_vigil (hunread : u.unread = t.unread) (hvigil : u.vigil < t.vigil)
    (hremaining : u.remaining = t.remaining) : Prod.Lex (· < ·) (· < ·) u.patience t.patience := by
  rw [patience, patience, hunread, hremaining]
  exact .right _ (Nat.add_lt_add_right hvigil _)

/-- A step of a transfer that was asked to stop brings it nearer to its end, or leaves less to do
before its coordinator moves. -/
theorem Invariant.descends (h : t.Invariant threshold) (hasked : t.shutdown = true)
    (htimed : t.forwarder.tail.Timed) (hcounts : t.CountsOn) (hstep : t.step? = some u) :
    Sooner u.stopping t.stopping := by
  obtain ⟨_, hfill | ⟨_, hforward | ⟨_, hhear | ⟨hhear, hcoordinate | ⟨_, hexpire⟩⟩⟩⟩⟩ :=
    step?_cases hstep
  · have hless := unread_lt_of_fill? hfill
    obtain ⟨e, rest, _, _, rfl⟩ := fill?_eq hfill
    exact sooner_of_patience rfl rfl (.left _ _ hless)
  · have hless := h.less_of_forward? htimed hcounts hforward
    obtain ⟨oplog, forwarder, events, _, _, rfl⟩ := forward?_eq hforward
    refine sooner_of_patience rfl rfl ?_
    rcases hless with hread | ⟨hsame, hvigil⟩
    · exact .left _ _ hread
    · exact patience_lt_of_vigil hsame hvigil rfl
  · obtain ⟨_, hunheard, rfl⟩ := hear?_eq hhear
    rw [stopping, stopping, hunheard]
    exact .left _ _ Nat.zero_lt_one
  · have hheard : t.heard = true := by simpa [Transfer.hear?, hasked] using hhear
    have hlower := (h.acts hcoordinate).rank_lt hheard
    rw [stopping, stopping, hheard, (listens_of_coordinate? hcoordinate).kept hheard]
    exact .right _ (.left _ _ hlower)
  · obtain ⟨hsame, hvigil⟩ := less_of_expire? hexpire
    obtain ⟨forwarder, _, _, rfl⟩ := expire?_eq hexpire
    exact sooner_of_patience rfl rfl (patience_lt_of_vigil hsame hvigil rfl)

theorem vigil_pass {moment : Nat} (h : t.now ≤ moment) :
    ({ t with now := moment } : Transfer).vigil ≤ t.vigil := t.forwarder.vigil_mono h

theorem applying_of_rest (hasked : t.shutdown = true) (hdone : t.isDone = false)
    (hrest : t.step? = none) : ∃ f ops due, t.phase = .applying f ops due := by
  have hheard := heard_of_rest hrest hdone hasked
  obtain ⟨_, _, _, hcoordinate, _⟩ := steps_none hrest hdone
  cases hphase : t.phase with
  | waiting watching => simp [coordinate?, hphase, roused, hheard] at hcoordinate
  | applying f ops due => exact ⟨f, ops, due, rfl⟩
  | answered f answer => simp [coordinate?, hphase] at hcoordinate
  | done outcome => simp [isDone, hphase] at hdone

/-- The time for which a transfer rests that was asked to stop comes to an end. -/
theorem sooner_of_rest (hasked : t.shutdown = true) (hdone : t.isDone = false)
    (hrest : t.step? = none) : ∃ moment, t.due? = some moment ∧
      Sooner ({ t with now := moment } : Transfer).stopping t.stopping := by
  obtain ⟨f, ops, due, hphase⟩ := applying_of_rest hasked hdone hrest
  obtain ⟨moment, hmoment, hwithin⟩ := sooner_le_right (a := t.forwarder.due?) (b := some due) rfl
  have hdue : t.due? = some moment := by simp [due?, hphase, hmoment]
  have hlater := lt_due hrest hdue
  have hvigil := vigil_pass (t := t) (Nat.le_of_lt hlater)
  have hremaining : t.remaining = due - t.now := by simp only [remaining, hphase]
  have hremaining' : ({ t with now := moment } : Transfer).remaining = due - moment := by
    simp only [remaining, hphase]
  refine ⟨moment, hdue, sooner_of_patience rfl rfl ?_⟩
  rw [patience, patience, hremaining, hremaining']
  exact .right _ (by omega)

end Transfer

end OplogRelay
