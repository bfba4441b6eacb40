import OplogRelay.Proofs.Number.Spans
import OplogRelay.Proofs.Source.Relayable
import OplogRelay.Source.Tail
/-!
The work of a tail, told by cases: what a look sees, what follows from it, and how a wait that brought
nothing goes on. Later proofs go by these cases and do not open the functions again.
-/
namespace OplogRelay

theorem Opening.tail_eq_ok {opening : Opening} {ns : Namespace} {idle : Quantity} {now : Nat} {t : Tail}
    (h : (opening.tail ns idle now).2 = .ok t) :
    ∃ threshold, Window.threshold? opening.lookback opening.clock = .ok threshold ∧
      t = .start ns threshold idle now := by
  unfold Opening.tail at h
  split at h
  · cases h
  · next threshold hthreshold =>
    refine ⟨threshold, hthreshold, ?_⟩
    dsimp only at h
    split at h
    · split at h
      · cases h
      · exact (Except.ok.inj h).symm
    · cases h

namespace Tail

/-- How a tail goes on after a look or a wait that brought nothing. -/
inductive GivesUp (now : Nat) (t : Tail) : Outcome → Tail → List Event → Prop where
  | idled : t.idle.span.elapsed t.lastSeen now = true →
      GivesUp now t .ended { t with phase := .over } [.idled t.ns t.idle]
  | anew : t.idle.span.elapsed t.lastSeen now = false → t.cursor.alive = true → t.closed = false →
      GivesUp now t .pending { t with phase := .looking } []
  | shut : t.cursor.alive = false ∨ t.closed = true →
      GivesUp now t .ended { t with phase := .over } []

/-- What follows from a look; `again` tells that the look came after a wait. -/
inductive Follows (now : Nat) (again : Bool) (t : Tail) :
    Look → Outcome → Tail → List Event → Prop where
  | entry {d e} : Entry.ofDocument? d = .ok e →
      Follows now again t (.document d) (.entry e) { t with lastSeen := now, phase := .resting } []
  | malformed {d e} : Entry.ofDocument? d = .error e →
      Follows now again t (.document d) (.failed (.ofEntryError e))
        { t with lastSeen := now, phase := .over } []
  | fault (f : Fault) : Follows now again t (.fault f) (.failed (.ofReadFault f)) { t with phase := .over } []
  | unreadable (e : UnreadableError) :
      Follows now again t (.unreadable e) (.failed (.unreadable e)) { t with phase := .over } []
  | ended {outcome t' events} : t.GivesUp now outcome t' events →
      Follows now again t .ended outcome t' events
  | fruitless {outcome t' events} : again = true → t.GivesUp now outcome t' events →
      Follows now again t .nothing outcome t' events
  | untimed {e} : again = false → t.cursor.wait? = .error e →
      Follows now again t .nothing (.failed e) { t with phase := .over } []
  | waits {span} : again = false → t.cursor.wait? = .ok span →
      Follows now again t .nothing .pending { t with phase := .waiting (span.after now) false } []

/-- A step is a look, of a tail that was about to look or was woken, and what follows from it; or a wait
that has run out is given up. -/
inductive Works (now : Nat) (o : Oplog) (t : Tail) : Outcome → Oplog → Tail → List Event → Prop where
  | looks {again seen o' cursor outcome t' events} :
      (again = false ∧ t.phase = .looking ∨ again = true ∧ ∃ until?, t.phase = .waiting until? true) →
      t.cursor.Sees o seen o' cursor →
      ({ t with cursor := cursor } : Tail).Follows now again seen outcome t' events →
      Works now o t outcome o' t' events
  | lapses {outcome t' events} : t.phase = .lapsed → t.GivesUp now outcome t' events →
      Works now o t outcome o t' events

variable {t t' : Tail} {now : Nat} {outcome : Outcome} {events : List Event}

theorem wait?_of_number {c : Cursor} {q : Quantity} (h : c.await = .number q) :
    c.wait? = match q.wait? with
      | .ok span => .ok span
      | .error e => .error (.conversion e) := by
  cases hq : q.wait? <;> simp only [Cursor.wait?, h, Value.amount?, hq]

theorem wait?_eq_ok {c : Cursor} {q : Quantity} {span : Span} (h : c.await = .number q)
    (hwait : c.wait? = .ok span) : q.wait? = .ok span := by
  rw [wait?_of_number h] at hwait
  split at hwait
  · next hq =>
    cases hwait
    exact hq
  · cases hwait

theorem wait?_eq_error {c : Cursor} {q : Quantity} {failure : Failure} (h : c.await = .number q)
    (hwait : c.wait? = .error failure) : ∃ e, q.wait? = .error e ∧ failure = .conversion e := by
  rw [wait?_of_number h] at hwait
  split at hwait
  · cases hwait
  · next e hq =>
    cases hwait
    exact ⟨e, hq, rfl⟩

theorem givesUp_of_giveUp (h : t.giveUp now = (outcome, t', events)) :
    t.GivesUp now outcome t' events := by
  unfold giveUp at h
  split at h
  · next helapsed =>
    cases h
    exact .idled helapsed
  · next hlate =>
    split at h
    · next hgoes =>
      cases h
      obtain ⟨halive, hopen⟩ := (Bool.and_eq_true_iff).mp hgoes
      exact .anew (by simpa using hlate) halive (by simpa using hopen)
    · next hstops =>
      cases h
      refine .shut ?_
      by_cases halive : t.cursor.alive = true
      · exact .inr (by simpa [halive] using hstops)
      · exact .inl (by simpa using halive)

theorem follows_of_onLook {again : Bool} {seen : Look}
    (h : t.onLook now again seen = (outcome, t', events)) :
    t.Follows now again seen outcome t' events := by
  cases seen with
  | document d =>
    simp only [onLook, take] at h
    split at h
    · next e he =>
      cases h
      exact .entry he
    · next e he =>
      cases h
      exact .malformed he
  | fault f =>
    cases h
    exact .fault f
  | unreadable e =>
    cases h
    exact .unreadable e
  | ended => exact .ended (givesUp_of_giveUp h)
  | nothing =>
    cases again with
    | true => exact .fruitless rfl (givesUp_of_giveUp h)
    | false =>
      simp only [onLook, Bool.false_eq_true, if_false] at h
      split at h
      · next e he =>
        cases h
        exact .untimed rfl he
      · next span hspan =>
        cases h
        exact .waits rfl hspan

theorem works_of_step? {o o' : Oplog} (h : t.step? now o = some (outcome, o', t', events)) :
    t.Works now o outcome o' t' events := by
  have hs := Cursor.look_sees o t.cursor
  unfold step? at h
  cases hp : t.phase with
  | looking =>
    simp only [hp] at h
    cases h
    exact .looks (.inl ⟨rfl, hp⟩) hs (follows_of_onLook rfl)
  | waiting until? woken =>
    cases woken with
    | true =>
      simp only [hp] at h
      cases h
      exact .looks (.inr ⟨rfl, _, hp⟩) hs (follows_of_onLook rfl)
    | false => simp [hp] at h
  | lapsed =>
    simp only [hp] at h
    cases h
    exact .lapses hp (givesUp_of_giveUp rfl)
  | resting => simp [hp] at h
  | _ => simp [hp] at h

theorem expire?_eq_some (h : t.expire? now = some t') :
    ∃ due, t.phase = .waiting (some due) false ∧ due ≤ now ∧ t' = { t with phase := .lapsed } := by
  unfold expire? at h
  split at h
  · next due hphase =>
    split at h
    · next hle => exact ⟨due, hphase, hle, (Option.some.inj h).symm⟩
    · cases h
  · cases h

theorem GivesUp.not_waiting {until? : Option Nat} {woken : Bool}
    (h : t.GivesUp now outcome t' events) : t'.phase ≠ .waiting until? woken := by
  cases h <;> simp

theorem Follows.wait_eq {again woken : Bool} {seen : Look} {until? : Option Nat}
    (h : t.Follows now again seen outcome t' events) (hawait : t.cursor.await = .number t.idle)
    (hwaits : t'.phase = .waiting until? woken) : until? = t.idle.span.after now ∧ woken = false := by
  cases h with
  | waits _ hwait =>
    rw [← Quantity.span_of_wait? (wait?_eq_ok hawait hwait)]
    obtain ⟨huntil, hwoken⟩ := Phase.waiting.inj hwaits
    exact ⟨huntil.symm, hwoken.symm⟩
  | ended hgives => exact absurd hwaits hgives.not_waiting
  | fruitless _ hgives => exact absurd hwaits hgives.not_waiting
  | _ => cases hwaits

theorem Works.not_lapsed {o o' : Oplog} (h : t.Works now o outcome o' t' events) : t'.phase ≠ .lapsed := by
  cases h with
  | looks _ _ hlook =>
    cases hlook with
    | ended hgives => cases hgives <;> simp
    | fruitless _ hgives => cases hgives <;> simp
    | _ => simp
  | lapses _ hgives => cases hgives <;> simp

theorem Works.wait_eq {o o' : Oplog} {until? : Option Nat} {woken : Bool}
    (h : t.Works now o outcome o' t' events) (hawait : t.cursor.await = .number t.idle)
    (hwaits : t'.phase = .waiting until? woken) : until? = t.idle.span.after now ∧ woken = false := by
  cases h with
  | looks _ hsees hlook =>
    refine hlook.wait_eq ?_ hwaits
    cases hsees <;> exact hawait
  | lapses _ hgives => exact absurd hwaits hgives.not_waiting

theorem lt_due {moment : Nat} (h : t.expire? now = none) (hdue : t.due? = some moment) :
    now < moment := by
  by_contra hle
  unfold due? at hdue
  split at hdue
  · next until? hphase =>
    subst hdue
    simp [expire?, hphase, Nat.le_of_not_lt hle] at h
  · cases hdue

end Tail

end OplogRelay
