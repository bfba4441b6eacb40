import OplogRelay.Proofs.Source.Delivery
import OplogRelay.Source.Reading
/-!
For how long a consumer that has asked waits before it is told that there is no more. A tail that ends by
itself counts from the moment at which it last read a document. For a consumer that asks as soon as it has
been given an entry this comes to the same as to count from its asking. For one that takes its time it does
not: an append that brings nothing to read ends the tail as soon as it is woken.
-/
namespace OplogRelay.Delivery

/-- The consumer has asked for the next entry at the moment `since`, or has begun with it. -/
inductive Asked (threshold : Timestamp) (idle : Quantity) : Nat → Delivery → Prop where
  | start (ns : Namespace) (now : Nat) (oplog : Oplog) :
      Asked threshold idle now (.start ns threshold idle now oplog)
  | ask {since d} : Asked threshold idle since d → d.tail.phase = .resting →
      Asked threshold idle d.now d.ask
  | step {since d s} : Asked threshold idle since d → d.Step s →
      (d.tail.phase = .resting → s.tail.phase = .resting) → Asked threshold idle since s

variable {threshold : Timestamp} {idle : Quantity} {since : Nat} {d s : Delivery}

theorem Asked.reachable (h : Asked threshold idle since d) : Reachable threshold idle d := by
  induction h with
  | start ns now oplog => exact .start ns now oplog
  | ask _ _ ih => exact .step ih .ask
  | step _ hs _ ih => exact .step ih hs

theorem Step.rests (hs : d.Step s) (hrest : d.tail.phase = .resting) :
    s = d.ask ∨ s.tail.phase = .resting := by
  cases hs with
  | look hlook =>
    obtain ⟨_, _, _, _, hstep, _⟩ := look?_eq_some hlook
    simp [Tail.step?, hrest] at hstep
  | expire hends =>
    obtain ⟨_, hexpire, _⟩ := expire?_eq_some hends
    simp [Tail.expire?, hrest] at hexpire
  | ask => exact .inl rfl
  | append docs => exact .inr (by simp [Delivery.append, Tail.wake, hrest])
  | inject f => exact .inr (by simp [Delivery.inject, Delivery.append, Tail.wake, hrest])
  | close => exact .inr hrest
  | pass => exact .inr hrest

theorem asked_of_reachable (h : Reachable threshold idle d) : ∃ since, Asked threshold idle since d := by
  induction h with
  | start ns now oplog => exact ⟨now, .start ns now oplog⟩
  | @step d s _ hs ih =>
    obtain ⟨since, hasked⟩ := ih
    by_cases hrest : d.tail.phase = .resting
    · rcases hs.rests hrest with rfl | hstays
      · exact ⟨d.now, .ask hasked hrest⟩
      · exact ⟨since, .step hasked hs fun _ => hstays⟩
    · exact ⟨since, .step hasked hs fun hrests => absurd hrests hrest⟩

def IsWoken (d : Delivery) : Prop := ∃ until?, d.tail.phase = .waiting until? true

/-- What the tail has read it has read before the consumer asked, and no wait began before that. -/
structure Patient (idle : Quantity) (since : Nat) (d : Delivery) : Prop where
  asked : since ≤ d.now
  read : d.ending = none → d.tail.lastSeen ≤ d.now
  seen : d.ending = none → d.tail.phase ≠ .resting → d.tail.lastSeen ≤ since
  waits : ∀ until? woken, d.tail.phase = .waiting until? woken →
    ∃ begun, since ≤ begun ∧ until? = idle.span.after begun
  waited : d.tail.phase = .lapsed → idle.span.HasPassed since d.now

variable {outcome : Tail.Outcome} {events : List Event}

theorem Patient.onOutcome {o' : Oplog} {tail : Tail} (h : d.Patient idle since) (hlive : d.ending = none)
    (hwork : d.tail.phase ≠ .resting) (hleaves : outcome.Leaves d.now d.tail tail)
    (hwaits : ∀ until? woken, tail.phase = .waiting until? woken → until? = idle.span.after d.now)
    (hlasts : tail.phase ≠ .lapsed) :
    (({ d with oplog := o', tail := tail } : Delivery).onOutcome outcome).Patient idle since := by
  have hbegun : ∀ until? woken, tail.phase = .waiting until? woken →
      ∃ begun, since ≤ begun ∧ until? = idle.span.after begun :=
    fun until? woken hphase => ⟨d.now, h.asked, hwaits until? woken hphase⟩
  cases outcome with
  | entry e =>
    obtain ⟨hseen, hrest⟩ := hleaves
    exact ⟨h.asked, fun _ => Nat.le_of_eq hseen, fun _ hasked => absurd hrest hasked, hbegun,
      fun hlapsed => absurd hlapsed hlasts⟩
  | pending =>
    have hseen : tail.lastSeen = d.tail.lastSeen := hleaves.1
    refine ⟨h.asked, fun _ => ?_, fun _ _ => ?_, hbegun, fun hlapsed => absurd hlapsed hlasts⟩
    · exact hseen ▸ h.read hlive
    · exact hseen ▸ h.seen hlive hwork
  | ended => exact ⟨h.asked, nofun, nofun, hbegun, fun hlapsed => absurd hlapsed hlasts⟩
  | failed e => exact ⟨h.asked, nofun, nofun, hbegun, fun hlapsed => absurd hlapsed hlasts⟩

theorem Patient.wake {o' : Oplog} (h : d.Patient idle since) :
    ({ d with oplog := o', tail := d.tail.wake } : Delivery).Patient idle since := by
  refine ⟨h.asked, fun hlive => d.tail.wake_lastSeen ▸ h.read hlive, fun hlive hasked => ?_, ?_,
    fun hlapsed => h.waited (Tail.lapsed_of_wake hlapsed)⟩
  · rw [Tail.wake_lastSeen]
    exact h.seen hlive fun hrest => hasked (by simp [Tail.wake, hrest])
  · intro until? woken hphase
    obtain ⟨before, hwaits⟩ := Tail.waits_of_wake hphase
    exact h.waits until? before hwaits

theorem Patient.step (h : d.Patient idle since) (hsound : d.Sound threshold idle) (hs : d.Step s)
    (hrests : d.tail.phase = .resting → s.tail.phase = .resting) : s.Patient idle since := by
  cases hs with
  | look hlook =>
    obtain ⟨outcome, o', tail, events, hstep, rfl⟩ := look?_eq_some hlook
    have hworks := Tail.works_of_step? hstep
    refine h.onOutcome (hsound.live_of_step? hstep) ?_ (Tail.leaves_of_step? hstep).2 ?_ hworks.not_lapsed
    · intro hrest
      simp [Tail.step?, hrest] at hstep
    · intro until? woken hphase
      rw [← hsound.idle]
      exact (hworks.wait_eq hsound.placed.await hphase).1
  | expire hends =>
    obtain ⟨tail, hexpire, rfl⟩ := expire?_eq_some hends
    obtain ⟨due, hphase, hdue, rfl⟩ := Tail.expire?_eq_some hexpire
    obtain ⟨begun, hsince, hafter⟩ := h.waits _ _ hphase
    have hpassed : idle.span.HasPassed since d.now :=
      Span.HasPassed.since ⟨due, hafter.symm, hdue⟩ hsince
    refine ⟨h.asked, h.read, fun hlive _ => h.seen hlive (by simp [hphase]), ?_, fun _ => hpassed⟩
    rintro _ _ ⟨⟩
  | ask =>
    have hwork : d.tail.phase ≠ .resting := by
      intro hrest
      have hstays := hrests hrest
      simp [Delivery.ask, Tail.resume, hrest] at hstays
    have hsame : d.ask = d := by rw [Delivery.ask, Tail.resume_of_not_resting hwork]
    rw [hsame]
    exact h
  | append docs => exact h.wake
  | inject f => exact h.wake
  | close => exact ⟨h.asked, h.read, h.seen, h.waits, h.waited⟩
  | pass moment hle =>
    refine ⟨Nat.le_trans h.asked hle, fun hlive => Nat.le_trans (h.read hlive) hle, h.seen, h.waits,
      fun hlapsed => ?_⟩
    obtain ⟨due, hafter, hdue⟩ := h.waited hlapsed
    exact ⟨due, hafter, hdue.trans hle⟩

theorem Asked.patient (h : Asked threshold idle since d) : d.Patient idle since := by
  induction h with
  | start ns now oplog =>
    refine ⟨Nat.le_refl _, fun _ => Nat.le_refl _, fun _ _ => Nat.le_refl _, ?_, nofun⟩
    intro until? woken hwaits
    cases hwaits
  | @ask _ d hasked hrest ih =>
    refine ⟨Nat.le_refl _, ?_, ?_, ?_, ?_⟩
    · exact fun hlive => d.tail.resume_lastSeen ▸ ih.read hlive
    · exact fun hlive _ => d.tail.resume_lastSeen ▸ ih.read hlive
    · intro until? woken hphase
      cases hrest.symm.trans (Tail.resume_waiting hphase)
    · intro hlapsed
      simp [Delivery.ask, Tail.resume, hrest] at hlapsed
  | step hasked hs hrests ih => exact ih.step (reachable_sound hasked.reachable) hs hrests

theorem tail_onOutcome (d : Delivery) (outcome : Tail.Outcome) : (d.onOutcome outcome).tail = d.tail := by
  cases outcome <;> rfl

theorem lastRead_ended {o' : Oplog} {tail : Tail} :
    (({ d with oplog := o', tail := tail } : Delivery).onOutcome .ended).lastRead = d.lastRead := rfl

/-- A tail that ends by itself was read before the consumer asked, and has waited since then for as long as it
is to wait, unless it was woken. -/
theorem Asked.ends (h : Asked threshold idle since d) (hs : d.Step s) (hlive : d.ending = none)
    (hended : s.ending = some (.ok ())) (hopen : s.tail.closed = false) :
    s.lastRead ≤ since ∧ (d.IsWoken ∨ idle.span.HasPassed since s.now) := by
  have hsound := reachable_sound h.reachable
  have hpatient := h.patient
  cases hs with
  | look hlook =>
    obtain ⟨outcome, o', tail, events, hstep, rfl⟩ := look?_eq_some hlook
    obtain rfl := ended_of_onOutcome (d := { d with oplog := o', tail := tail }) hlive hended
    have hopen' : d.tail.closed = false := (Tail.leaves_of_step? hstep).1.symm.trans hopen
    rw [lastRead_ended, ← hsound.seen hlive]
    rcases Tail.waited_of_step?_ended (hsound.live hlive hopen').alive hstep with hlapsed | ⟨until?, hwoken⟩
    · exact ⟨hpatient.seen hlive (by simp [hlapsed]), .inr (hpatient.waited hlapsed)⟩
    · exact ⟨hpatient.seen hlive (by simp [hwoken]), .inl ⟨until?, hwoken⟩⟩
  | expire hends =>
    obtain ⟨tail, _, rfl⟩ := expire?_eq_some hends
    cases hlive.symm.trans hended
  | ask => cases hlive.symm.trans hended
  | append => cases hlive.symm.trans hended
  | inject => cases hlive.symm.trans hended
  | close => cases hlive.symm.trans hended
  | pass => cases hlive.symm.trans hended

theorem Sound.woken (h : d.Sound threshold idle) (hs : d.Step s) (hwoken : s.IsWoken) :
    d.IsWoken ∨ (∃ until?, d.tail.phase = .waiting until? false) ∧
      ((∃ docs, s = d.append docs) ∨ ∃ f, s = d.inject f) := by
  obtain ⟨until?, hphase⟩ := hwoken
  have hbefore {how : Prop} (hhow : how) (hwakes : d.tail.wake.phase = .waiting until? true) :
      d.IsWoken ∨ (∃ until?, d.tail.phase = .waiting until? false) ∧ how := by
    obtain ⟨before, hwaits⟩ := Tail.waits_of_wake hwakes
    cases before with
    | true => exact .inl ⟨until?, hwaits⟩
    | false => exact .inr ⟨⟨until?, hwaits⟩, hhow⟩
  cases hs with
  | look hlook =>
    obtain ⟨outcome, o', tail, events, hstep, rfl⟩ := look?_eq_some hlook
    rw [tail_onOutcome] at hphase
    cases ((Tail.works_of_step? hstep).wait_eq h.placed.await hphase).2
  | expire hends =>
    obtain ⟨tail, hexpire, rfl⟩ := expire?_eq_some hends
    obtain ⟨_, _, _, rfl⟩ := Tail.expire?_eq_some hexpire
    cases hphase
  | ask => exact .inl ⟨until?, Tail.resume_waiting hphase⟩
  | append docs => exact hbefore (.inl ⟨docs, rfl⟩) hphase
  | inject f => exact hbefore (.inr ⟨f, rfl⟩) hphase
  | close => exact .inl ⟨until?, hphase⟩
  | pass => exact .inl ⟨until?, hphase⟩

theorem Sound.look_woken (h : d.Sound threshold idle) (hwoken : d.IsWoken) (hlive : d.ending = none)
    (hopen : d.tail.closed = false) (hfault : d.oplog.fault = none)
    (hread : ∀ x ∈ d.oplog.documents, x.IsReadable threshold)
    (hall : d.entries.map Entry.raw = Document.window threshold d.oplog.documents) :
    ∃ s, d.look? = some s ∧ s.yielded = d.yielded ∧
      (s.ending = some (.ok ()) ∧ idle.span.elapsed d.lastRead d.now = true ∨
        s.ending = none ∧ idle.span.elapsed d.lastRead d.now = false) := by
  obtain ⟨until?, hphase⟩ := hwoken
  obtain ⟨n, hcovers, hn⟩ := h.covers
  obtain rfl := hn hlive
  have hbelow : ∀ x ∈ d.oplog.documents.drop d.tail.cursor.position,
      Cursor.reaches d.tail.cursor.threshold x = .ok false := by
    rw [h.placed.threshold]
    exact fun x hx => Cursor.reaches_of_isBelow (hcovers.rest_below hread hall x hx)
  obtain ⟨outcome, tail, events, hstep, houtcome⟩ :=
    Tail.step?_woken d.now hphase (h.live hlive hopen).alive hopen hfault hbelow
  rw [h.idle, h.seen hlive] at houtcome
  refine ⟨_, look?_of_step? hstep, ?_⟩
  rcases houtcome with ⟨rfl, helapsed⟩ | ⟨rfl, hlate⟩
  · exact ⟨rfl, .inl ⟨rfl, helapsed⟩⟩
  · exact ⟨rfl, .inr ⟨hlive, hlate⟩⟩

/-- When an iteration ends by itself. It has then given all that was there at its last look, or when its last
wait ran out, and as much time as it is to wait has passed since the last document was read, which was before
the consumer asked; it has passed since the consumer asked as well, unless the tail was woken. Only an append,
be it of nothing, wakes a tail that waits, and a tail that was woken for nothing ends at once if enough time has
passed since the last document, no matter when it was asked. -/
theorem waits_or_was_woken (h : Asked threshold idle since d) :
    since ≤ d.now ∧
    (∀ s, d.Step s → d.ending = none → s.ending = some (.ok ()) → s.tail.closed = false →
      (∃ docs, (docs = s.oplog.documents ∨ RanOut threshold idle docs d) ∧
        docs <+: s.oplog.documents ∧ s.entries.map Entry.raw = Document.window threshold docs) ∧
        idle.span.elapsed s.lastRead s.now = true ∧ s.lastRead ≤ since ∧
        (d.IsWoken ∨ idle.span.HasPassed since s.now)) ∧
    (∀ s, d.Step s → s.IsWoken → d.IsWoken ∨ (∃ until?, d.tail.phase = .waiting until? false) ∧
      ((∃ docs, s = d.append docs) ∨ ∃ f, s = d.inject f)) ∧
    (d.IsWoken → d.ending = none → d.tail.closed = false → d.oplog.fault = none →
      (∀ x ∈ d.oplog.documents, x.IsReadable threshold) →
      d.entries.map Entry.raw = Document.window threshold d.oplog.documents →
      ∃ s, d.look? = some s ∧ s.yielded = d.yielded ∧
        (s.ending = some (.ok ()) ∧ idle.span.elapsed d.lastRead d.now = true ∨
          s.ending = none ∧ idle.span.elapsed d.lastRead d.now = false)) := by
  have hsound := reachable_sound h.reachable
  refine ⟨h.patient.asked, ?_, fun s => hsound.woken, hsound.look_woken⟩
  intro s hs hlive hended hopen
  obtain ⟨hall, helapsed⟩ := hsound.exhausts h.reachable hs hlive hended hopen
  obtain ⟨hread, hwaited⟩ := h.ends hs hlive hended hopen
  exact ⟨hall, helapsed, hread, hwaited⟩

def looked (d : Delivery) : Delivery := d.look?.getD d

theorem Asked.looked (h : Asked threshold idle since d) (hwork : d.tail.phase ≠ .resting) :
    Asked threshold idle since d.looked := by
  unfold Delivery.looked
  cases hlook : d.look? with
  | none => exact h
  | some s => exact .step h (.look hlook) fun hrest => absurd hrest hwork

theorem Asked.pass (h : Asked threshold idle since d) (moment : Nat) (hle : d.now ≤ moment) :
    Asked threshold idle since { d with now := moment } :=
  .step h (.pass moment hle) id

def insertion (seconds : UInt32) (id : Int) : Document :=
  [("ts", .timestamp (.ofWords seconds 1)), ("op", .text "i"), ("o", .document [("_id", .number (.whole id))])]

def single : Delivery :=
  .start ⟨"local", "oplog.rs"⟩ earliest (.whole 5) 0 { documents := [insertion 30 1] }

def asking : Delivery := ({ single.looked with now := Moment.second 10 } : Delivery).ask.looked

def hurried : Delivery := ({ asking with now := Moment.second 11 } : Delivery).append []

theorem asked_asking : Asked earliest (.whole 5) (Moment.second 10) asking := by
  have hstart : Asked earliest (.whole 5) 0 single := .start _ 0 _
  have hgiven := hstart.looked (by decide)
  have hbusy := hgiven.pass (Moment.second 10) (by decide +kernel)
  exact (hbusy.ask (by decide +kernel)).looked (by decide +kernel)

theorem asked_hurried : Asked earliest (.whole 5) (Moment.second 10) hurried := by
  have hlater := asked_asking.pass (Moment.second 11) (by decide +kernel)
  exact .step hlater (.append []) fun hrest => absurd hrest (by decide +kernel)

def endsAt (s : Delivery) : Option Nat :=
  if s.ending.any Except.isOk && !s.tail.closed then some s.now else none

theorem endsAt_eq_some {moment : Nat} (h : s.endsAt = some moment) :
    s.ending = some (.ok ()) ∧ s.tail.closed = false ∧ s.now = moment := by
  unfold endsAt at h
  split at h
  · next hends =>
    obtain ⟨hok, hopen⟩ := Bool.and_eq_true_iff.mp hends
    refine ⟨?_, by simpa using hopen, Option.some.inj h⟩
    match s.ending, hok with
    | some (.ok ()), _ => rfl
  · cases h

def expired (d : Delivery) : Delivery := d.expire?.getD d

theorem Asked.expired (h : Asked threshold idle since d) (hwork : d.tail.phase ≠ .resting) :
    Asked threshold idle since d.expired := by
  unfold Delivery.expired
  cases hexpire : d.expire? with
  | none => exact h
  | some s => exact .step h (.expire hexpire) fun hrest => absurd hrest hwork

def patient : Delivery := ({ asking with now := Moment.second 15 } : Delivery).expired

theorem asked_patient : Asked earliest (.whole 5) (Moment.second 10) patient := by
  have hlater := asked_asking.pass (Moment.second 15) (by decide +kernel)
  exact hlater.expired (by decide +kernel)

theorem waits_or_was_woken_single :
    (∃ s, patient.look? = some s ∧ s.ending = some (.ok ()) ∧ s.now = Moment.second 15 ∧
      (Quantity.whole 5).span.HasPassed (Moment.second 10) s.now) ∧
    ∃ s, hurried.look? = some s ∧ s.ending = some (.ok ()) ∧ s.now = Moment.second 11 ∧
      s.lastRead ≤ Moment.second 10 ∧ (Quantity.whole 5).span.elapsed s.lastRead s.now = true := by
  have hpatient := asked_patient
  have hhurried := asked_hurried
  have hends : patient.look?.bind endsAt = some (Moment.second 15) := by decide +kernel
  have hlooks : hurried.look?.bind endsAt = some (Moment.second 11) := by decide +kernel
  have hlapsed : patient.tail.phase = .lapsed := by decide +kernel
  have hlive : patient.ending = none := Option.isNone_iff_eq_none.mp (by decide +kernel)
  have hlive' : hurried.ending = none := Option.isNone_iff_eq_none.mp (by decide +kernel)
  -- what follows is about any such states: they must not be computed again
  generalize patient = d at *
  generalize hurried = u at *
  obtain ⟨s, hs, hends⟩ := Option.bind_eq_some_iff.mp hends
  obtain ⟨hended, hopen, hnow⟩ := endsAt_eq_some hends
  obtain ⟨s', hs', hends'⟩ := Option.bind_eq_some_iff.mp hlooks
  obtain ⟨hended', hopen', hnow'⟩ := endsAt_eq_some hends'
  obtain ⟨_, _, _, hwaited⟩ := (waits_or_was_woken hpatient).2.1 s (.look hs) hlive hended hopen
  obtain ⟨_, helapsed, hread, _⟩ := (waits_or_was_woken hhurried).2.1 s' (.look hs') hlive' hended' hopen'
  refine ⟨⟨s, hs, hended, hnow, hwaited.resolve_left ?_⟩, s', hs', hended', hnow', hread, helapsed⟩
  rintro ⟨until?, hwoken⟩
  cases hlapsed.symm.trans hwoken

/-- A reading that is busy for ten seconds with each entry, while the log grows by nothing after eleven seconds
and by another entry after thirteen: how many entries it was given, and when it ended. -/
def busyReading : Option (Nat × Nat) :=
  (Reading.open? "local.oplog.rs" [insertion 1700000050 1]
    { lookback := 3600, clock := .whole 1700000100 } (.whole 5) (.seconds 10)).toOption.bind fun r =>
      let last := Timed.finish <| [.advance (.seconds 11), .append [], .advance (.seconds 2),
        .append [insertion 1700000060 2]].foldl Reading.perform (Timed.settle r)
      if last.outcome.any Except.isOk then some (last.got.length, last.endedAt) else none

/-- A consumer is told of the end one second after it asked, with a tail that waits for five: the tail was
woken for nothing. The entry that comes two seconds later is never handed out. -/
theorem ends_before_it_has_waited :
    (¬ ∀ threshold idle since d s, Asked threshold idle since d → d.Step s → d.ending = none →
      s.ending = some (.ok ()) → s.tail.closed = false → idle.span.HasPassed since s.now) ∧
    busyReading = some (1, Moment.second 11) := by
  have hhurried := asked_hurried
  have hlooks : hurried.look?.bind endsAt = some (Moment.second 11) := by decide +kernel
  have hlive : hurried.ending = none := Option.isNone_iff_eq_none.mp (by decide +kernel)
  have hlate : ∀ due, (Quantity.whole 5).span.after (Moment.second 10) = some due → ¬ due ≤ Moment.second 11 := by
    have hnot : ((Quantity.whole 5).span.after (Moment.second 10)).all fun due => !decide (due ≤ Moment.second 11) := by
      decide +kernel
    intro due hdue
    simpa [hdue] using hnot
  generalize hurried = d at *
  constructor
  · intro hwaits
    obtain ⟨s, hs, hends⟩ := Option.bind_eq_some_iff.mp hlooks
    obtain ⟨hended, hopen, hnow⟩ := endsAt_eq_some hends
    obtain ⟨due, hdue, hcame⟩ := hwaits _ _ (Moment.second 10) d s hhurried (.look hs) hlive hended hopen
    exact hlate due hdue (hnow ▸ hcame)
  · decide +kernel

end OplogRelay.Delivery
