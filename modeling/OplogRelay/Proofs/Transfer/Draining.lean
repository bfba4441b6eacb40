import OplogRelay.Proofs.Transfer.Wakefulness
/-!
A transfer that nothing more is done to gets to its end by itself, if the clock can be set forward by its two
spans. Whatever is read, queued and received leaves less to be read; where nothing of that is left to do, each
wait of the forwarder brings it nearer to its last one; and between two of them the clock brings the
coordinator or the forwarder nearer to its next step.
-/
namespace OplogRelay

namespace Transfer

variable {t u : Transfer} {threshold : Timestamp} {events : List Event}

/-- What is left to be read, to be claimed and to be received. Reading an entry may put one on the queue,
and a claim takes one off it. -/
def load (t : Transfer) : Nat :=
  3 * t.forwarder.unread t.oplog.documents.length + 2 * t.forwarder.queue.length +
    t.claim.entries.length

/-- Once nothing is read any more, each step of the coordinator counts as well. -/
def burden (t : Transfer) : Nat := 6 * t.load + if t.forwarder.finished then t.rank else 0

/-- How long a transfer that rests can wait for its next step. -/
def respite (t : Transfer) : Nat :=
  match t.forwarder.due?, t.phase with
  | some due, _ => due - t.now
  | none, .applying _ _ due => due - t.now
  | none, .waiting _ => if t.forwarder.finished then t.alarm.getD 0 - t.now else 0
  | none, _ => 0

/-- What a timer that is due can lead to, or an alarm that goes off before it is. -/
def urgency (t : Transfer) : Nat :=
  if t.tickDue then 3
  else match t.phase with
    | .waiting _ => if t.alarmDue then 1 else 0
    | _ => 0

/-- What can happen while the forwarder does nothing: a moment that passes counts for more than a timer
that falls due, and that for more than the batch it has sent. -/
def idling (t : Transfer) : Nat := 4 * t.respite + (t.rank + t.urgency)

def distance (t : Transfer) : Nat × Nat × Nat := (t.burden, t.vigil, t.idling)

def Closer : Nat × Nat × Nat → Nat × Nat × Nat → Prop :=
  Prod.Lex (· < ·) (Prod.Lex (· < ·) (· < ·))

theorem closer_wellFounded : WellFounded Closer :=
  (Prod.lex Nat.lt_wfRel (Prod.lex Nat.lt_wfRel Nat.lt_wfRel)).wf

theorem rank_le (t : Transfer) : t.rank ≤ 5 := by
  unfold rank
  split
  · decide
  · next f _ _ _ =>
    have hle := f.openings_le
    omega
  · next f _ _ =>
    have hle := f.openings_le
    omega
  · decide

theorem urgency_le (t : Transfer) : t.urgency ≤ 3 := by
  unfold urgency
  split
  · exact Nat.le_refl 3
  · split
    · split <;> decide
    · exact Nat.zero_le 3

theorem urgency_of_early {watching : Bool} (hphase : t.phase = .waiting watching)
    (hearly : t.tickDue = false) : t.urgency = if t.alarmDue then 1 else 0 := by
  rw [urgency, hearly, if_neg Bool.false_ne_true, hphase]

theorem burden_lt_of_load (h : u.load < t.load) : u.burden < t.burden := by
  have hrank := u.rank_le
  unfold burden
  split
  · omega
  · omega

theorem load_lt_of_fill? (h : t.fill? = some u) : u.load < t.load := by
  obtain ⟨e, rest, hclaim, hqueue, rfl⟩ := fill?_eq h
  have hunread : Forwarder.unread t.oplog.documents.length { t.forwarder with queue := rest } =
      t.forwarder.unread t.oplog.documents.length := rfl
  simp only [load, hunread, hclaim, hqueue, Claim.entries, List.length_cons, List.length_nil]
  omega

theorem Invariant.closer_of_forward? (h : t.Invariant threshold) (ho : t.Orderly)
    (htimed : t.forwarder.tail.Timed) (hcounts : t.CountsOn) (hstep : t.forward? = some u) :
    Closer u.distance t.distance := by
  have hroom := (h.forward? hstep).feed.room
  have hcapacity := (ho.beside (h.beside_forward? hstep)).handoff
  obtain ⟨oplog, forwarder, events, hlive, hf, rfl⟩ := forward?_eq hstep
  obtain ⟨hdocs, hlessens⟩ := Forwarder.lessens_of_step? hf
  change forwarder.queue.length ≤ forwarder.capacity at hroom
  change forwarder.capacity = 1 at hcapacity
  cases hlessens with
  | reads hless =>
    refine .left _ _ (burden_lt_of_load ?_)
    show 3 * forwarder.unread oplog.documents.length + 2 * forwarder.queue.length +
      t.claim.entries.length < t.load
    rw [hdocs, load]
    omega
  | @looks _ tail _ hsame _ htail heq _ =>
    have hvigil := htimed.vigil_lt_of_step? h.feed.placed.await hcounts (h.feed.live hlive).alive htail
    subst heq
    have hburden : burden (note { t with
        oplog := oplog, forwarder := { t.forwarder with tail := tail } } events) = t.burden := by
      show 6 * (3 * Forwarder.unread oplog.documents.length { t.forwarder with tail := tail } + _ + _) + _ = _
      rw [hdocs, hsame]
      rfl
    rw [distance, hburden]
    refine .right _ (.left _ _ ?_)
    show Forwarder.vigil t.now { t.forwarder with tail := tail } < t.forwarder.vigil t.now
    rw [t.forwarder.vigil_of_live _ hlive, Forwarder.vigil_of_live _ _ (by exact hlive)]
    exact hvigil

theorem closer_of_expire? (hstep : t.expire? = some u) : Closer u.distance t.distance := by
  obtain ⟨_, hvigil⟩ := less_of_expire? hstep
  obtain ⟨forwarder, _, hf, rfl⟩ := expire?_eq hstep
  obtain ⟨_, tail, htail, rfl⟩ := Forwarder.expire?_cases hf
  obtain ⟨_, _, _, rfl⟩ := Tail.expire?_eq_some htail
  exact .right _ (.left _ _ hvigil)

theorem Rounds.claim {seen : Bool} (h : t.Rounds seen u) : u.claim.entries = t.claim.entries := by
  cases h with
  | waits _ _ halike _ => exact halike.claim
  | ends _ halike _ => exact halike.claim
  | sends _ _ _ hsends => rw [hsends.claim]

theorem Acts.claim (h : t.Acts u) :
    (∃ e, t.claim = .filled e ∧ u.claim.entries = []) ∨ u.claim.entries = t.claim.entries ∧
      ∀ watching, t.phase = .waiting watching → t.claim.entries = [] := by
  have hbusy (hnot : ∀ watching, t.phase ≠ .waiting watching) :
      ∀ watching, t.phase = .waiting watching → t.claim.entries = [] :=
    fun watching hphase => absurd hphase (hnot watching)
  cases h with
  | waited _ hclaim hrounds => exact .inr ⟨hrounds.claim, fun _ _ => hclaim⟩
  | received _ hclaim hrounds => exact .inl ⟨_, hclaim, hrounds.claim⟩
  | heard hphase _ hu =>
    subst hu
    exact .inr ⟨rfl, hbusy (by simp [hphase])⟩
  | refused hphase _ hrefuses => exact .inr ⟨by rw [hrefuses.claim], hbusy (by simp [hphase])⟩
  | counted hphase _ _ halike _ => exact .inr ⟨halike.claim, hbusy (by simp [hphase])⟩

theorem Invariant.load_of_coordinate? (h : t.Invariant threshold) (hstep : t.coordinate? = some u) :
    u.load < t.load ∨ u.load = t.load ∧
      ∀ watching, t.phase = .waiting watching → t.claim.entries = [] := by
  have hadvances := h.coordinate?_advances hstep
  rcases (h.acts hstep).claim with ⟨e, hclaim, hnone⟩ | ⟨hsame, hwaits⟩
  · refine .inl ?_
    rw [load, load, hadvances.forwarder, hadvances.oplog, hnone, hclaim]
    exact Nat.lt_succ_self _
  · refine .inr ⟨?_, hwaits⟩
    rw [load, load, hadvances.forwarder, hadvances.oplog, hsame]

theorem Hears.tickDue (h : t.Hears u events) (hinterval : t.interval.IsPositive)
    (hsets : t.interval.SetsForward t.now) (hnow : u.now = t.now) (hdue : u.tickDue = true) :
    t.tickDue = true := by
  cases h with
  | waits _ _ hnext => exact (tickDue_of_next hnext hnow).symm.trans hdue
  | ticks _ htick => exact htick
  | @sends _ f _ _ hnext =>
    by_cases htimer : f.trigger = .timer
    · rw [if_pos htimer] at hnext
      cases (tickDue_after hinterval hsets hnext hnow).symm.trans hdue
    · rw [if_neg htimer] at hnext
      exact (tickDue_of_next hnext hnow).symm.trans hdue
  | ends _ hnext => exact (tickDue_of_next hnext hnow).symm.trans hdue

theorem Clocks.tickDue (h : t.Clocks u events) (hinterval : t.interval.IsPositive)
    (hsets : t.interval.SetsForward t.now) (hnow : u.now = t.now) (hdue : u.tickDue = true) :
    t.tickDue = true := by
  cases h with
  | waited _ _ _ hhears => exact hhears.tickDue hinterval hsets hnow hdue
  | received _ _ _ hhears => exact hhears.tickDue hinterval hsets hnow hdue
  | heard _ _ _ hnext => exact (tickDue_of_next hnext hnow).symm.trans hdue
  | refused _ _ _ hnext => exact (tickDue_of_next hnext hnow).symm.trans hdue
  | counted _ _ _ _ _ hhears => exact hhears.tickDue hinterval hsets hnow hdue
  | resumed _ _ _ hnext => exact (tickDue_of_next hnext hnow).symm.trans hdue
  | concluded _ _ _ hnext => exact (tickDue_of_next hnext hnow).symm.trans hdue

/-- A transfer that goes on by itself: its coordinator is wakeful, and its forwarder does not wait for
ever. -/
structure Restless (t : Transfer) : Prop extends Wakeful t where
  idle : ∃ steps, t.forwarder.tail.idle.span = .finite steps
  tail : t.forwarder.tail.Timed
  claims : ∀ watching, t.phase = .waiting watching → t.claim ≠ .none

theorem restless_start {w : World} {capacity : Nat} {interval : Span} {steps : Int}
    (threshold : Timestamp) (ns : Namespace) {idle : Quantity}
    (hidle : idle.span = .finite steps) (hinterval : interval.IsPositive) :
    (Transfer.start w (.start ns threshold idle w.now) capacity interval).Restless := by
  refine ⟨wakeful_start hinterval, ⟨steps, hidle⟩, Tail.timed_of_busy ?_ ?_, fun _ _ => ?_⟩
  · intro until? woken hphase
    cases hphase
  · intro hphase
    cases hphase
  · intro hnone
    cases hnone

theorem Restless.goes (h : t.Restless) (hinv : t.Invariant threshold) (hgoes : t.Goes u) :
    u.Restless := by
  refine ⟨h.toWakeful.goes hinv hgoes, ?_, hgoes.timed hinv h.tail, hgoes.claims hinv h.claims⟩
  rw [hgoes.idle hinv]
  exact h.idle

theorem rank_proceed (hd : t.drained = true) : (t.proceed false).rank < 3 := by
  have hproceeds := t.proceeds false
  generalize t.proceed false = u at hproceeds
  cases hproceeds with
  | concludes =>
    obtain ⟨_, outcome, hphase⟩ := t.conclude_ends
    simp [rank, hphase]
  | drains _ hb => exact Nat.lt_succ_of_le (flush_sends { trigger := .endOfStream } hb).rank_le
  | ticks hgoes => cases hgoes.symm.trans hd
  | sends hgoes => cases hgoes.symm.trans hd
  | waits hgoes => cases hgoes.symm.trans hd

theorem respite_of_due? {due : Nat} (h : t.forwarder.due? = some due) : t.respite = due - t.now := by
  simp only [respite, h]

theorem idling_of_due? {due : Nat} (h : t.forwarder.due? = some due) (hforwarder : u.forwarder = t.forwarder)
    (hnow : u.now = t.now) (hless : u.rank + u.urgency < t.rank + t.urgency) : u.idling < t.idling := by
  have hrespite : u.respite = t.respite := by
    rw [respite_of_due? h, ← hnow]
    apply respite_of_due?
    rw [hforwarder]
    exact h
  rw [idling, idling, hrespite]
  exact Nat.add_lt_add_left hless _

theorem urgency_beginRound (hearly : t.tickDue = false) : t.beginRound.urgency = 0 := by
  have hearly' : t.beginRound.tickDue = false := hearly
  have halarm : t.beginRound.alarmDue = false :=
    alarmDue_of_early (u := t.beginRound) rfl hearly'
  rw [urgency_of_early (t := t.beginRound) rfl hearly', halarm, if_neg Bool.false_ne_true]

theorem urgency_of_sends {f : Flush} (h : t.Sends f u) (hearly : u.tickDue = false) : u.urgency = 0 := by
  rcases h.phase_cases with ⟨answer, hphase⟩ | ⟨ops, due, hphase⟩
  · rw [urgency, hearly, if_neg Bool.false_ne_true, hphase]
  · rw [urgency, hearly, if_neg Bool.false_ne_true, hphase]

theorem idling_proceed {watching : Bool} {due : Nat} (hd : t.drained = false)
    (hphase : t.phase = .waiting watching) (halarm : t.alarmDue = true)
    (hinterval : t.interval.IsPositive) (hsets : t.interval.SetsForward t.now)
    (hdue : t.forwarder.due? = some due) : (t.proceed false).idling < t.idling := by
  have hrank : t.rank = 3 := by simp only [rank, hphase]
  have hreset : t.reset.tickDue = false := tickDue_after hinterval hsets rfl rfl
  have hproceeds := t.proceeds false
  generalize t.proceed false = u at hproceeds
  cases hproceeds with
  | ticks _ htick =>
    have hurgency := urgency_beginRound (t := t.reset.note [.tickWithoutBatch]) hreset
    refine idling_of_due? hdue rfl rfl ?_
    rw [hurgency, hrank, urgency, if_pos htick]
    show 3 + 0 < 3 + 3
    decide
  | sends _ htick hb =>
    have hsends := flush_sends (t := t.reset) { trigger := .timer } hb
    obtain ⟨_, hnext⟩ := adds_flush (t := t.reset) { trigger := .timer } hb
    have hearly := (tickDue_of_next hnext hsends.now).trans hreset
    refine idling_of_due? hdue hsends.forwarder hsends.now ?_
    rw [urgency_of_sends hsends hearly, hrank, urgency, if_pos htick]
    exact Nat.lt_succ_of_le (rank_le _)
  | concludes hdrained => cases hd.symm.trans hdrained
  | drains hdrained => cases hd.symm.trans hdrained
  | waits _ hearly =>
    refine idling_of_due? hdue rfl rfl ?_
    rw [urgency_beginRound hearly, hrank, urgency_of_early hphase hearly, if_pos halarm]
    show 3 + 0 < 3 + 1
    decide

theorem Acts.not_applying (h : t.Acts u) (hnot : ∀ watching, t.phase ≠ .waiting watching) :
    ∀ f ops due, u.phase ≠ .applying f ops due := by
  intro f ops due hphase
  cases h with
  | waited hwaits => exact hnot _ hwaits
  | received hwaits => exact hnot _ hwaits
  | heard _ _ hu =>
    subst hu
    cases hphase
  | refused _ _ hrefuses => cases hrefuses.phase.symm.trans hphase
  | counted _ _ _ _ hend =>
    rcases hend with ⟨_, watching, hwaits⟩ | ⟨outcome, hdone⟩
    · cases hwaits.symm.trans hphase
    · cases hdone.symm.trans hphase

theorem respite_le (hnow : u.now = t.now) (hforwarder : u.forwarder = t.forwarder)
    (hlive : t.forwarder.finished = false) (hnot : ∀ f ops due, u.phase ≠ .applying f ops due) :
    u.respite ≤ t.respite := by
  cases hdue : t.forwarder.due? with
  | some due =>
    refine Nat.le_of_eq ?_
    rw [respite_of_due? hdue, respite_of_due? (hforwarder ▸ hdue), hnow]
  | none =>
    have hnone : u.respite = 0 := by
      rw [respite, hforwarder, hdue]
      cases hphase : u.phase with
      | applying f ops due => exact absurd hphase (hnot f ops due)
      | waiting watching => simp [hlive]
      | answered => rfl
      | done => rfl
    rw [hnone]
    exact Nat.zero_le _

theorem Restless.due_of_live (h : t.Restless) (hinv : t.Invariant threshold) (ho : t.Orderly)
    (hlive : t.forwarder.ending = none) (hqueue : t.forwarder.queue = [])
    (hforward : t.forward? = none) : ∃ due, t.forwarder.due? = some due := by
  obtain ⟨_, _, until?, hphase⟩ := hinv.caught_up ho hlive hqueue hforward
  obtain ⟨steps, hfinite⟩ := h.idle
  cases until? with
  | none => cases hfinite.symm.trans ((h.tail.waits _ _ hphase).mp rfl)
  | some due =>
    refine ⟨due, ?_⟩
    rw [Forwarder.due?, if_neg (by simp [Forwarder.finished, hlive]), Tail.due?, hphase]

theorem proceed_of_open {watching : Bool} (hphase : t.phase = .waiting watching)
    (hopen : t.claim.entries = []) (hunheard : t.heard = false) (hstep : t.coordinate? = some u) :
    t.roused watching = true ∧ u = t.proceed false := by
  cases coordinates_of_coordinate? hstep with
  | goes hwaits hroused =>
    cases hphase.symm.trans hwaits
    exact ⟨hroused, by rw [hunheard]⟩
  | receives _ hclaim => simp [hclaim, Claim.entries] at hopen
  | hears happlies => cases hphase.symm.trans happlies
  | settles hanswered => cases hphase.symm.trans hanswered

section Coordinate

variable (h : t.Restless) (hinv : t.Invariant threshold)
variable (hopen : ∀ watching, t.phase = .waiting watching → t.claim.entries = [])
variable (hunheard : t.heard = false) (hfill : t.fill? = none)

include h hinv hopen hunheard hfill

theorem Restless.rank_lt_of_ended (hended : t.forwarder.ending ≠ none) (hstep : t.coordinate? = some u) :
    u.rank < t.rank := by
  by_cases hwaits : ∃ watching, t.phase = .waiting watching
  · obtain ⟨watching, hphase⟩ := hwaits
    obtain ⟨_, rfl⟩ := proceed_of_open hphase (hopen _ hphase) hunheard hstep
    have hqueue := unqueued (h.claims _ hphase) (hopen _ hphase) hfill
    have hrank : t.rank = 3 := by simp only [rank, hphase]
    rw [hrank]
    exact rank_proceed (drained_iff.mpr ⟨hended, hqueue, hopen _ hphase⟩)
  · exact (hinv.acts hstep).rank_lt_of_not_waiting (not_exists.mp hwaits)

omit hopen hunheard hfill in
theorem Restless.urgency_le_of_coordinate? (hsets : t.interval.SetsForward t.now)
    (hstep : t.coordinate? = some u) : u.urgency ≤ t.urgency := by
  obtain ⟨events, hadds, hclocks⟩ := hinv.clocks hstep
  by_cases hdue : u.tickDue = true
  · have hbefore := hclocks.tickDue h.interval hsets hadds.now hdue
    rw [urgency, urgency, if_pos hdue, if_pos hbefore]
  have hearly : u.tickDue = false := by simpa using hdue
  suffices hnone : u.urgency = 0 by
    rw [hnone]
    exact Nat.zero_le _
  cases hphase : u.phase with
  | waiting watching =>
    have halarm := alarmDue_of_early ((listens_of_coordinate? hstep).alarm_of_waiting hphase) hearly
    rw [urgency_of_early hphase hearly, halarm, if_neg Bool.false_ne_true]
  | applying f ops due => rw [urgency, hearly, if_neg Bool.false_ne_true, hphase]
  | answered f answer => rw [urgency, hearly, if_neg Bool.false_ne_true, hphase]
  | done result => rw [urgency, hearly, if_neg Bool.false_ne_true, hphase]

theorem Restless.idling_lt (ho : t.Orderly) (hsets : t.interval.SetsForward t.now)
    (hlive : t.forwarder.ending = none) (hforward : t.forward? = none)
    (hstep : t.coordinate? = some u) : u.idling < t.idling := by
  have hunfinished : t.forwarder.finished = false := by simp [Forwarder.finished, hlive]
  by_cases hwaits : ∃ watching, t.phase = .waiting watching
  · obtain ⟨watching, hphase⟩ := hwaits
    obtain ⟨hroused, rfl⟩ := proceed_of_open hphase (hopen _ hphase) hunheard hstep
    have hqueue := unqueued (h.claims _ hphase) (hopen _ hphase) hfill
    obtain ⟨due, hdue⟩ := h.due_of_live hinv ho hlive hqueue hforward
    have hd : t.drained = false := by simp [Transfer.drained, hunfinished]
    have hunfilled : t.claim.isFilled = false := by
      have hnone := hopen _ hphase
      cases hc : t.claim with
      | filled e => simp [hc, Claim.entries] at hnone
      | none => rfl
      | outstanding => rfl
    have halarm : t.alarmDue = true := by
      simpa [roused, hunfilled, hunheard, hunfinished] using hroused
    exact idling_proceed hd hphase halarm h.interval hsets hdue
  · have hnot := not_exists.mp hwaits
    have hadvances := hinv.coordinate?_advances hstep
    have hacts := hinv.acts hstep
    have hrank := hacts.rank_lt_of_not_waiting hnot
    have hrespite := respite_le hadvances.now hadvances.forwarder hunfinished (hacts.not_applying hnot)
    have hurgency := h.urgency_le_of_coordinate? hinv hsets hstep
    unfold idling
    omega

theorem Restless.closer_of_coordinate? (ho : t.Orderly) (hsets : t.interval.SetsForward t.now)
    (hforward : t.forward? = none) (hstep : t.coordinate? = some u) (hload : u.load = t.load) :
    Closer u.distance t.distance := by
  have hadvances := hinv.coordinate?_advances hstep
  by_cases hlive : t.forwarder.ending = none
  · have hburden : u.burden = t.burden := by
      rw [burden, burden, hload, hadvances.forwarder]
      simp [Forwarder.finished, hlive]
    have hvigil : u.vigil = t.vigil := by rw [vigil, vigil, hadvances.forwarder, hadvances.now]
    rw [distance, distance, hburden, hvigil]
    exact .right _ (.right _ (h.idling_lt hinv hopen hunheard hfill ho hsets hlive hforward hstep))
  · have hfinished : t.forwarder.finished = true := t.forwarder.finished_iff.mpr hlive
    have hrank := h.rank_lt_of_ended hinv hopen hunheard hfill hlive hstep
    refine .left _ _ ?_
    rw [burden, burden, hload, hadvances.forwarder, if_pos hfinished, if_pos hfinished]
    exact Nat.add_lt_add_left hrank _

end Coordinate

/-- Every step of a transfer brings it nearer to its end. -/
theorem Restless.descends (h : t.Restless) (hinv : t.Invariant threshold) (ho : t.Orderly)
    (hunasked : t.shutdown = false) (hcounts : t.CountsOn) (hsets : t.interval.SetsForward t.now)
    (hstep : t.step? = some u) : Closer u.distance t.distance := by
  obtain ⟨_, hfill | ⟨hfill, hforward | ⟨hforward, hhear | ⟨_, hcoordinate | ⟨_, hexpire⟩⟩⟩⟩⟩ :=
    step?_cases hstep
  · exact .left _ _ (burden_lt_of_load (load_lt_of_fill? hfill))
  · exact hinv.closer_of_forward? ho h.tail hcounts hforward
  · obtain ⟨hasked, _⟩ := hear?_eq hhear
    cases hunasked.symm.trans hasked
  · have hunheard : t.heard = false := by
      by_contra hheard
      cases hunasked.symm.trans (hinv.heard (by simpa using hheard))
    rcases hinv.load_of_coordinate? hcoordinate with hless | ⟨hsame, hopen⟩
    · exact .left _ _ (burden_lt_of_load hless)
    · exact h.closer_of_coordinate? hinv hopen hunheard hfill ho hsets hforward hcoordinate hsame
  · exact closer_of_expire? hexpire

theorem Restless.ahead (h : t.Restless) (hinv : t.Invariant threshold) (ho : t.Orderly)
    (hdone : t.isDone = false) (hrest : t.step? = none) :
    ∃ wait moment, t.due? = some moment ∧ moment ≤ wait ∧
      ∀ now, respite { t with now := now } = wait - now := by
  obtain ⟨hfill, hforward, _, hcoordinate, _⟩ := steps_none hrest hdone
  cases hphase : t.phase with
  | applying f ops due =>
    cases hdue : t.forwarder.due? with
    | some wait =>
      obtain ⟨moment, hmoment, hle⟩ := sooner_le_left (b := some due) hdue
      refine ⟨wait, moment, by simp only [due?, hphase, hmoment], hle, fun now => ?_⟩
      simp only [respite, hdue]
    | none =>
      obtain ⟨moment, hmoment, hle⟩ := sooner_le_right (a := t.forwarder.due?) (b := some due) rfl
      refine ⟨due, moment, by simp only [due?, hphase, hmoment], hle, fun now => ?_⟩
      simp only [respite, hdue]
  | waiting watching =>
    have hopen := open_of_rest hphase hcoordinate
    have hqueue := unqueued (h.claims _ hphase) hopen hfill
    by_cases hlive : t.forwarder.ending = none
    · obtain ⟨wait, hdue⟩ := h.due_of_live hinv ho hlive hqueue hforward
      obtain ⟨moment, hmoment, hle⟩ := sooner_le_left (b := t.alarm) hdue
      refine ⟨wait, moment, by simp only [due?, hphase, hmoment], hle, fun now => ?_⟩
      simp only [respite, hdue]
    · -- the forwarder's end has woken a coordinator that watches, so this one has its alarm
      have hfinished : t.forwarder.finished = true := t.forwarder.finished_iff.mpr hlive
      have hdue : t.forwarder.due? = none := by rw [Forwarder.due?, if_pos hfinished]
      have hunwatched : t.phase = .waiting false := by
        cases watching with
        | true => simp [Transfer.coordinate?, hphase, roused, hfinished] at hcoordinate
        | false => exact hphase
      have hbounded := (h.unwatched hunwatched).2 (drained_iff.mpr ⟨hlive, hqueue, hopen⟩)
      obtain ⟨tick, hnext⟩ := Option.ne_none_iff_exists'.mp (mt h.unset.mp hbounded)
      obtain ⟨alarm, halarm, _⟩ := h.alarm_near hphase hnext
      refine ⟨alarm, alarm, by simp only [due?, hphase, hdue, halarm, sooner], Nat.le_refl _, fun now => ?_⟩
      simp only [respite, hdue, hfinished, halarm, if_true, Option.getD_some]
  | answered f answer => simp [Transfer.coordinate?, hphase] at hcoordinate
  | done result => simp [isDone, hphase] at hdone

/-- A moment that passes where a transfer rests brings it nearer to its end. -/
theorem Restless.closer_of_rest (h : t.Restless) (hinv : t.Invariant threshold) (ho : t.Orderly)
    (hdone : t.isDone = false) (hrest : t.step? = none) : ∃ moment, t.due? = some moment ∧
      Closer ({ t with now := moment } : Transfer).distance t.distance := by
  obtain ⟨wait, moment, hdue, hwithin, hrespite⟩ := h.ahead hinv ho hdone hrest
  have hlater := lt_due hrest hdue
  have hvigil := vigil_pass (t := t) (Nat.le_of_lt hlater)
  have hbefore : t.respite = wait - t.now := hrespite t.now
  have hafter := hrespite moment
  have hurgency := urgency_le { t with now := moment }
  have hidling : idling { t with now := moment } < t.idling := by
    show 4 * respite { t with now := moment } + (t.rank + urgency { t with now := moment }) <
      4 * t.respite + (t.rank + t.urgency)
    omega
  refine ⟨moment, hdue, .right _ ?_⟩
  rcases Nat.lt_or_eq_of_le hvigil with hless | hsame
  · exact .left _ _ hless
  · show Prod.Lex _ _ (({ t with now := moment } : Transfer).vigil, _) (t.vigil, _)
    rw [hsame]
    exact .right _ hidling

end Transfer

end OplogRelay
