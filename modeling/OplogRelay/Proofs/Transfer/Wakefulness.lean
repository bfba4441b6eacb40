import OplogRelay.Proofs.Transfer.Chunking
import OplogRelay.Proofs.Transfer.Goings
/-!
What a coordinator that waits is woken by. Its timer is set by a moment that is past, and counts from it, and
so is its alarm for the timer; and where it does not see the forwarder's end, as its round began after that,
there is something left for it on the hand-off, or the timer will wake it.
-/
namespace OplogRelay

namespace Transfer

variable {t u : Transfer} {threshold : Timestamp} {events : List Event}

structure Wakeful (t : Transfer) : Prop where
  interval : t.interval.IsPositive
  set : ∃ since, since ≤ t.now ∧ t.nextTick = t.interval.after since
  alarmed : ∀ watching, t.phase = .waiting watching →
    ∃ since, since ≤ t.now ∧ t.alarm = alarmFor since t.nextTick
  timed : ∀ f, t.phase.flush? = some f → f.trigger = .timer → t.interval ≠ .unbounded
  unwatched : t.phase = .waiting false → t.forwarder.ending ≠ none ∧
    (t.drained = true → t.interval ≠ .unbounded)

theorem Wakeful.unset (h : t.Wakeful) : t.nextTick = none ↔ t.interval = .unbounded := by
  obtain ⟨since, _, hnext⟩ := h.set
  rw [hnext]
  exact Span.after_eq_none_iff

theorem wakeful_start {w : World} {tail : Tail} {capacity : Nat} {interval : Span}
    (h : interval.IsPositive) : (Transfer.start w tail capacity interval).Wakeful := by
  refine ⟨h, ⟨w.now, Nat.le_refl _, rfl⟩, fun _ _ => ⟨w.now, Nat.le_refl _, rfl⟩, ?_, ?_⟩
  · intro f hf
    cases hf
  · intro hphase
    cases hphase

theorem Wakeful.aside (h : t.Wakeful) (ha : t.Aside u) : u.Wakeful := by
  obtain ⟨since, hpast, hset⟩ := h.set
  refine ⟨?_, ⟨since, Nat.le_trans hpast ha.now, ?_⟩, ?_, ?_, ?_⟩
  · rw [ha.interval]
    exact h.interval
  · rw [ha.nextTick, ha.interval]
    exact hset
  · intro watching hphase
    obtain ⟨begun, hbefore, halarm⟩ := h.alarmed watching (ha.phase.symm.trans hphase)
    refine ⟨begun, Nat.le_trans hbefore ha.now, ?_⟩
    rw [ha.alarm, ha.nextTick]
    exact halarm
  · rw [ha.phase, ha.interval]
    exact h.timed
  · intro hphase
    obtain ⟨hended, hbounded⟩ := h.unwatched (ha.phase.symm.trans hphase)
    rw [ha.ended hended, ha.interval]
    exact ⟨hended, fun hdrained => hbounded (ha.undrained hended hdrained)⟩

theorem next_of_tickDue (h : t.tickDue = true) : t.nextTick ≠ none := by
  intro hnone
  simp [tickDue, isDue, hnone] at h

theorem Hears.next (h : t.Hears u events) :
    u.nextTick = t.nextTick ∨ u.nextTick = t.interval.after t.now := by
  cases h with
  | waits _ _ hnext => exact .inl hnext
  | ticks _ _ _ hnext => exact .inr hnext
  | @sends _ f _ _ hnext =>
    by_cases htimer : f.trigger = .timer
    · rw [if_pos htimer] at hnext
      exact .inr hnext
    · rw [if_neg htimer] at hnext
      exact .inl hnext
  | ends _ hnext => exact .inl hnext

theorem Clocks.next (h : t.Clocks u events) :
    u.nextTick = t.nextTick ∨ u.nextTick = t.interval.after t.now := by
  cases h with
  | waited _ _ _ hhears => exact hhears.next
  | received _ _ _ hhears => exact hhears.next
  | heard _ _ _ hnext => exact .inl hnext
  | refused _ _ _ hnext => exact .inl hnext
  | counted _ _ _ _ _ hhears => exact hhears.next
  | resumed _ _ _ hnext => exact .inl hnext
  | concluded _ _ _ hnext => exact .inl hnext

theorem Clocks.timed {f : Flush} (h : t.Clocks u events) (hf : u.phase.flush? = some f)
    (htrigger : f.trigger = .timer) : t.tickDue = true ∨ t.phase.flush? = some f := by
  have hdone (hdone : u.isDone = true) : t.tickDue = true ∨ t.phase.flush? = some f := by
    rw [flush?_of_done hdone] at hf
    cases hf
  cases h with
  | waited _ _ _ hhears => exact .inl ((hhears.due hf).2 htrigger)
  | received _ _ _ hhears => exact .inl ((hhears.due hf).2 htrigger)
  | heard hphase _ hphase' =>
    refine .inr ?_
    rw [← hf, hphase, hphase']
    rfl
  | refused _ _ hends => exact hdone hends
  | counted _ _ _ _ _ hhears => exact .inl ((hhears.due hf).2 htrigger)
  | resumed _ _ _ _ hbegins => simp [hbegins.phase, Phase.flush?] at hf
  | concluded _ _ _ _ hends => exact hdone hends

theorem Wakeful.coordinate? (h : t.Wakeful) (hinv : t.Invariant threshold)
    (hstep : t.coordinate? = some u) : u.Wakeful := by
  have hforwarder := (hinv.coordinate?_advances hstep).forwarder
  obtain ⟨events, hadds, hclocks⟩ := hinv.clocks hstep
  refine ⟨?_, ?_, ?_, ?_, ?_⟩
  · rw [hadds.interval]
    exact h.interval
  · rw [hadds.interval, hadds.now]
    rcases hclocks.next with hnext | hnext
    · rw [hnext]
      exact h.set
    · exact ⟨t.now, Nat.le_refl _, hnext⟩
  · intro watching hphase
    exact ⟨u.now, Nat.le_refl _, (listens_of_coordinate? hstep).alarm_of_waiting hphase⟩
  · intro f hf htrigger
    rw [hadds.interval]
    rcases hclocks.timed hf htrigger with hdue | hflush
    · exact fun hnone => next_of_tickDue hdue (h.unset.mpr hnone)
    · exact h.timed f hflush htrigger
  · intro hphase
    obtain ⟨v, hbegins, hsame, hcause⟩ := hclocks.begins hphase
    have hfinished : t.forwarder.finished = true := by
      simpa [hbegins.phase, hsame] using hphase
    refine ⟨hforwarder ▸ t.forwarder.finished_iff.mp hfinished, fun hdrained => ?_⟩
    rw [hadds.interval]
    rcases hcause with hgoes | ⟨f, hf, htrigger⟩
    · cases (hbegins.drained.trans hgoes).symm.trans hdrained
    · exact h.timed f hf htrigger

theorem Wakeful.alarm_near {watching : Bool} {tick : Nat} (h : t.Wakeful)
    (hphase : t.phase = .waiting watching) (hnext : t.nextTick = some tick) :
    ∃ alarm, t.alarm = some alarm ∧ (alarm ≤ t.now ∨ alarm ≤ tick + 1 ∧ tick ≤ alarm + 1) := by
  obtain ⟨since, hpast, halarm⟩ := h.alarmed watching hphase
  rw [hnext, alarmFor_some] at halarm
  refine ⟨_, halarm, ?_⟩
  rcases Nat.le_total since tick with hle | hle
  · exact .inr ⟨Moment.arrival_gap_le hle, Moment.le_arrival_gap hle⟩
  · rw [Moment.arrival_gap_of_le hle]
    exact .inl hpast

theorem Goes.claims (h : t.Goes u) (hinv : t.Invariant threshold)
    (hclaims : ∀ watching, t.phase = .waiting watching → t.claim ≠ .none) :
    ∀ watching, u.phase = .waiting watching → u.claim ≠ .none := by
  intro watching hphase
  rcases h.aside_or_coordinate hinv with haside | hcoordinate
  · exact haside.toBeside.claim (hclaims watching (haside.phase.symm.trans hphase))
  · obtain ⟨_, _, hclocks⟩ := hinv.clocks hcoordinate
    obtain ⟨_, hbegins, _⟩ := hclocks.begins hphase
    exact hbegins.claim

theorem Wakeful.goes (h : t.Wakeful) (hinv : t.Invariant threshold) (hgoes : t.Goes u) :
    u.Wakeful := by
  rcases hgoes.aside_or_coordinate hinv with haside | hcoordinate
  · exact h.aside haside
  · exact h.coordinate? hinv hcoordinate

end Transfer

end OplogRelay
