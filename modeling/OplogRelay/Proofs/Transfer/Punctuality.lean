import Mathlib.Data.List.Forall2
import OplogRelay.Proofs.Transfer.Patience
import OplogRelay.Proofs.Transfer.Timing
/-!
What the timer sees to. It is never further off than one interval, and no round lets it pass while there is
an entry to send, so that every entry is sent an interval after it was received at the latest, or one place
later, as the alarm may go off so late. The timer is set anew only by a round that finds it due, so that its
batches lie an interval apart. All this is as the clock counts, which a very short interval does not move.
-/
namespace OplogRelay

namespace Event

def isTimed : Event → Bool
  | streaming | received _ | flushed _ _ => true
  | _ => false

variable {ev : Event}

theorem not_timed_of_reading (h : ev.IsOfReading) : ev.isTimed = false := by
  cases ev <;> first | rfl | exact h.elim

theorem not_timed_of_verdict (h : ev.isVerdict = true) : ev.isTimed = false := by
  cases ev <;> first | rfl | cases h

theorem not_timed_of_farewell (h : ev.isFarewell = true) : ev.isTimed = false := by
  cases ev <;> first | rfl | cases h

end Event

namespace Journal

def receptions (j : Journal) : List (Nat × Entry) :=
  j.filterMap fun e => e.2.receipt?.map fun entry => (e.1, entry)

def sendings (j : Journal) : List (Nat × Trigger × List Entry) :=
  j.filterMap fun e => e.2.flush?.map fun b => (e.1, b)

def dispatches (j : Journal) : List (Nat × Entry) :=
  j.sendings.flatMap fun b => b.2.2.map fun entry => (b.1, entry)

def timerFlushes (j : Journal) : List Nat :=
  (j.sendings.filter fun b => b.2.1 = .timer).map Prod.fst

variable {j : Journal} {now : Nat} {events : List Event}

theorem receptions_note (j : Journal) (now : Nat) (events : List Event) :
    (j.note now events).receptions =
      j.receptions ++ (events.filterMap Event.receipt?).map fun entry => (now, entry) := by
  simp [receptions, note, List.filterMap_map, List.map_filterMap]

theorem sendings_note (j : Journal) (now : Nat) (events : List Event) :
    (j.note now events).sendings =
      j.sendings ++ (events.filterMap Event.flush?).map fun b => (now, b) := by
  simp [sendings, note, List.filterMap_map, List.map_filterMap]

theorem receipts_eq (j : Journal) : j.receptions.map Prod.snd = j.receipts := by
  simp [receptions, receipts, List.map_filterMap, Function.comp_def]

theorem flushes_eq (j : Journal) : j.sendings.map Prod.snd = j.flushes := by
  simp [sendings, flushes, List.map_filterMap, Function.comp_def]

theorem dispatches_of_none (h : j.sendings = []) : j.dispatches = [] := by
  rw [dispatches, h]
  rfl

theorem timerFlushes_of_none (h : j.sendings = []) : j.timerFlushes = [] := by
  rw [timerFlushes, h]
  rfl

theorem mem_note {m : Nat} {ev : Event} :
    (m, ev) ∈ j.note now events ↔ (m, ev) ∈ j ∨ m = now ∧ ev ∈ events := by
  simp [note, eq_comm, and_comm]

theorem note_untimed (j : Journal) (now : Nat) (h : ∀ ev ∈ events, ev.isTimed = false) :
    (j.note now events).receptions = j.receptions ∧ (j.note now events).sendings = j.sendings ∧
      ∀ m, (m, Event.streaming) ∈ j.note now events → (m, Event.streaming) ∈ j := by
  have hreceipts : events.filterMap Event.receipt? = [] := by
    rw [List.filterMap_eq_nil_iff]
    intro ev hev
    have huntimed := h ev hev
    cases ev <;> first | rfl | cases huntimed
  have hflushes : events.filterMap Event.flush? = [] := by
    rw [List.filterMap_eq_nil_iff]
    intro ev hev
    have huntimed := h ev hev
    cases ev <;> first | rfl | cases huntimed
  refine ⟨?_, ?_, fun m hm => ?_⟩
  · rw [receptions_note, hreceipts, List.map_nil, List.append_nil]
  · rw [sendings_note, hflushes, List.map_nil, List.append_nil]
  · refine (mem_note.mp hm).resolve_right fun hstreaming => ?_
    cases h _ hstreaming.2

theorem note_sending (j : Journal) (now : Nat) (trigger : Trigger) (batch : List Entry)
    (h : ∀ ev ∈ events, ev.isTimed = false) :
    (j.note now (events ++ [.flushed trigger batch])).receptions = j.receptions ∧
      (j.note now (events ++ [.flushed trigger batch])).sendings =
        j.sendings ++ [(now, trigger, batch)] ∧
      ∀ m, (m, Event.streaming) ∈ j.note now (events ++ [.flushed trigger batch]) →
        (m, Event.streaming) ∈ j := by
  obtain ⟨hreceptions, hsendings, hstreaming⟩ := j.note_untimed now h
  rw [← note_note]
  refine ⟨?_, ?_, fun m hm => ?_⟩
  · rw [receptions_note, hreceptions]
    exact List.append_nil _
  · rw [sendings_note, hsendings]
    rfl
  · exact hstreaming m ((mem_note.mp hm).resolve_right (by simp))

end Journal

theorem World.Quiet.idle {w : World} (h : w.Quiet) :
    w.journal.receptions = [] ∧ w.journal.sendings = [] := by
  constructor
  · rw [← List.map_eq_nil_iff (f := Prod.snd), Journal.receipts_eq]
    exact h.receipts
  · rw [← List.map_eq_nil_iff (f := Prod.snd), Journal.flushes_eq]
    exact h.flushes

/-- An entry was sent after it was received, and no more than so long after it, as the clock counts. -/
structure InTime (interval : Span) (received sent : Nat × Entry) : Prop where
  same : sent.2 = received.2
  after : received.1 ≤ sent.1
  within : sent.1 ≤ interval.arrival received.1 + 1

namespace Transfer

/-- The timer stands at `tick`, no later than an interval after anything that is `left` to be sent was
received; all else that was received was sent in time. -/
structure Poised (interval : Span) (tick : Nat) (left : List Entry) (t : Transfer) : Prop where
  paced : t.interval = interval
  next : t.nextTick = some tick
  near : tick ≤ interval.arrival t.now
  inTime : ∃ earlier pending, t.journal.receptions = earlier ++ pending ∧
    List.Forall₂ (InTime interval) earlier t.journal.dispatches ∧ pending.map Prod.snd = left ∧
    ∀ p ∈ pending, p.1 ≤ t.now ∧ t.now ≤ interval.arrival p.1 + 1 ∧ tick ≤ interval.arrival p.1
  opened : ∀ m, (m, Event.streaming) ∈ t.journal →
    interval.arrival m ≤ tick ∧ ∀ s ∈ t.journal.timerFlushes, interval.arrival m ≤ s
  fired : ∀ s ∈ t.journal.timerFlushes, interval.arrival s ≤ tick
  apart : t.journal.timerFlushes.Pairwise fun a b => interval.arrival a ≤ b

variable {t u : Transfer} {interval : Span} {tick : Nat} {left : List Entry} {events : List Event}

theorem after_of_finite {s : Span} {steps : Int} (h : s = .finite steps) (start : Nat) :
    s.after start = some (s.arrival start) := by
  subst h
  rw [Span.arrival_of_after (Span.after_finite start steps), Span.after_finite]

theorem Poised.untimed (h : Poised interval tick left t) (hadds : t.Adds events u)
    (hevents : ∀ ev ∈ events, ev.isTimed = false) (hnext : u.nextTick = t.nextTick) :
    Poised interval tick left u := by
  obtain ⟨hreceptions, hsendings, hstreaming⟩ := t.journal.note_untimed t.now hevents
  rw [← hadds.journal] at hreceptions hsendings hstreaming
  have hdispatches : u.journal.dispatches = t.journal.dispatches := by
    rw [Journal.dispatches, hsendings, Journal.dispatches]
  have htimer : u.journal.timerFlushes = t.journal.timerFlushes := by
    rw [Journal.timerFlushes, hsendings, Journal.timerFlushes]
  refine ⟨hadds.interval.trans h.paced, hnext.trans h.next, ?_, ?_, ?_, ?_, ?_⟩
  · rw [hadds.now]
    exact h.near
  · rw [hreceptions, hdispatches, hadds.now]
    exact h.inTime
  · rw [htimer]
    exact fun m hm => h.opened m (hstreaming m hm)
  · rw [htimer]
    exact h.fired
  · rw [htimer]
    exact h.apart

theorem Poised.join (h : Poised interval tick left t) (e : Entry) :
    Poised interval tick (left ++ [e]) (t.join e) := by
  have hsendings : (t.join e).journal.sendings = t.journal.sendings :=
    (Journal.sendings_note _ _ [.received e]).trans (List.append_nil _)
  have htimer : (t.join e).journal.timerFlushes = t.journal.timerFlushes := by
    rw [Journal.timerFlushes, hsendings, Journal.timerFlushes]
  have hstreaming (m : Nat) (hm : (m, Event.streaming) ∈ (t.join e).journal) :
      (m, Event.streaming) ∈ t.journal :=
    (Journal.mem_note.mp hm).resolve_right (by simp)
  obtain ⟨earlier, pending, hsplit, hsent, hleft, htimes⟩ := h.inTime
  refine ⟨h.paced, h.next, h.near, ⟨earlier, pending ++ [(t.now, e)], ?_, ?_, ?_, ?_⟩, ?_, ?_, ?_⟩
  · rw [← List.append_assoc, ← hsplit]
    exact Journal.receptions_note _ _ [.received e]
  · rw [Journal.dispatches, hsendings]
    exact hsent
  · rw [List.map_append, hleft]
    rfl
  · intro p hp
    rcases List.mem_append.mp hp with hp | hp
    · exact htimes p hp
    · rw [List.mem_singleton.mp hp]
      exact ⟨Nat.le_refl _, Nat.le_succ_of_le (Span.le_arrival _ _), h.near⟩
  · rw [htimer]
    exact fun m hm => h.opened m (hstreaming m hm)
  · rw [htimer]
    exact h.fired
  · rw [htimer]
    exact h.apart

theorem Poised.inTime_of_send {told : List Event} {trigger : Trigger}
    (h : Poised interval tick left t) (hadds : t.Adds (told ++ [.flushed trigger left]) u)
    (htold : ∀ ev ∈ told, ev.isTimed = false) :
    List.Forall₂ (InTime interval) u.journal.receptions u.journal.dispatches := by
  obtain ⟨hreceptions, hsendings, _⟩ := t.journal.note_sending t.now trigger left htold
  obtain ⟨earlier, pending, hsplit, hbefore, rfl, htimes⟩ := h.inTime
  rw [← hadds.journal] at hreceptions hsendings
  have hdispatches : u.journal.dispatches =
      t.journal.dispatches ++ (pending.map Prod.snd).map fun entry => (t.now, entry) := by
    simp [Journal.dispatches, hsendings]
  rw [hreceptions, hsplit, hdispatches, List.map_map]
  refine List.rel_append hbefore ?_
  rw [List.forall₂_map_right_iff, List.forall₂_same]
  exact fun p hp => ⟨rfl, (htimes p hp).1, (htimes p hp).2.1⟩

theorem Poised.sendDue {told : List Event} {steps : Int} (h : Poised interval tick left t)
    (hfinite : interval = .finite steps) (hadds : t.Adds (told ++ [.flushed .timer left]) u)
    (htold : ∀ ev ∈ told, ev.isTimed = false) (hdue : t.tickDue = true)
    (hnext : u.nextTick = t.interval.after t.now) : Poised interval (interval.arrival t.now) [] u := by
  obtain ⟨_, hsendings, hstreaming⟩ := t.journal.note_sending t.now .timer left htold
  have hinTime := h.inTime_of_send hadds htold
  rw [← hadds.journal] at hsendings hstreaming
  have hlate : tick ≤ t.now := by simpa [tickDue, isDue, h.next] using hdue
  have hlater : tick ≤ interval.arrival t.now := hlate.trans (Span.le_arrival _ _)
  have htimer : u.journal.timerFlushes = t.journal.timerFlushes ++ [t.now] := by
    simp [Journal.timerFlushes, hsendings]
  rw [h.paced, after_of_finite hfinite] at hnext
  refine ⟨hadds.interval.trans h.paced, hnext, Nat.le_of_eq (by rw [hadds.now]),
    ⟨_, [], (List.append_nil _).symm, hinTime, rfl, by simp⟩, fun m hm => ?_, ?_, ?_⟩
  · obtain ⟨hbefore, hafter⟩ := h.opened m (hstreaming m hm)
    rw [htimer]
    refine ⟨hbefore.trans hlater, List.forall_mem_append.mpr ⟨hafter, ?_⟩⟩
    exact List.forall_mem_singleton.mpr (Nat.le_trans hbefore hlate)
  · rw [htimer]
    refine List.forall_mem_append.mpr ⟨fun s hs => (h.fired s hs).trans hlater, ?_⟩
    · exact List.forall_mem_singleton.mpr (Nat.le_refl _)
  · rw [htimer, List.pairwise_append]
    refine ⟨h.apart, List.pairwise_singleton _ _, fun s hs => ?_⟩
    exact List.forall_mem_singleton.mpr (Nat.le_trans (h.fired s hs) hlate)

theorem Poised.sendEarly {told : List Event} {trigger : Trigger} (h : Poised interval tick left t)
    (hadds : t.Adds (told ++ [.flushed trigger left]) u) (htold : ∀ ev ∈ told, ev.isTimed = false)
    (htrigger : trigger ≠ .timer) (hnext : u.nextTick = t.nextTick) : Poised interval tick [] u := by
  obtain ⟨_, hsendings, hstreaming⟩ := t.journal.note_sending t.now trigger left htold
  have hinTime := h.inTime_of_send hadds htold
  rw [← hadds.journal] at hsendings hstreaming
  have htimer : u.journal.timerFlushes = t.journal.timerFlushes := by
    simp [Journal.timerFlushes, hsendings, htrigger]
  refine ⟨hadds.interval.trans h.paced, hnext.trans h.next, ?_,
    ⟨_, [], (List.append_nil _).symm, hinTime, rfl, by simp⟩, fun m hm => ?_, ?_, ?_⟩
  · rw [hadds.now]
    exact h.near
  · rw [htimer]
    exact h.opened m (hstreaming m hm)
  · rw [htimer]
    exact h.fired
  · rw [htimer]
    exact h.apart

theorem Poised.send {told : List Event} {f : Flush} {steps : Int} (h : Poised interval tick left t)
    (hfinite : interval = .finite steps) (hadds : t.Adds (told ++ [.flushed f.trigger left]) u)
    (htold : ∀ ev ∈ told, ev.isTimed = false) (hdue : f.trigger = .timer → t.tickDue = true)
    (hnext : u.nextTick = if f.trigger = .timer then t.interval.after t.now else t.nextTick) :
    ∃ tick', Poised interval tick' [] u := by
  by_cases htrigger : f.trigger = .timer
  · rw [if_pos htrigger] at hnext
    rw [htrigger] at hadds
    exact ⟨_, h.sendDue hfinite hadds htold (hdue htrigger) hnext⟩
  · rw [if_neg htrigger] at hnext
    exact ⟨_, h.sendEarly hadds htold htrigger hnext⟩

theorem Poised.reset {steps : Int} (h : Poised interval tick [] t) (hfinite : interval = .finite steps)
    (hadds : t.Adds events u) (hevents : ∀ ev ∈ events, ev.isTimed = false) (hdue : t.tickDue = true)
    (hnext : u.nextTick = t.interval.after t.now) : Poised interval (interval.arrival t.now) [] u := by
  have hlate : tick ≤ t.now := by simpa [tickDue, isDue, h.next] using hdue
  have hlater : tick ≤ interval.arrival t.now := hlate.trans (Span.le_arrival _ _)
  have hafter : t.interval.after t.now = some (interval.arrival t.now) := by
    rw [h.paced, after_of_finite hfinite]
  have hmoved : Poised interval (interval.arrival t.now) []
      { t with nextTick := t.interval.after t.now } := by
    obtain ⟨earlier, pending, hsplit, hsent, hnone, _⟩ := h.inTime
    obtain rfl : pending = [] := List.map_eq_nil_iff.mp hnone
    exact ⟨h.paced, hafter, Nat.le_refl _, ⟨earlier, [], hsplit, hsent, rfl, by simp⟩,
      fun m hm => ⟨Nat.le_trans (h.opened m hm).1 hlater, (h.opened m hm).2⟩,
      fun s hs => Nat.le_trans (h.fired s hs) hlater, h.apart⟩
  exact hmoved.untimed ⟨hadds.journal, hadds.now, hadds.interval⟩ hevents hnext

theorem Poised.pass {moment : Nat} (h : Poised interval tick left t) (hlater : t.now ≤ moment)
    (hwithin : left ≠ [] → moment ≤ tick + 1) : Poised interval tick left { t with now := moment } := by
  obtain ⟨earlier, pending, hsplit, hsent, rfl, htimes⟩ := h.inTime
  refine ⟨h.paced, h.next, Nat.le_trans h.near (Span.arrival_mono _ hlater),
    ⟨earlier, pending, hsplit, hsent, rfl, fun p hp => ?_⟩, h.opened, h.fired, h.apart⟩
  obtain ⟨hafter, _, hnear⟩ := htimes p hp
  have hmoment := hwithin (by
    rw [ne_eq, List.map_eq_nil_iff]
    exact List.ne_nil_of_mem hp)
  exact ⟨Nat.le_trans hafter hlater, Nat.le_trans hmoment (Nat.succ_le_succ hnear), hnear⟩

/-- The timer, which has an end, is poised for what is to be sent. -/
structure Punctual (interval : Span) (t : Transfer) : Prop where
  finite : ∃ steps, interval = .finite steps
  poised : ∃ tick, Poised interval tick t.unsent t

theorem unsent_of_flush? {f : Flush} (h : t.phase.flush? = some f) : t.unsent = [] := by
  unfold unsent
  cases hphase : t.phase with
  | applying => rfl
  | answered => rfl
  | waiting => simp [hphase, Phase.flush?] at h
  | done => simp [hphase, Phase.flush?] at h

theorem Begins.unsent (h : t.Begins u) : u.unsent = t.batch.entries := by
  simp [Transfer.unsent, h.phase, h.batch]

variable {threshold : Timestamp}

theorem Invariant.unsent_of_done (h : t.Invariant threshold) (hdone : t.isDone = true) :
    t.unsent = [] ∧ t.batch.entries = [] := by
  have hs := h.standing
  unfold isDone at hdone
  split at hdone
  · next result hphase =>
    rw [hphase] at hs
    exact ⟨by simp [unsent, hphase, hs.empty_of_done], hs.empty_of_done⟩
  · cases hdone

theorem Poised.hears {steps : Int} (h : Poised interval tick t.batch.entries t)
    (hfinite : interval = .finite steps) (hu : u.Invariant threshold) (hadds : t.Adds events u)
    (hhears : t.Hears u events) : u.Punctual interval := by
  refine ⟨⟨steps, hfinite⟩, ?_⟩
  cases hhears with
  | waits _ _ hnext hbegins =>
    refine ⟨tick, ?_⟩
    rw [hbegins.unsent]
    exact h.untimed hadds (by simp) hnext
  | ticks _ hdue hb hnext hbegins =>
    refine ⟨interval.arrival t.now, ?_⟩
    rw [hbegins.unsent, hb]
    rw [hb] at h
    exact h.reset hfinite hadds (List.forall_mem_singleton.mpr rfl) hdue hnext
  | sends _ hdue hnext hflush htold =>
    obtain ⟨tick', hpoised⟩ :=
      h.send hfinite hadds (fun ev hev => Event.not_timed_of_farewell (htold ev hev))
      (fun htrigger => (hdue htrigger).1) hnext
    refine ⟨tick', ?_⟩
    rw [unsent_of_flush? hflush]
    exact hpoised
  | ends hb hnext hdone htold =>
    refine ⟨tick, ?_⟩
    rw [(hu.unsent_of_done hdone).1]
    rw [hb] at h
    exact h.untimed hadds (fun ev hev => Event.not_timed_of_farewell (htold ev hev)) hnext

theorem Punctual.clocks (h : t.Punctual interval) (hu : u.Invariant threshold)
    (hadds : t.Adds events u) (hclocks : t.Clocks u events) : u.Punctual interval := by
  obtain ⟨⟨steps, hfinite⟩, tick, hpoised⟩ := h
  have hanswered {f : Flush} {answer : Answer} (hphase : t.phase = .answered f answer) :
      Poised interval tick [] t := by
    rwa [unsent_of_flush? (by rw [hphase]; rfl)] at hpoised
  have hwaiting {watching : Bool} (hphase : t.phase = .waiting watching) :
      Poised interval tick t.batch.entries t := by
    rwa [unsent, hphase] at hpoised
  cases hclocks with
  | waited hphase _ _ hhears => exact (hwaiting hphase).hears hfinite hu hadds hhears
  | @received _ e _ hphase _ hround hhears =>
    exact ((hwaiting hphase).join e).hears hfinite hu hround hhears
  | heard hphase _ hphase' hnext =>
    refine ⟨⟨steps, hfinite⟩, tick, ?_⟩
    rw [unsent_of_flush? (by rw [hphase]; rfl)] at hpoised
    rw [unsent_of_flush? (by rw [hphase']; rfl)]
    exact hpoised.untimed hadds (by simp) hnext
  | refused hphase _ hdone hnext htold =>
    refine ⟨⟨steps, hfinite⟩, tick, ?_⟩
    rw [(hu.unsent_of_done hdone).1]
    exact (hanswered hphase).untimed hadds
      (fun ev hev => Event.not_timed_of_verdict (htold ev hev)) hnext
  | counted hphase _ hverdict hcount hround hhears =>
    have hcounted := (hanswered hphase).untimed hcount
      (List.forall_mem_singleton.mpr (Event.not_timed_of_verdict hverdict)) rfl
    exact hcounted.hears hfinite hu hround hhears
  | resumed hphase _ hverdict hnext hbegins =>
    refine ⟨⟨steps, hfinite⟩, tick, ?_⟩
    rw [hbegins.unsent]
    exact (hanswered hphase).untimed hadds
      (List.forall_mem_singleton.mpr (Event.not_timed_of_verdict hverdict)) hnext
  | concluded hphase _ hverdict hnext hdone htold =>
    refine ⟨⟨steps, hfinite⟩, tick, ?_⟩
    rw [(hu.unsent_of_done hdone).1]
    exact (hanswered hphase).untimed hadds (List.forall_mem_cons.mpr
      ⟨Event.not_timed_of_verdict hverdict,
        fun ev hev => Event.not_timed_of_farewell (htold ev hev)⟩) hnext

/-- Whatever moves, entries are sent in time. -/
theorem Punctual.moves (h : t.Punctual interval) (ht : t.Invariant threshold) (hmoves : t.Moves u) :
    u.Punctual interval := by
  have hu := ht.moves hmoves
  obtain ⟨hfinite, tick, hpoised⟩ := id h
  have hread {events : List Event} (hbeside : t.Beside u) (hnext : u.nextTick = t.nextTick)
      (hadds : t.Adds events u) (hreading : ∀ ev ∈ events, ev.IsOfReading) : u.Punctual interval := by
    refine ⟨hfinite, tick, ?_⟩
    rw [hbeside.unsent]
    exact hpoised.untimed hadds (fun ev hev => Event.not_timed_of_reading (hreading ev hev)) hnext
  cases hmoves with
  | fill hstep =>
    have hbeside := beside_fill? hstep
    obtain ⟨e, rest, _, _, rfl⟩ := fill?_eq hstep
    exact hread hbeside rfl ⟨(Journal.note_nil _ _).symm, rfl, rfl⟩ (by simp)
  | forward hstep =>
    have hbeside := ht.beside_forward? hstep
    obtain ⟨oplog, forwarder, events, _, hf, rfl⟩ := forward?_eq hstep
    exact hread hbeside rfl ⟨rfl, rfl, rfl⟩ (ht.feed.step? hf).2.2
  | hear hstep =>
    have hbeside := beside_hear? hstep
    obtain ⟨_, _, rfl⟩ := hear?_eq hstep
    exact hread hbeside rfl ⟨(Journal.note_nil _ _).symm, rfl, rfl⟩ (by simp)
  | coordinate hstep =>
    obtain ⟨events, hadds, hclocks⟩ := ht.clocks hstep
    exact h.clocks hu hadds hclocks
  | expire hstep =>
    have hbeside := beside_expire? hstep
    obtain ⟨forwarder, _, _, rfl⟩ := expire?_eq hstep
    exact hread hbeside rfl ⟨(Journal.note_nil _ _).symm, rfl, rfl⟩ (by simp)

/-- A coordinator that waits with something to send. -/
structure Collects (t : Transfer) : Prop where
  waits : ∃ watching, t.phase = .waiting watching
  loaded : t.batch.entries ≠ []

def vacancy (t : Transfer) : Nat := t.batch.capacity - t.batch.size

/-- What can call on a coordinator that waits: an alarm that goes off before the timer is due, and a request
that it has not heard of. -/
def calls (t : Transfer) : Nat := (if t.alarmDue then 1 else 0) + if t.heard then 0 else 1

/-- What can happen before the timer of a coordinator that waits has its batch sent, time that passes
included. -/
def lull (t : Transfer) : Nat × Nat × Nat :=
  (t.vacancy, t.unread, t.vigil + (2 * (t.nextTick.getD 0 + 1 - t.now) + t.calls))

def Briefer : Nat × Nat × Nat → Nat × Nat × Nat → Prop :=
  Prod.Lex (· < ·) (Prod.Lex (· < ·) (· < ·))

theorem briefer_wellFounded : WellFounded Briefer :=
  (Prod.lex Nat.lt_wfRel (Prod.lex Nat.lt_wfRel Nat.lt_wfRel)).wf

theorem Invariant.collects (h : t.Invariant threshold) (hleft : t.unsent ≠ []) : t.Collects := by
  cases hphase : t.phase with
  | waiting watching =>
    refine ⟨⟨watching, hphase⟩, ?_⟩
    simpa [unsent, hphase] using hleft
  | applying f ops due => exact absurd (unsent_of_flush? (by rw [hphase]; rfl)) hleft
  | answered f answer => exact absurd (unsent_of_flush? (by rw [hphase]; rfl)) hleft
  | done outcome =>
    have hdone : t.isDone = true := by simp [isDone, hphase]
    exact absurd (h.unsent_of_done hdone).1 hleft

theorem Collects.beside (h : t.Collects) (hb : t.Beside u) : u.Collects := by
  obtain ⟨watching, hphase⟩ := h.waits
  constructor
  · exact ⟨watching, hb.phase.trans hphase⟩
  · rw [hb.batch]
    exact h.loaded

theorem proceed_sends {seen : Bool} (hb : t.batch.entries ≠ [])
    (h : seen = true ∨ t.drained = true ∨ t.tickDue = true) : (t.proceed seen).unsent = [] := by
  have hflush {v : Transfer} {f : Flush} (hv : v.batch.entries ≠ []) : (v.flush f).unsent = [] :=
    unsent_of_flush? (flush?_of_sends (flush_sends f hv))
  have hproceeds := t.proceeds seen
  generalize t.proceed seen = u at hproceeds
  cases hproceeds with
  | stops hnone => exact absurd hnone hb
  | closes => exact hflush hb
  | concludes _ hnone => exact absurd hnone hb
  | drains => exact hflush hb
  | ticks _ _ hnone => exact absurd hnone hb
  | sends => exact hflush hb
  | waits hgoes hearly => simp [hgoes, hearly] at h

theorem Begins.calls_lt (hbegins : t.Begins u) (hlistens : t.Listens u) (hdue : t.alarmDue = true)
    (hearly : u.tickDue = false) : u.calls < t.calls := by
  have hsilent := alarmDue_of_early (hlistens.alarm_of_waiting hbegins.phase) hearly
  have hheard : (if u.heard then 0 else 1) ≤ if t.heard then 0 else 1 := by
    by_cases hheard : t.heard = true
    · rw [if_pos hheard, if_pos (hlistens.kept hheard)]
    · rw [if_neg hheard]
      split <;> decide
  rw [calls, calls, hsilent, hdue, if_pos rfl, if_neg Bool.false_ne_true]
  omega

theorem alarmDue_of_roused {watching : Bool} (hroused : t.roused watching = true)
    (hopen : t.claim.entries = []) (hunheard : t.heard = false) (hd : t.drained = false)
    (hclaim : t.claim ≠ .none) (hfill : t.fill? = none) : t.alarmDue = true := by
  cases hcl : t.claim with
  | none => exact absurd hcl hclaim
  | filled e => simp [hcl, Claim.entries] at hopen
  | outstanding =>
    have hqueue : t.forwarder.queue = [] := by
      cases hq : t.forwarder.queue with
      | nil => rfl
      | cons e rest => simp [Transfer.fill?, hcl, hq] at hfill
    have hlive : t.forwarder.finished = false := by
      by_contra hfinished
      have hended := t.forwarder.finished_iff.mp (by simpa using hfinished)
      cases hd.symm.trans (drained_iff.mpr ⟨hended, hqueue, hopen⟩)
    simpa [roused, hcl, Claim.isFilled, hunheard, hlive] using hroused

theorem Collects.briefer_of_goes {watching : Bool} (hc : t.Collects) (hclaim : t.claim ≠ .none)
    (hfill : t.fill? = none) (hroused : t.roused watching = true)
    (hopen : t.claim.entries = []) : (t.proceed t.heard).unsent = [] ∨
      (t.proceed t.heard).Collects ∧ Briefer (t.proceed t.heard).lull t.lull := by
  by_cases hcause : t.heard = true ∨ t.drained = true ∨ t.tickDue = true
  · exact .inl (proceed_sends hc.loaded hcause)
  · simp only [not_or, Bool.not_eq_true] at hcause
    obtain ⟨hunheard, hd, hearly⟩ := hcause
    have hdue := alarmDue_of_roused hroused hopen hunheard hd hclaim hfill
    have hproceed : t.proceed t.heard = t.beginRound := by
      simp [proceed, hunheard, hd, hearly]
    have hcalls := t.begins_beginRound.calls_lt (listens_beginRound t) hdue (by exact hearly)
    rw [hproceed]
    refine .inr ⟨⟨⟨_, rfl⟩, hc.loaded⟩, .right _ ?_⟩
    have hunread : t.beginRound.unread = t.unread := by
      cases hcl : t.claim with
      | none => exact absurd hcl hclaim
      | filled e => simp [unread, beginRound, hcl]
      | outstanding => simp [unread, beginRound, hcl]
    rw [hunread]
    exact .right _ (Nat.add_lt_add_left (Nat.add_lt_add_left hcalls _) _)

theorem Invariant.collects_of_coordinate? (h : t.Invariant threshold) (hc : t.Collects)
    (hclaim : t.claim ≠ .none) (hfill : t.fill? = none) (hstep : t.coordinate? = some u) :
    u.unsent = [] ∨ u.Collects ∧ Briefer u.lull t.lull := by
  obtain ⟨_, hcollects⟩ := hc.waits
  cases coordinates_of_coordinate? hstep with
  | goes _ hroused hopen => exact hc.briefer_of_goes hclaim hfill hroused hopen
  | @receives _ e hphase _ =>
    have hroom := h.room_of_waiting hphase
    obtain ⟨events, _, hhears⟩ := hears_receive e t.heard hroom
    have hjoined : (t.join e).batch.entries ≠ [] := by simp [join]
    generalize t.receive e t.heard = u at hhears ⊢
    cases hhears with
    | waits _ _ _ hbegins =>
      refine .inr ⟨⟨⟨_, hbegins.phase⟩, ?_⟩, .left _ _ ?_⟩
      · rw [hbegins.batch]
        exact hjoined
      · unfold vacancy
        rw [hbegins.batch]
        have hsize : (t.join e).batch.size = t.batch.size + 1 := by simp [join, Batch.size]
        have hcap : (t.join e).batch.capacity = t.batch.capacity := rfl
        omega
    | ticks _ _ hb => exact absurd hb hjoined
    | sends _ _ _ hflush => exact .inl (unsent_of_flush? hflush)
    | ends hb => exact absurd hb hjoined
  | hears hphase => cases hcollects.symm.trans hphase
  | settles hphase => cases hcollects.symm.trans hphase

/-- Whatever a coordinator that collects does by itself, it comes nearer to sending its batch. -/
theorem Invariant.collects_of_step? (h : t.Invariant threshold) (hc : t.Collects)
    (hclaim : t.claim ≠ .none) (htimed : t.forwarder.tail.Timed) (hcounts : t.CountsOn)
    (hstep : t.step? = some u) : u.unsent = [] ∨ u.Collects ∧ Briefer u.lull t.lull := by
  have hsame (hbeside : t.Beside u)
      (hless : Prod.Lex (· < ·) (· < ·) (u.lull.2) (t.lull.2)) : u.unsent = [] ∨
        u.Collects ∧ Briefer u.lull t.lull := by
    have hvacancy : u.vacancy = t.vacancy := by rw [vacancy, vacancy, hbeside.batch]
    refine .inr ⟨hc.beside hbeside, ?_⟩
    rw [lull, lull, hvacancy]
    exact .right _ hless
  obtain ⟨_, hfill | ⟨hfill, hforward | ⟨_, hhear | ⟨_, hcoordinate | ⟨_, hexpire⟩⟩⟩⟩⟩ :=
    step?_cases hstep
  · exact hsame (beside_fill? hfill) (.left _ _ (unread_lt_of_fill? hfill))
  · have hless := h.less_of_forward? htimed hcounts hforward
    refine hsame (h.beside_forward? hforward) ?_
    obtain ⟨oplog, forwarder, events, _, _, rfl⟩ := forward?_eq hforward
    rcases hless with hread | ⟨hunread, hvigil⟩
    · exact .left _ _ hread
    · rw [lull, lull, hunread]
      exact .right _ (Nat.add_lt_add_right hvigil _)
  · refine hsame (beside_hear? hhear) ?_
    obtain ⟨_, hunheard, rfl⟩ := hear?_eq hhear
    refine .right _ (Nat.add_lt_add_left (Nat.add_lt_add_left ?_ _) _)
    rw [calls, calls, hunheard]
    exact Nat.add_lt_add_left Nat.zero_lt_one _
  · exact h.collects_of_coordinate? hc hclaim hfill hcoordinate
  · obtain ⟨hunread, hvigil⟩ := less_of_expire? hexpire
    refine hsame (beside_expire? hexpire) ?_
    obtain ⟨forwarder, _, _, rfl⟩ := expire?_eq hexpire
    rw [lull, lull, hunread]
    exact .right _ (Nat.add_lt_add_right hvigil _)

theorem briefer_of_pass {moment : Nat} (hnext : t.nextTick = some tick)
    (hlater : t.now < moment) (hwithin : moment ≤ tick + 1) :
    Briefer ({ t with now := moment } : Transfer).lull t.lull := by
  have hvigil := vigil_pass (t := t) (Nat.le_of_lt hlater)
  have hcalls : ({ t with now := moment } : Transfer).calls ≤ t.calls + 1 := by
    unfold calls
    dsimp only
    split <;> omega
  have htick : t.nextTick.getD 0 = tick := by rw [hnext, Option.getD_some]
  refine .right _ (.right _ ?_)
  show _ + (2 * (t.nextTick.getD 0 + 1 - moment) + _) < _ + (2 * (t.nextTick.getD 0 + 1 - t.now) + _)
  omega

end Transfer

end OplogRelay
