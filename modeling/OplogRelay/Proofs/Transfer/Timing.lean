import OplogRelay.Proofs.Transfer.Rounds
/-!
The coordinator and its timer. What a step of the coordinator tells and what it does to the timer are
told together: the timer is set anew only by a round that finds it due and has nothing to do before
that, and such a round sends what there is to send.
-/
namespace OplogRelay

namespace Event

def isOfRound : Event → Bool
  | received _ | shutdownSeen | sourceExhausted | tickWithoutBatch | flushed _ _ | applied _ _ _
  | rejected _ _ => true
  | _ => false

def isVerdict : Event → Bool
  | applied _ _ _ | rejected _ _ => true
  | _ => false

/-- What is told in a round after which no other round follows. -/
def isFarewell : Event → Bool
  | shutdownSeen | sourceExhausted => true
  | _ => false

variable {ev : Event}

theorem ofRound_of_verdict (h : ev.isVerdict = true) : ev.isOfRound = true := by
  cases ev <;> first | rfl | cases h

theorem ofRound_of_farewell (h : ev.isFarewell = true) : ev.isOfRound = true := by
  cases ev <;> first | rfl | cases h

end Event

namespace Journal

@[simp]
theorem note_nil (j : Journal) (now : Nat) : j.note now [] = j := List.append_nil j

theorem note_note (j : Journal) (now : Nat) (a b : List Event) :
    (j.note now a).note now b = j.note now (a ++ b) := by
  simp [note]

end Journal

namespace Transfer

def Phase.flush? : Phase → Option Flush
  | .applying f _ _ | .answered f _ => some f
  | .waiting _ | .done _ => none

/-- What a part of a round adds to the journal. It takes no time. -/
structure Adds (t : Transfer) (events : List Event) (u : Transfer) : Prop where
  journal : u.journal = t.journal.note t.now events
  now : u.now = t.now
  interval : u.interval = t.interval

/-- The coordinator waits again, with a claim open. -/
structure Begins (t u : Transfer) : Prop where
  phase : u.phase = .waiting (!t.forwarder.finished)
  claim : u.claim ≠ .none
  drained : u.drained = t.drained
  batch : u.batch = t.batch

/-- What a round tells, and what it makes of the timer. -/
inductive Hears (t u : Transfer) : List Event → Prop where
  | waits : t.drained = false → t.tickDue = false → u.nextTick = t.nextTick → t.Begins u →
      Hears t u []
  | ticks : t.drained = false → t.tickDue = true → t.batch.entries = [] →
      u.nextTick = t.interval.after t.now → t.Begins u → Hears t u [.tickWithoutBatch]
  | sends {told f} : t.batch.entries ≠ [] →
      (f.trigger = .timer → t.tickDue = true ∧ t.drained = false) →
      u.nextTick = (if f.trigger = .timer then t.interval.after t.now else t.nextTick) →
      u.phase.flush? = some f → (∀ ev ∈ told, ev.isFarewell = true) →
      Hears t u (told ++ [.flushed f.trigger t.batch.entries])
  | ends {told} : t.batch.entries = [] → u.nextTick = t.nextTick → u.isDone = true →
      (∀ ev ∈ told, ev.isFarewell = true) → Hears t u told

variable {t u v : Transfer} {f : Flush} {a b events : List Event}

theorem Adds.refl (t : Transfer) : t.Adds [] t := ⟨(Journal.note_nil _ _).symm, rfl, rfl⟩

theorem Adds.trans (h : t.Adds a u) (h' : u.Adds b v) : t.Adds (a ++ b) v where
  journal := by
    rw [h'.journal, h.journal, h.now, Journal.note_note]
  now := h'.now.trans h.now
  interval := h'.interval.trans h.interval

theorem adds_note (t : Transfer) (events : List Event) : t.Adds events (t.note events) :=
  ⟨rfl, rfl, rfl⟩

theorem adds_finish (t : Transfer) (outcome : Except Failure Unit) : t.Adds [] (t.finish outcome) :=
  ⟨(Journal.note_nil _ _).symm, rfl, rfl⟩

theorem adds_beginRound (t : Transfer) : t.Adds [] t.beginRound :=
  ⟨(Journal.note_nil _ _).symm, rfl, rfl⟩

theorem adds_join (t : Transfer) (e : Entry) : t.Adds [.received e] (t.join e) := ⟨rfl, rfl, rfl⟩

theorem begins_beginRound (t : Transfer) : t.Begins t.beginRound := by
  constructor
  · rfl
  · unfold beginRound
    cases t.claim <;> simp
  · exact alike_beginRound.drained
  · rfl

theorem flush?_of_sends (h : t.Sends f u) : u.phase.flush? = some f := by
  rcases h.phase_cases with ⟨answer, hphase⟩ | ⟨ops, due, hphase⟩
  · rw [hphase]
    rfl
  · rw [hphase]
    rfl

theorem adds_flush (f : Flush) (hb : t.batch.entries ≠ []) :
    t.Adds [.flushed f.trigger t.batch.entries] (t.flush f) ∧
      (t.flush f).nextTick = t.nextTick := by
  have hsend : t.applier.send? t.batch.entries =
      .ok (.ofBatch t.batch.entries, ⟨t.applier.calls + 1, t.applier.total, t.applier.last⟩) := by
    simp [Applier.send?, hb]
  unfold flush
  simp only [hsend]
  generalize htold : note { t with applier := ⟨t.applier.calls + 1, t.applier.total,
    t.applier.last⟩ } [.flushed f.trigger t.batch.entries] = told
  obtain ⟨start, destination, hworld, _⟩ := told.toWorld.send_ofBatch t.batch.entries
  simp only [hworld]
  subst told
  exact ⟨⟨rfl, rfl, rfl⟩, rfl⟩

theorem adds_conclude (t : Transfer) : ∃ told, (∀ ev ∈ told, ev.isFarewell = true) ∧
    t.Adds told t.conclude ∧ t.conclude.nextTick = t.nextTick := by
  have hsilent (e : Failure) : ∃ told, (∀ ev ∈ told, Event.isFarewell ev = true) ∧
      t.Adds told (t.fail e) ∧ (t.fail e).nextTick = t.nextTick :=
    ⟨[], by simp, t.adds_finish _, rfl⟩
  have htold : ∃ told, (∀ ev ∈ told, Event.isFarewell ev = true) ∧
      t.Adds told ((t.note [.sourceExhausted]).finish (.ok ())) ∧
      ((t.note [.sourceExhausted]).finish (.ok ())).nextTick = t.nextTick := by
    refine ⟨[.sourceExhausted] ++ [], by simp [Event.isFarewell], ?_, rfl⟩
    exact (t.adds_note [.sourceExhausted]).trans (adds_finish _ _)
  unfold conclude
  split
  · exact hsilent _
  · exact hsilent _
  · exact hsilent _
  · exact htold
  · exact htold

theorem isDone_conclude (t : Transfer) : t.conclude.isDone = true := by
  obtain ⟨_, outcome, hphase⟩ := t.conclude_ends
  simp [isDone, hphase]

theorem hears_flush {told : List Event} (hadds : t.Adds told v) (hbatch : v.batch = t.batch)
    (hb : t.batch.entries ≠ []) (htold : ∀ ev ∈ told, ev.isFarewell = true)
    (hdue : f.trigger = .timer → t.tickDue = true ∧ t.drained = false)
    (hnext : v.nextTick = if f.trigger = .timer then t.interval.after t.now else t.nextTick) :
    ∃ events, t.Adds events (v.flush f) ∧ t.Hears (v.flush f) events := by
  have hb' : v.batch.entries ≠ [] := by rwa [hbatch]
  obtain ⟨hflush, htimer⟩ := adds_flush f hb'
  rw [hbatch] at hflush
  refine ⟨_, hadds.trans hflush, .sends hb hdue (htimer.trans hnext) ?_ htold⟩
  exact flush?_of_sends (flush_sends f hb')

theorem hears_proceed (t : Transfer) (seen : Bool) :
    ∃ events, t.Adds events (t.proceed seen) ∧ t.Hears (t.proceed seen) events := by
  have hproceeds := t.proceeds seen
  generalize t.proceed seen = u at hproceeds
  have hreset : t.Adds [] t.reset := ⟨(Journal.note_nil _ _).symm, rfl, rfl⟩
  cases hproceeds with
  | stops hb =>
    exact ⟨_, (t.adds_note [.shutdownSeen]).trans (adds_finish _ _),
      .ends hb rfl rfl (by simp [Event.isFarewell])⟩
  | closes hb =>
    exact hears_flush (t.adds_note [.shutdownSeen]) rfl hb (by simp [Event.isFarewell]) (by simp)
      (by simp [note, onWorld])
  | concludes _ hb =>
    obtain ⟨told, htold, hadds, htimer⟩ := t.adds_conclude
    exact ⟨told, hadds, .ends hb htimer t.isDone_conclude htold⟩
  | drains _ hb => exact hears_flush (.refl t) rfl hb (by simp) (by simp) (by simp)
  | ticks hgoes htick hb =>
    have hbegins := (t.reset.note [.tickWithoutBatch]).begins_beginRound
    exact ⟨_, (hreset.trans (adds_note _ [.tickWithoutBatch])).trans (adds_beginRound _),
      .ticks hgoes htick hb rfl ⟨rfl, hbegins.claim, hbegins.drained, rfl⟩⟩
  | sends hgoes htick hb => exact hears_flush hreset rfl hb (by simp) (fun _ => ⟨htick, hgoes⟩) rfl
  | waits hgoes hearly => exact ⟨[], t.adds_beginRound, .waits hgoes hearly rfl t.begins_beginRound⟩

theorem hears_receive (e : Entry) (seen : Bool) (hroom : t.batch.size < t.batch.capacity) :
    ∃ events, (t.join e).Adds events (t.receive e seen) ∧
      (t.join e).Hears (t.receive e seen) events := by
  rw [receive_eq seen hroom]
  split
  · have hb : (t.join e).batch.entries ≠ [] := by simp [join]
    exact hears_flush (.refl _) rfl hb (by simp) (by simp) (by simp)
  · exact hears_proceed _ _

/-- What a step of the coordinator tells, and what it makes of the timer. -/
inductive Clocks (t u : Transfer) : List Event → Prop where
  | waited {watching events} : t.phase = .waiting watching → t.roused watching = true →
      t.claim.entries = [] → t.Hears u events → Clocks t u events
  | received {watching e events} : t.phase = .waiting watching → t.claim = .filled e →
      (t.join e).Adds events u → (t.join e).Hears u events → Clocks t u (.received e :: events)
  | heard {f ops due answer} : t.phase = .applying f ops due → due ≤ t.now →
      u.phase = .answered f answer → u.nextTick = t.nextTick → Clocks t u []
  | refused {f answer told} : t.phase = .answered f answer → answer.isAccepted = false →
      u.isDone = true → u.nextTick = t.nextTick → (∀ ev ∈ told, ev.isVerdict = true) →
      Clocks t u told
  | counted {f answer last moment verdict events} : t.phase = .answered f answer →
      f.trigger = .size → verdict.isVerdict = true → t.Adds [verdict] (t.count last moment) →
      (t.count last moment).Adds events u → (t.count last moment).Hears u events →
      Clocks t u (verdict :: events)
  | resumed {f answer last moment verdict} : t.phase = .answered f answer → f.trigger = .timer →
      verdict.isVerdict = true → u.nextTick = t.nextTick → (t.count last moment).Begins u →
      Clocks t u [verdict]
  | concluded {f answer verdict told} : t.phase = .answered f answer → f.trigger.isFinal = true →
      verdict.isVerdict = true → u.nextTick = t.nextTick → u.isDone = true →
      (∀ ev ∈ told, ev.isFarewell = true) → Clocks t u (verdict :: told)

theorem clocks_refused {answer : Answer} (hphase : t.phase = .answered f answer)
    (hb : t.batch.entries ≠ []) (h : answer.isAccepted = false) :
    ∃ events, t.Adds events (t.settle f answer) ∧ t.Clocks (t.settle f answer) events := by
  have hdone : (t.settle f answer).isDone = true := by
    simp [isDone, (settle_refuses f hb h).phase]
  cases answer with
  | fault fault =>
    exact ⟨[], ⟨(Journal.note_nil _ _).symm, rfl, rfl⟩, .refused hphase h hdone rfl (by simp)⟩
  | reply r =>
    obtain ⟨last, hlast⟩ : ∃ last, t.batch.entries.getLast? = some last :=
      ⟨_, List.getLast?_eq_some_getLast hb⟩
    have hreceive : t.applier.receive t.batch.entries (.reply r) =
        (.ok (.rejected (Reply.reason r)), t.applier) := by
      have hr : ¬ Reply.accepts r = true := by simpa [Answer.isAccepted] using h
      simp only [Applier.receive, hlast, if_neg hr]
    refine ⟨[.rejected t.batch.entries.length (Reply.reason r)], ?_,
      .refused hphase h hdone ?_ (by simp [Event.isVerdict])⟩
    · unfold settle
      simp only [hreceive]
      exact ⟨rfl, rfl, rfl⟩
    · unfold settle
      simp only [hreceive]
      rfl

theorem clocks_accepted {answer : Answer} (hphase : t.phase = .answered f answer)
    (last : Entry) (moment : Timestamp) (hsettle : t.settle f answer = (t.count last moment).resume f) :
    ∃ events, t.Adds events (t.settle f answer) ∧ t.Clocks (t.settle f answer) events := by
  have hcount : t.Adds [.applied t.batch.entries.length
      (t.applier.record t.batch.entries last).total moment] (t.count last moment) :=
    ⟨rfl, rfl, rfl⟩
  rw [hsettle]
  unfold resume
  split
  · next htrigger =>
    obtain ⟨events, hadds, hhears⟩ := (t.count last moment).hears_proceed f.shutdownSeen
    exact ⟨_, hcount.trans hadds, .counted hphase htrigger rfl hcount hadds hhears⟩
  · next htrigger =>
    exact ⟨_, hcount.trans (adds_beginRound _),
      .resumed hphase htrigger rfl rfl (begins_beginRound (t.count last moment))⟩
  · next htrigger =>
    exact ⟨_, hcount.trans (adds_finish _ _),
      .concluded hphase (by rw [htrigger]; rfl) rfl rfl rfl (by simp)⟩
  · next htrigger =>
    obtain ⟨told, htold, hadds, htimer⟩ := (t.count last moment).adds_conclude
    exact ⟨_, hcount.trans hadds,
      .concluded hphase (by rw [htrigger]; rfl) rfl htimer (isDone_conclude _) htold⟩

theorem Invariant.clocks {threshold : Timestamp} (h : t.Invariant threshold)
    (hstep : t.coordinate? = some u) : ∃ events, t.Adds events u ∧ t.Clocks u events := by
  cases coordinates_of_coordinate? hstep with
  | goes hphase hroused hclaim =>
    obtain ⟨events, hadds, hhears⟩ := t.hears_proceed t.heard
    exact ⟨_, hadds, .waited hphase hroused hclaim hhears⟩
  | receives hphase hclaim =>
    obtain ⟨events, hadds, hhears⟩ := hears_receive _ t.heard (h.room_of_waiting hphase)
    exact ⟨_, (t.adds_join _).trans hadds, .received hphase hclaim hadds hhears⟩
  | hears hphase hdue =>
    exact ⟨[], ⟨(Journal.note_nil _ _).symm, rfl, rfl⟩, .heard hphase hdue rfl rfl⟩
  | @settles f answer hphase =>
    have hb := h.batch_of_answered hphase
    by_cases haccepted : answer.isAccepted = true
    · obtain ⟨last, moment, _, hsettle⟩ := settle_accepts f hb h.batch_moments haccepted
      exact clocks_accepted hphase last moment hsettle
    · exact clocks_refused hphase hb (by simpa using haccepted)

theorem alarmFor_some (now tick : Nat) :
    alarmFor now (some tick) = some ((Span.finite (Moment.gap now tick)).arrival now) := by
  rw [alarmFor, Option.map_some]

theorem isDue_some {now due : Nat} : isDue now (some due) = true ↔ due ≤ now := by
  rw [isDue, Option.any_some, decide_eq_true_eq]

theorem alarmDue_of_early (halarm : u.alarm = alarmFor u.now u.nextTick) (hearly : u.tickDue = false) :
    u.alarmDue = false := by
  by_contra hdue
  rw [Bool.not_eq_false, alarmDue, halarm] at hdue
  cases hnext : u.nextTick with
  | none =>
    rw [hnext] at hdue
    cases hdue
  | some tick =>
    have hahead : u.now < tick := by
      by_contra hpast
      have hlate : u.tickDue = true := by
        rw [tickDue, hnext]
        exact isDue_some.mpr (Nat.le_of_not_lt hpast)
      cases hearly.symm.trans hlate
    rw [hnext, alarmFor_some, isDue_some] at hdue
    exact absurd (Moment.lt_arrival_gap hahead) (Nat.not_lt.mpr hdue)

theorem Hears.begins {watching : Bool} (h : t.Hears u events) (hphase : u.phase = .waiting watching) :
    t.Begins u ∧ t.drained = false := by
  cases h with
  | waits hgoes _ _ hbegins => exact ⟨hbegins, hgoes⟩
  | ticks hgoes _ _ _ hbegins => exact ⟨hbegins, hgoes⟩
  | sends _ _ _ hflush => simp [hphase, Phase.flush?] at hflush
  | ends _ _ hdone => simp [isDone, hphase] at hdone

theorem Clocks.begins {watching : Bool} (h : t.Clocks u events)
    (hphase : u.phase = .waiting watching) : ∃ v, Begins v u ∧ v.forwarder = t.forwarder ∧
      (v.drained = false ∨ ∃ f, t.phase.flush? = some f ∧ f.trigger = .timer) := by
  have hround {v : Transfer} {events : List Event} (hhears : v.Hears u events)
      (hsame : v.forwarder = t.forwarder) : ∃ v, Begins v u ∧ v.forwarder = t.forwarder ∧
        (v.drained = false ∨ ∃ f, t.phase.flush? = some f ∧ f.trigger = .timer) := by
    obtain ⟨hbegins, hgoes⟩ := hhears.begins hphase
    exact ⟨v, hbegins, hsame, .inl hgoes⟩
  cases h with
  | waited _ _ _ hhears => exact hround hhears rfl
  | received _ _ _ hhears => exact hround hhears rfl
  | heard _ _ hphase' => cases hphase.symm.trans hphase'
  | refused _ _ hdone => simp [isDone, hphase] at hdone
  | counted _ _ _ _ _ hhears => exact hround hhears rfl
  | resumed hanswered htrigger _ _ hbegins =>
    exact ⟨_, hbegins, rfl, .inr ⟨_, by rw [hanswered]; rfl, htrigger⟩⟩
  | concluded _ _ _ _ hdone => simp [isDone, hphase] at hdone

theorem Hears.ofRound (h : t.Hears u events) : ∀ ev ∈ events, ev.isOfRound = true := by
  cases h with
  | waits => simp
  | ticks => simp [Event.isOfRound]
  | sends _ _ _ _ htold =>
    intro ev hev
    rcases List.mem_append.mp hev with hev | hev
    · exact Event.ofRound_of_farewell (htold ev hev)
    · rw [List.mem_singleton.mp hev]
      rfl
  | ends _ _ _ htold => exact fun ev hev => Event.ofRound_of_farewell (htold ev hev)

theorem Clocks.ofRound (h : t.Clocks u events) : ∀ ev ∈ events, ev.isOfRound = true := by
  cases h with
  | waited _ _ _ hhears => exact hhears.ofRound
  | received _ _ _ hhears => exact List.forall_mem_cons.mpr ⟨rfl, hhears.ofRound⟩
  | heard => simp
  | refused _ _ _ _ htold => exact fun ev hev => Event.ofRound_of_verdict (htold ev hev)
  | counted _ _ hverdict _ _ hhears =>
    exact List.forall_mem_cons.mpr ⟨Event.ofRound_of_verdict hverdict, hhears.ofRound⟩
  | resumed _ _ hverdict =>
    exact List.forall_mem_singleton.mpr (Event.ofRound_of_verdict hverdict)
  | concluded _ _ hverdict _ _ htold =>
    exact List.forall_mem_cons.mpr ⟨Event.ofRound_of_verdict hverdict,
      fun ev hev => Event.ofRound_of_farewell (htold ev hev)⟩

/-- What moves tells of reading or of a round, and takes no time. -/
theorem Invariant.adds_of_moves {threshold : Timestamp} (h : t.Invariant threshold)
    (hmoves : t.Moves u) :
    ∃ events, t.Adds events u ∧ ∀ ev ∈ events, ev.IsOfReading ∨ ev.isOfRound = true := by
  cases hmoves with
  | fill hstep =>
    obtain ⟨e, rest, _, _, rfl⟩ := fill?_eq hstep
    exact ⟨[], ⟨(Journal.note_nil _ _).symm, rfl, rfl⟩, by simp⟩
  | forward hstep =>
    obtain ⟨oplog, forwarder, events, _, hf, rfl⟩ := forward?_eq hstep
    exact ⟨events, ⟨rfl, rfl, rfl⟩, fun ev hev => .inl ((h.feed.step? hf).2.2 ev hev)⟩
  | hear hstep =>
    obtain ⟨_, _, rfl⟩ := hear?_eq hstep
    exact ⟨[], ⟨(Journal.note_nil _ _).symm, rfl, rfl⟩, by simp⟩
  | coordinate hstep =>
    obtain ⟨events, hadds, hclocks⟩ := h.clocks hstep
    exact ⟨events, hadds, fun ev hev => .inr (hclocks.ofRound ev hev)⟩
  | expire hstep =>
    obtain ⟨forwarder, _, _, rfl⟩ := expire?_eq hstep
    exact ⟨[], ⟨(Journal.note_nil _ _).symm, rfl, rfl⟩, by simp⟩

end Transfer

end OplogRelay
