import OplogRelay.Proofs.Transfer.Ledger
/-!
What each part of a round does to the ledger. A round that begins between two batches ends between
two batches, with one more batch under way, or with the transfer at its end; an answer leads back to
where a round begins or to the end.
-/
namespace OplogRelay.Transfer

variable {t u : Transfer} {f : Flush}

/-- What sending the batch comes to. The batch is refused at once, or the destination works on it;
either way nothing is applied or counted yet. -/
structure Sends (t : Transfer) (f : Flush) (u : Transfer) : Prop extends Frame t u where
  batch : u.batch = t.batch
  claim : u.claim = t.claim
  received : u.received = t.received
  counted : u.batchesApplied = t.batchesApplied
  total : u.applier.total = t.applier.total
  last : u.applier.last = t.applier.last
  flushes : u.flushes = t.flushes ++ [(f.trigger, t.batch.entries)]
  batches : u.destination.batches = t.destination.batches
  commands : u.destination.commands =
    t.destination.commands ++ if t.attached then [.ofBatch t.batch.entries] else []
  phase : (∃ answer, u.phase = .answered f answer ∧ answer.isAccepted = false) ∨
    t.attached = true ∧ ∃ due, u.phase = .applying f (.ofBatch t.batch.entries) due
  served : t.toWorld.Serves → u.toWorld.Serves ∧ ∃ ops due, u.phase = .applying f ops due

theorem flush_sends (f : Flush) (hb : t.batch.entries ≠ []) : t.Sends f (t.flush f) := by
  have hsend : t.applier.send? t.batch.entries =
      .ok (.ofBatch t.batch.entries, ⟨t.applier.calls + 1, t.applier.total, t.applier.last⟩) := by
    simp [Applier.send?, hb]
  unfold flush
  simp only [hsend]
  generalize htold : note { t with applier := ⟨t.applier.calls + 1, t.applier.total,
    t.applier.last⟩ } [.flushed f.trigger t.batch.entries] = told
  have hflushes : told.flushes = t.flushes ++ [(f.trigger, t.batch.entries)] :=
    htold ▸ flushes_note _ _
  have hserved (hserves : t.toWorld.Serves) : told.toWorld.Serves := by
    subst told
    exact ⟨hserves.attached, hserves.faultless, hserves.willing, hserves.counted⟩
  obtain ⟨start, destination, hworld, hbatches, hcommands, hstart⟩ :=
    told.toWorld.send_ofBatch t.batch.entries
  simp only [hworld]
  subst told
  refine ⟨⟨rfl, rfl, rfl, rfl, rfl, rfl⟩, rfl, rfl, rfl, rfl, rfl, rfl, hflushes, hbatches,
    hcommands, ?_, fun hserves => ?_⟩
  · rcases hstart with ⟨fault, rfl⟩ | ⟨r, rfl, hr⟩ | ⟨ha, ms, rfl⟩
    · exact .inl ⟨_, rfl, rfl⟩
    · exact .inl ⟨_, rfl, hr⟩
    · exact .inr ⟨ha, _, rfl⟩
  · obtain ⟨⟨ms, rfl⟩, hkeeps⟩ := (hserved hserves).send hworld
    exact ⟨hkeeps, _, _, rfl⟩

theorem Sends.warrant (h : t.Sends f u) (hw : t.Warrant f) : u.Warrant f := by
  constructor
  · rw [h.shutdown]
    exact hw.asked
  · intro hend
    rw [Transfer.drained, h.forwarder, h.claim]
    exact hw.drained hend

theorem carries_flush (he : t.Even) (hb : t.batch.entries ≠ []) (hw : t.Warrant f) :
    t.Carries (t.flush f) := by
  have h := flush_sends f hb
  have hsent : (t.flush f).sent = t.sent ++ t.batch.entries := by
    rw [sent, h.flushes]
    simp [sent]
  have hcounted : (t.flush f).Counted t.flushes :=
    he.counted.transport h.counted h.total h.last
  have happlied : (t.flush f).Applied t.flushes := by
    refine ⟨?_, ?_, ?_⟩
    · rw [h.batches]
      exact he.applied.batches
    · rw [h.commands, h.attached, h.flushes, he.applied.commands]
      by_cases ha : t.attached = true
      · simp [ha]
      · simp [ha]
    · rw [h.attached]
      exact he.applied.attached
  have hflushes : (t.flush f).flushes =
      t.flushes ++ [(f.trigger, (t.flush f).batch.entries)] := by
    rw [h.flushes, h.batch]
  have hne : (t.flush f).batch.entries ≠ [] := by
    rw [h.batch]
    exact hb
  have hreceived : (t.flush f).received + (t.flush f).claim.entries.length =
      t.received + t.claim.entries.length := by
    rw [h.received, h.claim]
  rcases h.phase with ⟨answer, hp, hrefused⟩ | ⟨ha, due, hp⟩
  · refine ⟨h.toFrame, ?_, hreceived, .inr ⟨_, h.flushes⟩, h.batches, ?_, by simp [isDone, hp]⟩
    · rw [taken, hsent, unsent, hp, h.claim, List.append_nil, inHand]
    · rw [hp]
      exact .answered hflushes hne hcounted (by simpa [hrefused] using happlied) (h.warrant hw)
  · refine ⟨h.toFrame, ?_, hreceived, .inr ⟨_, h.flushes⟩, h.batches, ?_, by simp [isDone, hp]⟩
    · rw [taken, hsent, unsent, hp, h.claim, List.append_nil, inHand]
    · rw [hp, ← h.batch]
      exact .applying hflushes hne hcounted happlied (h.warrant hw) (h.attached.trans ha)

theorem carries_beginRound (he : t.Even) (hb : t.batch.size < t.batch.capacity) :
    t.Carries t.beginRound :=
  alike_beginRound.carries_of_standing he rfl (.waiting (alike_beginRound.even he) hb)

theorem carries_conclude (he : t.Even) (hc : t.forwarder.ending ≠ some .cancelled)
    (hb : t.batch.entries = []) (hd : t.drained = true) : t.Carries t.conclude := by
  have hfails (ending : Forwarder.Ending) (e : Failure) (h : t.forwarder.ending = some ending)
      (hfail : ending.failure? = some e) : t.Carries (t.fail e) :=
    (alike_finish _).carries_of_standing he rfl
      (.stopped ((alike_finish _).even he) hb hd h hfail)
  unfold conclude
  split
  · next h => exact hfails _ _ h rfl
  · next h => exact hfails _ _ h rfl
  · next h => exact absurd h hc
  · next h =>
    have halike : Alike t ((t.note [.sourceExhausted]).finish (.ok ())) :=
      (alike_note rfl).trans (alike_finish _)
    exact halike.carries_of_standing he rfl (.finished (halike.even he) hb (.inr ⟨hd, h⟩))
  · next h => exact absurd h (drained_iff.mp hd).1

theorem size_eq_zero {b : Batch} : b.size = 0 ↔ b.entries = [] := List.length_eq_zero_iff

theorem isEmpty_iff {b : Batch} : b.isEmpty = true ↔ b.entries = [] := List.isEmpty_iff

def reset (t : Transfer) : Transfer := { t with nextTick := t.interval.after t.now }

/-- What the rest of a round comes to, by the questions it asks in their order: a request to shut down, the
end of the stream, the timer; and whether there is a batch to send. -/
inductive Proceeds (t : Transfer) : Bool → Transfer → Prop where
  | stops : t.batch.entries = [] → Proceeds t true ((t.note [.shutdownSeen]).finish (.ok ()))
  | closes : t.batch.entries ≠ [] →
      Proceeds t true ((t.note [.shutdownSeen]).flush { trigger := .shutdown })
  | concludes : t.drained = true → t.batch.entries = [] → Proceeds t false t.conclude
  | drains : t.drained = true → t.batch.entries ≠ [] →
      Proceeds t false (t.flush { trigger := .endOfStream })
  | ticks : t.drained = false → t.tickDue = true → t.batch.entries = [] →
      Proceeds t false (t.reset.note [.tickWithoutBatch]).beginRound
  | sends : t.drained = false → t.tickDue = true → t.batch.entries ≠ [] →
      Proceeds t false (t.reset.flush { trigger := .timer })
  | waits : t.drained = false → t.tickDue = false → Proceeds t false t.beginRound

theorem proceeds (t : Transfer) (seen : Bool) : t.Proceeds seen (t.proceed seen) := by
  by_cases hb : t.batch.isEmpty = true
  · have hnone := isEmpty_iff.mp hb
    cases seen with
    | true =>
      simp only [proceed, if_true, if_pos hb]
      exact .stops hnone
    | false =>
      simp only [proceed, Bool.false_eq_true, if_false, if_pos hb]
      split
      · next hd => exact .concludes hd hnone
      · next hd =>
        split
        · next htick => exact .ticks (by simpa using hd) htick hnone
        · next htick => exact .waits (by simpa using hd) (by simpa using htick)
  · have hsome : t.batch.entries ≠ [] := fun h => hb (isEmpty_iff.mpr h)
    cases seen with
    | true =>
      simp only [proceed, if_true, if_neg hb]
      exact .closes hsome
    | false =>
      simp only [proceed, Bool.false_eq_true, if_false, if_neg hb]
      split
      · next hd => exact .drains hd hsome
      · next hd =>
        split
        · next htick => exact .sends (by simpa using hd) htick hsome
        · next htick => exact .waits (by simpa using hd) (by simpa using htick)

theorem alike_reset (t : Transfer) : t.Alike t.reset :=
  ⟨⟨rfl, rfl, rfl, rfl, rfl, rfl⟩, rfl, rfl, rfl, rfl, rfl, rfl, rfl⟩

theorem Proceeds.carries {seen : Bool} (h : t.Proceeds seen u) (he : t.Even)
    (hc : t.forwarder.ending ≠ some .cancelled) (hroom : t.batch.size < t.batch.capacity)
    (hseen : seen = true → t.shutdown = true) : t.Carries u := by
  cases h with
  | stops hb =>
    have halike : Alike t ((t.note [.shutdownSeen]).finish (.ok ())) :=
      (alike_note rfl).trans (alike_finish (.ok ()))
    exact halike.carries_of_standing he rfl (.finished (halike.even he) hb (.inl (hseen rfl)))
  | closes hb =>
    have htold : Alike t (t.note [.shutdownSeen]) := alike_note rfl
    exact htold.carries (carries_flush (htold.even he) hb ⟨fun _ => hseen rfl, by simp⟩)
  | concludes hd hb => exact carries_conclude he hc hb hd
  | drains hd hb => exact carries_flush he hb ⟨by simp, fun _ => hd⟩
  | ticks =>
    have htold : Alike t (t.reset.note [.tickWithoutBatch]) := t.alike_reset.trans (alike_note rfl)
    exact htold.carries (carries_beginRound (htold.even he) hroom)
  | sends _ _ hb =>
    have heven : t.reset.Even := t.alike_reset.even he
    exact t.alike_reset.carries (carries_flush heven hb ⟨by simp, by simp⟩)
  | waits => exact carries_beginRound he hroom

/-- The transfer once an entry has joined its batch, before the round goes on. -/
def join (t : Transfer) (e : Entry) : Transfer :=
  { { t with claim := .none, received := t.received + 1 }.note [.received e] with
    batch := { t.batch with entries := t.batch.entries ++ [e] } }

theorem flushes_join (t : Transfer) (e : Entry) : (t.join e).flushes = t.flushes :=
  (flushes_note _ [.received e]).trans (List.append_nil _)

/-- There is room for an entry that is received, so the batch cannot overflow. -/
theorem receive_eq {e : Entry} (seen : Bool) (hroom : t.batch.size < t.batch.capacity) :
    t.receive e seen =
      if (t.join e).batch.isFull then (t.join e).flush { trigger := .size, shutdownSeen := seen }
      else (t.join e).proceed seen := by
  unfold receive
  have hadd : t.batch.add e = (.ok (t.join e).batch.isFull, (t.join e).batch) :=
    Batch.add_of_lt hroom
  have hsame : ({ t with claim := .none, received := t.received + 1 }.note
    [.received e]).batch = t.batch := rfl
  simp only [hsame, hadd]
  rfl

theorem even_join (he : t.Even) (e : Entry) : (t.join e).Even := by
  have hflushes := t.flushes_join e
  constructor
  · rw [hflushes]
    exact he.counted.transport rfl rfl rfl
  · rw [hflushes]
    exact he.applied.transport rfl rfl hflushes rfl

theorem Carries.of_join {e : Entry} (h : (t.join e).Carries u) (hclaim : t.claim = .filled e) :
    t.Carries u := by
  have hflushes := t.flushes_join e
  obtain ⟨hframe, htaken, hreceived, hsends, hbatches, hstanding, heven⟩ := h
  refine ⟨⟨hframe.now, hframe.forwarder, hframe.oplog, hframe.attached, hframe.shutdown,
    hframe.capacity⟩, ?_, ?_, hflushes ▸ hsends, hbatches, hstanding, heven⟩
  · rw [htaken, inHand, inHand, sent, sent, hflushes, hclaim]
    show t.flushes.flatMap Prod.snd ++ (t.batch.entries ++ [e]) ++ [] = _
    simp [Claim.entries]
  · rw [hreceived, hclaim]
    rfl

theorem carries_receive {e : Entry} {seen : Bool} (he : t.Even)
    (hc : t.forwarder.ending ≠ some .cancelled) (hclaim : t.claim = .filled e)
    (hroom : t.batch.size < t.batch.capacity) (hseen : seen = true → t.shutdown = true) :
    t.Carries (t.receive e seen) := by
  have hjoined := even_join he e
  rw [receive_eq seen hroom]
  by_cases hfull : (t.join e).batch.isFull = true
  · rw [if_pos hfull]
    have hne : (t.join e).batch.entries ≠ [] := by simp [join]
    refine Carries.of_join (carries_flush hjoined hne ⟨?_, by simp⟩) hclaim
    intro h
    exact hseen (h.resolve_right (by simp))
  · rw [if_neg hfull]
    have hroom' : (t.join e).batch.size < (t.join e).batch.capacity :=
      Nat.lt_of_not_le fun h => hfull (Batch.isFull_iff.mpr h)
    exact Carries.of_join ((proceeds _ _).carries hjoined hc hroom' hseen) hclaim

structure Refuses (t : Transfer) (answer : Answer) (u : Transfer) : Prop extends Frame t u where
  phase : u.phase = .done (.error answer.failure)
  batch : u.batch.entries = []
  claim : u.claim = t.claim
  received : u.received = t.received
  flushes : u.flushes = t.flushes
  destination : u.destination = t.destination
  applier : u.applier = t.applier
  counted : u.batchesApplied = t.batchesApplied

/-- A refused batch is given up and counted nowhere. -/
theorem settle_refuses {answer : Answer} (f : Flush) (hb : t.batch.entries ≠ [])
    (h : answer.isAccepted = false) : t.Refuses answer (t.settle f answer) := by
  cases answer with
  | fault fault =>
    exact ⟨⟨rfl, rfl, rfl, rfl, rfl, rfl⟩, rfl, rfl, rfl, rfl, rfl, rfl, rfl, rfl⟩
  | reply r =>
    obtain ⟨last, hlast⟩ : ∃ last, t.batch.entries.getLast? = some last :=
      ⟨_, List.getLast?_eq_some_getLast hb⟩
    have hreceive : t.applier.receive t.batch.entries (.reply r) =
        (.ok (.rejected (Reply.reason r)), t.applier) := by
      have hr : ¬ Reply.accepts r = true := by simpa [Answer.isAccepted] using h
      simp only [Applier.receive, hlast, if_neg hr]
    unfold settle
    simp only [hreceive]
    exact ⟨⟨rfl, rfl, rfl, rfl, rfl, rfl⟩, rfl, rfl, rfl, rfl,
      (flushes_note _ _).trans (List.append_nil _), rfl, rfl, rfl⟩

theorem Refuses.standing {answer : Answer} (h : t.Refuses answer u)
    (hs : t.Standing (.answered f answer)) (hrefused : answer.isAccepted = false) :
    u.Standing u.phase := by
  cases hs with
  | @answered _ _ settled hflushes _ hcounted happlied _ =>
    rw [h.phase]
    rw [hrefused] at happlied
    exact .refused (h.flushes.trans hflushes) h.batch
      (hcounted.transport h.counted (by rw [h.applier]) (by rw [h.applier]))
      (happlied.transport (by rw [h.destination]) (by rw [h.destination]) h.flushes h.attached)
      hrefused

/-- The transfer once an applied batch has been counted, before the round goes on. -/
def count (t : Transfer) (last : Entry) (moment : Timestamp) : Transfer :=
  let applier := t.applier.record t.batch.entries last
  { { t with applier := applier, batch := t.batch.clear }.note
      [.applied t.batch.entries.length applier.total moment] with
    batchesApplied := t.batchesApplied + 1 }

def resume (t : Transfer) (f : Flush) : Transfer :=
  match f.trigger with
  | .size => t.proceed f.shutdownSeen
  | .timer => t.beginRound
  | .shutdown => t.finish (.ok ())
  | .endOfStream => t.conclude

theorem settle_accepts {answer : Answer} (f : Flush) (hb : t.batch.entries ≠ [])
    (hmoments : ∀ e ∈ t.batch.entries, ∃ ts, e.timestamp = .timestamp ts)
    (h : answer.isAccepted = true) :
    ∃ last moment, t.batch.entries.getLast? = some last ∧
      t.settle f answer = (t.count last moment).resume f := by
  obtain ⟨last, hlast⟩ : ∃ last, t.batch.entries.getLast? = some last :=
    ⟨_, List.getLast?_eq_some_getLast hb⟩
  obtain ⟨ts, hts⟩ := hmoments last (List.mem_of_getLast? hlast)
  cases answer with
  | fault fault => cases h
  | reply r =>
    have hreceive : t.applier.receive t.batch.entries (.reply r) =
        (.ok (.applied t.batch.entries.length ts), t.applier.record t.batch.entries last) := by
      have hr : Reply.accepts r = true := h
      have hmoment : last.moment? = .ok ts := by
        simp [Entry.moment?, hts, Value.requireTimestamp]
      simp only [Applier.receive, hlast, if_pos hr, hmoment]
    refine ⟨last, ts, hlast, ?_⟩
    unfold settle
    simp only [hreceive]
    rfl

theorem even_count {answer : Answer} {last : Entry} (moment : Timestamp)
    (hs : t.Standing (.answered f answer)) (h : answer.isAccepted = true)
    (hlast : t.batch.entries.getLast? = some last) : (t.count last moment).Even := by
  cases hs with
  | @answered _ _ settled hflushes _ hcounted happlied _ =>
    rw [h, if_pos rfl] at happlied
    have hsame : (t.count last moment).flushes = t.flushes :=
      (flushes_note _ [.applied _ _ _]).trans (List.append_nil _)
    have hentries : t.flushes.flatMap Prod.snd = settled.flatMap Prod.snd ++ t.batch.entries := by
      simp [hflushes]
    constructor
    · rw [hsame]
      refine ⟨?_, ?_, ?_⟩
      · show t.batchesApplied + 1 = t.flushes.length
        rw [hcounted.batches, hflushes, List.length_append]
        rfl
      · show t.applier.total + t.batch.entries.length = _
        rw [hcounted.total, hentries, List.length_append]
      · show last.timestamp = _
        rw [hentries, List.getLast?_append, hlast]
        rfl
    · rw [hsame]
      exact ⟨happlied.batches, by rw [hsame]; exact happlied.commands, happlied.attached⟩

theorem carries_resume (he : t.Even) (hc : t.forwarder.ending ≠ some .cancelled)
    (hb : t.batch.entries = []) (hcap : 0 < t.batch.capacity) (hw : t.Warrant f) :
    t.Carries (t.resume f) := by
  have hroom : t.batch.size < t.batch.capacity := by
    rw [size_eq_zero.mpr hb]
    exact hcap
  unfold resume
  split
  · exact (proceeds _ _).carries he hc hroom fun h => hw.asked (.inl h)
  · exact carries_beginRound he hroom
  · next h =>
    exact (alike_finish _).carries_of_standing he rfl
      (.finished ((alike_finish _).even he) hb (.inl (hw.asked (.inr h))))
  · next h => exact carries_conclude he hc hb (hw.drained h)

/-- What one step of the coordinator comes to. A batch is sent only when those before it have been
applied, and a transfer ends with a batch that was not applied only by settling its answer. -/
structure Advances (t u : Transfer) : Prop extends Frame t u where
  taken : u.taken = t.taken
  received : u.received + u.claim.entries.length = t.received + t.claim.entries.length
  sends : u.flushes = t.flushes ∨ ∃ b, u.flushes = t.flushes ++ [b] ∧ t.Applied t.flushes
  standing : u.Standing u.phase
  ends : u.isDone = true → u.Even ∨ ∃ f answer, t.phase = .answered f answer ∧
    answer.isAccepted = false ∧ u.phase = .done (.error answer.failure)

theorem Carries.advances (h : t.Carries u) (htaken : t.taken = t.inHand)
    (happlied : t.Applied t.flushes) : t.Advances u where
  toFrame := h.toFrame
  taken := h.taken.trans htaken.symm
  received := h.received
  sends := by
    rcases h.sends with hnone | ⟨b, hb⟩
    · exact .inl hnone
    · exact .inr ⟨b, hb, happlied⟩
  standing := h.standing
  ends hdone := .inl (h.even hdone)

theorem complete_advances {ops : Value} {due : Nat} (hs : t.Standing (.applying f ops due))
    (hphase : t.phase = .applying f ops due) :
    t.Advances { t with
      toWorld := (t.toWorld.complete ops).2
      phase := .answered f (.ofReply (t.toWorld.complete ops).1) } := by
  cases hs with
  | @applying _ _ settled hflushes hb hcounted happlied hw ha =>
    have htaken : t.taken = t.sent ++ [] ++ t.claim.entries := by
      rw [taken, unsent, hphase]
    refine ⟨⟨rfl, rfl, rfl, rfl, rfl, rfl⟩, htaken.symm, rfl, .inl rfl, ?_, by simp [isDone]⟩
    refine .answered hflushes hb ⟨hcounted.1, hcounted.2, hcounted.3⟩ ?_ ⟨hw.1, hw.2⟩
    rcases t.destination.complete_cases t.batch.entries with ⟨hok, hd⟩ | ⟨hno, hd⟩
    · have hok : Answer.isAccepted (.ofReply (t.toWorld.complete (.ofBatch t.batch.entries)).1) =
          true := hok
      rw [if_pos hok]
      refine ⟨?_, ?_, fun h => absurd (ha.symm.trans h) (by decide)⟩
      · show (t.destination.complete (.ofBatch t.batch.entries)).2.batches = t.flushes.map _
        rw [hd, hflushes, List.map_append, happlied.batches]
        rfl
      · show (t.destination.complete (.ofBatch t.batch.entries)).2.commands = _
        rw [hd]
        exact happlied.commands
    · have hno : Answer.isAccepted (.ofReply (t.toWorld.complete (.ofBatch t.batch.entries)).1) =
          false := hno
      rw [hno, if_neg Bool.false_ne_true]
      refine ⟨?_, ?_, happlied.attached⟩
      · show (t.destination.complete (.ofBatch t.batch.entries)).2.batches = _
        rw [hd]
        exact happlied.batches
      · show (t.destination.complete (.ofBatch t.batch.entries)).2.commands = _
        rw [hd]
        exact happlied.commands

theorem settle_advances {answer : Answer} (hs : t.Standing (.answered f answer))
    (hphase : t.phase = .answered f answer) (hc : t.forwarder.ending ≠ some .cancelled)
    (hcap : 0 < t.batch.capacity)
    (hmoments : ∀ e ∈ t.batch.entries, ∃ ts, e.timestamp = .timestamp ts) :
    t.Advances (t.settle f answer) := by
  have htaken : t.taken = t.sent ++ [] ++ t.claim.entries := by
    rw [taken, unsent, hphase]
  have hstanding := hs
  cases hs with
  | @answered _ _ settled hflushes hb hcounted happlied hw =>
    by_cases haccepted : answer.isAccepted = true
    · obtain ⟨last, moment, hlast, hsettle⟩ := settle_accepts f hb hmoments haccepted
      have heven := even_count moment hstanding haccepted hlast
      have hsame : (t.count last moment).flushes = t.flushes :=
        (flushes_note _ [.applied _ _ _]).trans (List.append_nil _)
      have h := carries_resume heven hc rfl hcap ⟨hw.1, hw.2⟩
      rw [if_pos haccepted] at happlied
      rw [hsettle]
      refine ⟨⟨h.now, h.forwarder, h.oplog, h.attached, h.shutdown, h.capacity⟩, ?_, h.received,
        ?_, h.standing, fun hdone => .inl (h.even hdone)⟩
      · rw [h.taken, htaken, inHand, sent, hsame]
        rfl
      · rw [← hsame]
        rcases h.sends with hnone | ⟨b, hb⟩
        · exact .inl hnone
        · refine .inr ⟨b, hb, ?_⟩
          rw [hsame]
          exact happlied
    · have hrefused : answer.isAccepted = false := by simpa using haccepted
      have h := settle_refuses f hb hrefused
      refine ⟨h.toFrame, ?_, ?_, .inl h.flushes, h.standing hstanding hrefused,
        fun _ => .inr ⟨f, answer, hphase, hrefused, h.phase⟩⟩
      · rw [htaken, taken, unsent, h.phase, sent, h.flushes, h.claim]
        simp [h.batch, sent]
      · rw [h.received, h.claim]

/-- What a step of the coordinator is: it goes on with its round without an entry or with one, hears from
the destination, or settles what it has heard. -/
inductive Coordinates (t : Transfer) : Transfer → Prop where
  | goes {watching} : t.phase = .waiting watching → t.roused watching = true →
      t.claim.entries = [] → Coordinates t (t.proceed t.heard)
  | receives {watching e} : t.phase = .waiting watching → t.claim = .filled e →
      Coordinates t (t.receive e t.heard)
  | hears {f ops due} : t.phase = .applying f ops due → due ≤ t.now → Coordinates t { t with
      toWorld := (t.toWorld.complete ops).2
      phase := .answered f (.ofReply (t.toWorld.complete ops).1) }
  | settles {f answer} : t.phase = .answered f answer → Coordinates t (t.settle f answer)

theorem coordinates_of_coordinate? (h : t.coordinate? = some u) : t.Coordinates u := by
  unfold coordinate? at h
  split at h
  · next watching hphase =>
    split at h
    · next hroused =>
      cases Option.some.inj h
      cases hclaim : t.claim with
      | filled e => exact .receives hphase hclaim
      | none => exact .goes hphase hroused (by simp [hclaim, Claim.entries])
      | outstanding => exact .goes hphase hroused (by simp [hclaim, Claim.entries])
    · cases h
  · next f ops due hphase =>
    split at h
    · next hdue =>
      cases Option.some.inj h
      exact .hears hphase hdue
    · cases h
  · next f answer hphase =>
    cases Option.some.inj h
    exact .settles hphase
  · cases h

theorem Coordinates.advances (h : t.Coordinates u) (hs : t.Standing t.phase)
    (hheard : t.heard = true → t.shutdown = true) (hc : t.forwarder.ending ≠ some .cancelled) (hcap : 0 < t.batch.capacity)
    (hmoments : ∀ e ∈ t.batch.entries, ∃ ts, e.timestamp = .timestamp ts) : t.Advances u := by
  cases h with
  | goes hphase =>
    have htaken := inHand_of_waiting hphase
    rw [hphase] at hs
    cases hs with
    | waiting heven hroom =>
      exact ((proceeds _ _).carries heven hc hroom hheard).advances htaken heven.applied
  | receives hphase hclaim =>
    have htaken := inHand_of_waiting hphase
    rw [hphase] at hs
    cases hs with
    | waiting heven hroom =>
      exact (carries_receive heven hc hclaim hroom hheard).advances htaken heven.applied
  | hears hphase =>
    rw [hphase] at hs
    exact complete_advances hs hphase
  | settles hphase =>
    rw [hphase] at hs
    exact settle_advances hs hphase hc hcap hmoments

/-- What a step of the coordinator makes of what it has heard, and of its alarm: a round that begins hears
of a request that was made before, and sets the alarm anew. -/
inductive Listens (t u : Transfer) : Prop where
  | stays : u.heard = t.heard → (∀ watching, u.phase ≠ .waiting watching) → Listens t u
  | begins : u.heard = (t.heard || t.shutdown) → u.alarm = alarmFor u.now u.nextTick → Listens t u

theorem Listens.of_same {v : Transfer} (h : Listens v u) (hheard : v.heard = t.heard)
    (hshutdown : v.shutdown = t.shutdown) : Listens t u := by
  cases h with
  | stays hkept hphase => exact .stays (hkept.trans hheard) hphase
  | begins hheard' halarm => exact .begins (by rw [hheard', hheard, hshutdown]) halarm

theorem listens_beginRound (t : Transfer) : t.Listens t.beginRound := .begins rfl rfl

theorem listens_finish (t : Transfer) (outcome : Except Failure Unit) : t.Listens (t.finish outcome) :=
  .stays rfl (by simp [finish])

theorem listens_flush (t : Transfer) (f : Flush) : t.Listens (t.flush f) := by
  unfold flush
  split
  · exact .stays rfl (by simp [fail, finish])
  · refine .stays rfl ?_
    dsimp only
    intro watching
    split <;> simp

theorem listens_conclude (t : Transfer) : t.Listens t.conclude := by
  unfold conclude
  split <;> exact .stays rfl (by simp [fail, finish])

theorem listens_proceed (t : Transfer) (seen : Bool) : t.Listens (t.proceed seen) := by
  have hproceeds := t.proceeds seen
  generalize t.proceed seen = u at hproceeds
  cases hproceeds with
  | stops => exact (listens_finish _ _).of_same rfl rfl
  | closes => exact (listens_flush _ _).of_same rfl rfl
  | concludes => exact t.listens_conclude
  | drains => exact t.listens_flush _
  | ticks => exact (listens_beginRound _).of_same rfl rfl
  | sends => exact (listens_flush _ _).of_same rfl rfl
  | waits => exact t.listens_beginRound

theorem listens_receive (t : Transfer) (e : Entry) (seen : Bool) : t.Listens (t.receive e seen) := by
  unfold receive
  dsimp only
  split
  · exact (listens_finish _ _).of_same rfl rfl
  · split
    · exact (listens_flush _ _).of_same rfl rfl
    · exact (listens_proceed _ _).of_same rfl rfl

theorem listens_settle (t : Transfer) (f : Flush) (answer : Answer) : t.Listens (t.settle f answer) := by
  unfold settle
  dsimp only
  split
  · exact (listens_finish _ _).of_same rfl rfl
  · split
    · exact (listens_finish _ _).of_same rfl rfl
    · split
      · exact (listens_proceed _ _).of_same rfl rfl
      · exact (listens_beginRound _).of_same rfl rfl
      · exact (listens_finish _ _).of_same rfl rfl
      · exact (listens_conclude _).of_same rfl rfl

theorem listens_of_coordinate? (h : t.coordinate? = some u) : t.Listens u := by
  cases coordinates_of_coordinate? h with
  | goes => exact t.listens_proceed _
  | receives => exact t.listens_receive _ _
  | hears => exact .stays rfl (by simp)
  | settles => exact t.listens_settle _ _

theorem Listens.kept (h : t.Listens u) (hheard : t.heard = true) : u.heard = true := by
  cases h with
  | stays hkept => exact hkept.trans hheard
  | begins hasked => rw [hasked, hheard, Bool.true_or]

theorem Listens.asked (h : t.Listens u) (hheard : u.heard = true) : t.heard = true ∨ t.shutdown = true := by
  cases h with
  | stays hkept => exact .inl (hkept.symm.trans hheard)
  | begins hasked => exact Bool.or_eq_true_iff.mp (hasked.symm.trans hheard)

theorem Listens.heard_of_waiting {watching : Bool} (h : t.Listens u) (hphase : u.phase = .waiting watching)
    (hasked : t.shutdown = true) : u.heard = true := by
  cases h with
  | stays _ hbusy => exact absurd hphase (hbusy watching)
  | begins hheard => rw [hheard, hasked, Bool.or_true]

theorem Listens.alarm_of_waiting {watching : Bool} (h : t.Listens u) (hphase : u.phase = .waiting watching) :
    u.alarm = alarmFor u.now u.nextTick := by
  cases h with
  | stays _ hbusy => exact absurd hphase (hbusy watching)
  | begins _ halarm => exact halarm

end OplogRelay.Transfer
