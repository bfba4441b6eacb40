import OplogRelay.Proofs.Transfer.Punctuality
import OplogRelay.Proofs.Transfer.Reading
/-!
Batches of a transfer that nothing disturbs. What is there to be read is read faster than it is sent, so
that the timer is heard only when all of it has been received: a round that follows a full batch sets the
timer anew before it waits, and no time passes while the coordinator waits with an entry to come. So, if the
clock can be set forward by the interval, every batch but the last one is full, and the batches are what was
to be relayed, cut into pieces.
-/
namespace OplogRelay

/-- A list cut into pieces of so many elements, of which the last one may have fewer. -/
def chunks {α : Type} (size : Nat) (l : List α) : List (List α) :=
  (List.range ((l.length + size - 1) / size)).map fun i => (l.drop (i * size)).take size

section Chunks

variable {α β : Type} {size : Nat} {l : List α}

theorem chunks_nil (h : 0 < size) : chunks size ([] : List α) = [] := by
  have hnone : (([] : List α).length + size - 1) / size = 0 := by
    apply Nat.div_eq_of_lt
    rw [List.length_nil]
    omega
  rw [chunks, hnone]
  rfl

theorem chunks_short (hpos : 0 < l.length) (hle : l.length ≤ size) : chunks size l = [l] := by
  have hone : (l.length + size - 1) / size = 1 := by
    apply Nat.div_eq_of_lt_le
    · omega
    · omega
  simp [chunks, hone, List.take_of_length_le hle]

theorem chunks_cons {piece : List α} (h : piece.length = size) (hpos : 0 < size) :
    chunks size (piece ++ l) = piece :: chunks size l := by
  have hcount : ((piece ++ l).length + size - 1) / size = (l.length + size - 1) / size + 1 := by
    rw [List.length_append, h, ← Nat.add_div_right _ hpos]
    congr 1
    omega
  have hlater (i : Nat) : (piece ++ l).drop ((i + 1) * size) = l.drop (i * size) := by
    rw [Nat.add_one_mul, Nat.add_comm, ← h]
    exact List.drop_length_add_append _
  unfold chunks
  rw [hcount, List.range_succ_eq_map, List.map_cons, List.map_map]
  congr 1
  · rw [Nat.zero_mul, List.drop_zero]
    exact List.take_left' h
  · apply List.map_congr_left
    intro i _
    show ((piece ++ l).drop ((i + 1) * size)).take size = _
    rw [hlater]

theorem chunks_append {pieces : List (List α)} (hfull : ∀ p ∈ pieces, p.length = size)
    (hpos : 0 < size) : chunks size (pieces.flatten ++ l) = pieces ++ chunks size l := by
  induction pieces with
  | nil => rfl
  | cons p rest ih =>
    obtain ⟨hfirst, hrest⟩ := List.forall_mem_cons.mp hfull
    rw [List.flatten_cons, List.append_assoc, chunks_cons hfirst hpos, ih hrest, List.cons_append]

example : chunks 2 [1, 2, 3, 4, 5] = [[1, 2], [3, 4], [5]] := by decide

theorem chunks_map (f : α → β) (size : Nat) (l : List α) :
    chunks size (l.map f) = (chunks size l).map (List.map f) := by
  simp [chunks, List.map_take, List.map_drop]

end Chunks

namespace Transfer

variable {t u : Transfer} {threshold : Timestamp} {events : List Event}

def AllIn (threshold : Timestamp) (t : Transfer) : Prop :=
  t.receipts = Entry.forwardable threshold t.oplog.documents

/-- What was received, what is on its way and what is still to be read make up what is to be
relayed. -/
theorem Invariant.receipts_append (h : t.Invariant threshold) (ho : t.Orderly) :
    t.receipts ++ (t.claim.entries ++ (t.forwarder.queue ++ (t.forwarder.held.toList ++
      Entry.forwardable threshold (t.oplog.documents.drop t.forwarder.tail.cursor.position)))) =
    Entry.forwardable threshold t.oplog.documents := by
  have hcontent := h.feed.content
  rw [taken, ← ho.receipts] at hcontent
  calc _ = Entry.forwardable threshold
          (t.oplog.documents.take t.forwarder.tail.cursor.position) ++
        Entry.forwardable threshold
          (t.oplog.documents.drop t.forwarder.tail.cursor.position) := by
        rw [← hcontent]
        simp only [List.append_assoc]
    _ = Entry.forwardable threshold t.oplog.documents := by
        rw [← Entry.forwardable_append, List.take_append_drop]

theorem AllIn.unclaimed (h : t.AllIn threshold) (hinv : t.Invariant threshold) (ho : t.Orderly) :
    t.claim.entries = [] := by
  have hlength := congrArg List.length (hinv.receipts_append ho)
  rw [← h, List.length_append, List.length_append] at hlength
  apply List.length_eq_zero_iff.mp
  omega

theorem Invariant.allIn (h : t.Invariant threshold) (ho : t.Orderly) (hclaim : t.claim.entries = [])
    (hqueue : t.forwarder.queue = []) (hheld : t.forwarder.held = none)
    (hread : t.forwarder.tail.cursor.position = t.oplog.documents.length) : t.AllIn threshold := by
  have hall := h.receipts_append ho
  rw [hclaim, hqueue, hheld, hread, List.drop_length] at hall
  exact (List.append_nil _).symm.trans hall

theorem AllIn.grow (h : t.AllIn threshold) (hu : u.Invariant threshold) (ho : u.Orderly)
    (hlog : u.oplog = t.oplog) (hgrown : t.receipts <+: u.receipts) : u.AllIn threshold := by
  have hwithin : u.receipts <+: Entry.forwardable threshold u.oplog.documents := by
    rw [← hu.receipts_append ho]
    exact List.prefix_append _ _
  unfold AllIn at h ⊢
  rw [h, ← hlog] at hgrown
  exact (hgrown.eq_of_length_le hwithin.length_le).symm

theorem receipts_grow (h : t.Adds events u) : t.receipts <+: u.receipts := by
  rw [receipts, receipts, h.journal, Journal.receipts_note]
  exact List.prefix_append _ _

theorem Rounds.served {seen : Bool} (h : t.Rounds seen u) (hserves : t.toWorld.Serves) :
    u.toWorld.Serves ∧ ∀ f answer, u.phase ≠ .answered f answer := by
  cases h with
  | waits _ _ halike hphase =>
    refine ⟨halike.serves hserves, fun f answer hanswered => ?_⟩
    cases hphase.symm.trans hanswered
  | ends _ halike hphase =>
    refine ⟨halike.serves hserves, fun f answer hanswered => ?_⟩
    cases hphase.symm.trans hanswered
  | sends _ _ _ hsends =>
    obtain ⟨hkeeps, ops, due, hphase⟩ := hsends.served hserves
    refine ⟨hkeeps, fun f answer hanswered => ?_⟩
    cases hphase.symm.trans hanswered

theorem Acts.served (h : t.Acts u) (hserves : t.toWorld.Serves) :
    u.toWorld.Serves ∧ ∀ f answer, u.phase = .answered f answer → answer.isAccepted = true := by
  cases h with
  | waited _ _ hrounds =>
    obtain ⟨hkeeps, hnot⟩ := hrounds.served hserves
    exact ⟨hkeeps, fun f answer hphase => absurd hphase (hnot f answer)⟩
  | received _ _ hrounds =>
    obtain ⟨hkeeps, hnot⟩ := hrounds.served
      ⟨hserves.attached, hserves.faultless, hserves.willing, hserves.counted⟩
    exact ⟨hkeeps, fun f answer hphase => absurd hphase (hnot f answer)⟩
  | @heard _ answer _ _ hanswer hu =>
    obtain ⟨haccepted, hkeeps⟩ := hserves.complete t.batch.entries
    subst hu
    refine ⟨hkeeps, fun f answer' hphase => ?_⟩
    cases hphase
    rw [hanswer]
    exact haccepted
  | refused _ _ hrefuses =>
    refine ⟨⟨hrefuses.attached.trans hserves.attached, ?_, ?_, ?_⟩, fun f answer hphase => ?_⟩
    · rw [hrefuses.destination]
      exact hserves.faultless
    · rw [hrefuses.destination]
      exact hserves.willing
    · rw [hrefuses.destination]
      exact hserves.counted
    · cases hrefuses.phase.symm.trans hphase
  | counted _ _ _ halike hend =>
    refine ⟨halike.serves ⟨hserves.attached, hserves.faultless, hserves.willing, hserves.counted⟩,
      fun f answer hphase => ?_⟩
    rcases hend with ⟨_, watching, hwaits⟩ | ⟨outcome, hdone⟩
    · cases hwaits.symm.trans hphase
    · cases hdone.symm.trans hphase

theorem Rounds.sends_cases {seen : Bool} (h : t.Rounds seen u) : u.flushes = t.flushes ∨
    t.batch.entries ≠ [] ∧ ∃ f, u.phase.flush? = some f ∧
      u.flushes = t.flushes ++ [(f.trigger, t.batch.entries)] := by
  cases h with
  | waits _ _ halike _ => exact .inl halike.flushes
  | ends _ halike _ => exact .inl halike.flushes
  | sends hsized _ _ hsends =>
    exact .inr ⟨List.ne_nil_of_length_pos hsized.nonempty, _, flush?_of_sends hsends,
      hsends.flushes⟩

theorem Acts.sends_cases (h : t.Acts u) : u.flushes = t.flushes ∨
    (t.unsent ≠ [] ∨ t.claim.entries ≠ []) ∧ ∃ f batch, u.phase.flush? = some f ∧
      u.flushes = t.flushes ++ [(f.trigger, batch)] := by
  cases h with
  | waited hphase _ hrounds =>
    rcases hrounds.sends_cases with hsame | ⟨hb, f, hf, hflushes⟩
    · exact .inl hsame
    · refine .inr ⟨.inl ?_, f, _, hf, hflushes⟩
      rwa [unsent, hphase]
  | @received _ e _ hclaim hrounds =>
    rw [← t.flushes_join e]
    rcases hrounds.sends_cases with hsame | ⟨_, f, hf, hflushes⟩
    · exact .inl hsame
    · refine .inr ⟨.inr ?_, f, _, hf, hflushes⟩
      rw [hclaim]
      exact List.cons_ne_nil _ _
  | heard _ _ hu =>
    subst hu
    exact .inl rfl
  | refused _ _ hrefuses => exact .inl hrefuses.flushes
  | counted _ _ _ halike _ =>
    exact .inl (halike.flushes.trans ((flushes_note _ [.applied _ _ _]).trans (List.append_nil _)))

theorem flush?_of_done (h : t.isDone = true) : t.phase.flush? = none := by
  unfold isDone at h
  split at h
  · next hphase =>
    rw [hphase]
    rfl
  · cases h

theorem tickDue_of_next (hnext : u.nextTick = t.nextTick) (hnow : u.now = t.now) :
    u.tickDue = t.tickDue := by
  rw [tickDue, tickDue, hnext, hnow]

theorem tickDue_after (hinterval : t.interval.IsPositive) (hsets : t.interval.SetsForward t.now)
    (hnext : u.nextTick = t.interval.after t.now) (hnow : u.now = t.now) : u.tickDue = false := by
  rw [tickDue, hnext, hnow]
  cases hafter : t.interval.after t.now with
  | none => rfl
  | some tick => simpa [isDue] using hsets hinterval tick hafter

theorem Hears.early {watching : Bool} (h : t.Hears u events) (hadds : t.Adds events u)
    (hinterval : t.interval.IsPositive) (hsets : t.interval.SetsForward t.now)
    (hphase : u.phase = .waiting watching) : u.tickDue = false := by
  cases h with
  | waits _ hearly hnext _ => exact (tickDue_of_next hnext hadds.now).trans hearly
  | ticks _ _ _ hnext _ => exact tickDue_after hinterval hsets hnext hadds.now
  | sends _ _ _ hflush => simp [hphase, Phase.flush?] at hflush
  | ends _ _ hdone => simp [isDone, hphase] at hdone

theorem Hears.due {f : Flush} (h : t.Hears u events) (hf : u.phase.flush? = some f) :
    t.batch.entries ≠ [] ∧ (f.trigger = .timer → t.tickDue = true) := by
  cases h with
  | waits _ _ _ hbegins => simp [hbegins.phase, Phase.flush?] at hf
  | ticks _ _ _ _ hbegins => simp [hbegins.phase, Phase.flush?] at hf
  | sends hb hdue _ hflush _ =>
    cases hflush.symm.trans hf
    exact ⟨hb, fun htrigger => (hdue htrigger).1⟩
  | ends _ _ hdone =>
    rw [flush?_of_done hdone] at hf
    cases hf

/-- A transfer that nothing disturbs. Its timer has no batch sent, and is not even due where the
coordinator waits, before all that is to be relayed has been received. -/
structure Steady (threshold : Timestamp) (t : Transfer) : Prop where
  serves : t.toWorld.Serves
  unasked : t.shutdown = false
  reads : t.forwarder.tail.Reads threshold t.oplog
  lapsed : t.forwarder.tail.phase = .lapsed →
    t.forwarder.tail.cursor.position = t.oplog.documents.length
  ended : t.forwarder.ending ≠ none → t.forwarder.ending = some .exhausted ∧
    t.forwarder.tail.cursor.position = t.oplog.documents.length
  interval : t.interval.IsPositive
  late : ∀ watching, t.phase = .waiting watching → t.tickDue = true → t.AllIn threshold
  timed : ∀ f, t.phase.flush? = some f → f.trigger = .timer → t.AllIn threshold
  accepted : ∀ f answer, t.phase = .answered f answer → answer.isAccepted = true
  even : t.isDone = true → t.Even

/-- How the batches have been cut so far: they are full, or all was received and sent, whatever the
size of the last one. -/
inductive Cut (threshold : Timestamp) (t : Transfer) : Prop where
  | full : (∀ b ∈ t.flushes, b.1 = .size) → Cut threshold t
  | last {full b} : t.AllIn threshold → t.unsent = [] → t.flushes = full ++ [b] →
      (∀ b ∈ full, b.1 = .size) → Cut threshold t

theorem Steady.allIn_of_drained (h : t.Steady threshold) (hinv : t.Invariant threshold)
    (ho : t.Orderly) (hd : t.drained = true) : t.AllIn threshold := by
  obtain ⟨hended, hqueue, hclaim⟩ := drained_iff.mp hd
  obtain ⟨hexhausted, hread⟩ := h.ended hended
  refine hinv.allIn ho hclaim hqueue ?_ hread
  by_contra hheld
  rcases hinv.feed.lost (Option.isSome_iff_ne_none.mpr hheld) with hlive | hcancelled
  · exact hended hlive
  · cases hexhausted.symm.trans hcancelled

theorem Steady.cause {f : Flush} (h : t.Steady threshold) (hinv : t.Invariant threshold)
    (ho : t.Orderly) (hf : t.phase.flush? = some f) :
    f.shutdownSeen = false ∧ (f.trigger = .size ∨ t.AllIn threshold) := by
  have hw : t.Warrant f := by
    have hs := hinv.standing
    cases hphase : t.phase with
    | waiting => simp [hphase, Phase.flush?] at hf
    | done => simp [hphase, Phase.flush?] at hf
    | applying f' ops due =>
      rw [hphase] at hs hf
      cases hf
      cases hs with
      | applying _ _ _ _ hw => exact hw
    | answered f' answer =>
      rw [hphase] at hs hf
      cases hf
      cases hs with
      | answered _ _ _ _ hw => exact hw
  constructor
  · by_contra hseen
    exact absurd (h.unasked.symm.trans (hw.asked (.inl (by simpa using hseen)))) (by decide)
  · cases htrigger : f.trigger with
    | size => exact .inl rfl
    | timer => exact .inr (h.timed f hf htrigger)
    | shutdown => exact absurd (h.unasked.symm.trans (hw.asked (.inr htrigger))) (by decide)
    | endOfStream => exact .inr (h.allIn_of_drained hinv ho (hw.drained htrigger))

theorem Steady.result {result : Except Failure Unit} (h : t.Steady threshold)
    (hinv : t.Invariant threshold) (ho : t.Orderly) (hphase : t.phase = .done result) :
    result = .ok () ∧ t.AllIn threshold ∧ t.unsent = [] ∧ t.forwarder.ending ≠ none := by
  have hs := hinv.standing
  have hdone : t.isDone = true := by simp [isDone, hphase]
  have hunsent := (hinv.unsent_of_done hdone).1
  rw [hphase] at hs
  cases hs with
  | finished _ _ hcause =>
    rcases hcause with hasked | ⟨hd, hend⟩
    · cases h.unasked.symm.trans hasked
    · exact ⟨rfl, h.allIn_of_drained hinv ho hd, hunsent, ended_of_drained hd⟩
  | stopped _ _ hd hend hfail =>
    have hexhausted := (h.ended (ended_of_drained hd)).1
    cases hend.symm.trans hexhausted
    cases hfail
  | refused hflushes _ hcounted =>
    -- a refused batch was sent and not counted, but at its end this transfer has counted all
    have hlength := (h.even hdone).counted.batches
    rw [hcounted.batches, hflushes, List.length_append] at hlength
    simp at hlength

theorem Steady.beside (h : t.Steady threshold) (hb : t.Beside u) (hlog : u.oplog = t.oplog)
    (hserves : u.toWorld.Serves) (hunasked : u.shutdown = false)
    (hreads : u.forwarder.tail.Reads threshold u.oplog)
    (hlapsed : u.forwarder.tail.phase = .lapsed →
      u.forwarder.tail.cursor.position = u.oplog.documents.length)
    (hended : u.forwarder.ending ≠ none → u.forwarder.ending = some .exhausted ∧
      u.forwarder.tail.cursor.position = u.oplog.documents.length)
    (hinterval : u.interval = t.interval) (htick : u.tickDue = t.tickDue) :
    u.Steady threshold := by
  have hall (hall : t.AllIn threshold) : u.AllIn threshold := by
    rw [AllIn, hb.receipts, hlog]
    exact hall
  refine ⟨hserves, hunasked, hreads, hlapsed, hended, hinterval ▸ h.interval, ?_, ?_, ?_, ?_⟩
  · intro watching hphase hdue
    exact hall (h.late watching (hb.phase.symm.trans hphase) (htick.symm.trans hdue))
  · intro f hf htrigger
    rw [hb.phase] at hf
    exact hall (h.timed f hf htrigger)
  · intro f answer hphase
    exact h.accepted f answer (hb.phase.symm.trans hphase)
  · intro hdone
    exact hb.even (h.even (hb.isDone.symm.trans hdone))

theorem Steady.fill? (h : t.Steady threshold) (hstep : t.fill? = some u) :
    u.oplog = t.oplog ∧ u.Steady threshold := by
  have hbeside := beside_fill? hstep
  obtain ⟨e, rest, _, _, rfl⟩ := fill?_eq hstep
  exact ⟨rfl, h.beside hbeside rfl h.serves h.unasked h.reads h.lapsed h.ended rfl rfl⟩

theorem read_of_ends {docs : List Document} {f f' : Forwarder}
    (hends : ∀ ending, f'.ending = some ending → Forwarder.Ends docs f f' ending)
    (hlapsed : f.tail.phase = .lapsed → f.tail.cursor.position = docs.length)
    (hnot : f'.hasFailed = false) (hended : f'.ending ≠ none) :
    f'.ending = some .exhausted ∧ f'.tail.cursor.position = docs.length := by
  obtain ⟨ending, hending⟩ := Option.ne_none_iff_exists'.mp hended
  have hend := hends ending hending
  by_cases hexhausted : ending = .exhausted
  · refine ⟨hexhausted ▸ hending, ?_⟩
    rcases hend.all_read hexhausted with ⟨hphase, hcursor⟩ | hread
    · rw [hcursor]
      exact hlapsed hphase
    · exact hread
  · exact absurd (hnot.symm.trans (hend.failed hexhausted)) (by decide)

theorem Steady.forward? (h : t.Steady threshold) (hinv : t.Invariant threshold)
    (hstep : t.forward? = some u) : u.oplog = t.oplog ∧ u.Steady threshold := by
  have hbeside := hinv.beside_forward? hstep
  obtain ⟨oplog, forwarder, events, _, hf, rfl⟩ := forward?_eq hstep
  obtain ⟨rfl, hreads, hnot⟩ := Forwarder.reads_of_step? h.reads hinv.feed hf
  refine ⟨rfl, h.beside hbeside rfl ?_ h.unasked hreads ?_ ?_ rfl rfl⟩
  · exact ⟨h.serves.attached, h.serves.faultless, h.serves.willing, h.serves.counted⟩
  · exact fun hlapsed => absurd hlapsed (hinv.feed.not_lapsed_of_step? hf)
  · exact read_of_ends (fun _ he => hinv.feed.step?_ends hf he) h.lapsed hnot

theorem Steady.hear? (h : t.Steady threshold) (hstep : t.hear? = some u) :
    u.oplog = t.oplog ∧ u.Steady threshold := by
  cases h.unasked.symm.trans (hear?_eq hstep).1

theorem Steady.expire? (h : t.Steady threshold) (hinv : t.Invariant threshold)
    (hstep : t.expire? = some u) : u.oplog = t.oplog ∧ u.Steady threshold := by
  have hbeside := beside_expire? hstep
  obtain ⟨forwarder, hlive, hf, rfl⟩ := expire?_eq hstep
  obtain ⟨hreads, _⟩ := Forwarder.reads_of_expire? h.reads hf
  obtain ⟨_, tail, htail, rfl⟩ := Forwarder.expire?_cases hf
  obtain ⟨due, hphase, _, rfl⟩ := Tail.expire?_eq_some htail
  have hread := (hinv.feed.live hlive).caught_up _ hphase
  exact ⟨rfl, h.beside hbeside rfl h.serves h.unasked hreads (fun _ => hread)
    (fun hended => absurd hlive hended) rfl rfl⟩

theorem Steady.late_of_clocks {watching : Bool} (h : t.Steady threshold)
    (hsets : t.interval.SetsForward t.now) (hadds : t.Adds events u)
    (hclocks : t.Clocks u events) (hphase : u.phase = .waiting watching) :
    u.tickDue = false ∨ t.AllIn threshold := by
  have hdone (hdone : u.isDone = true) : u.tickDue = false ∨ t.AllIn threshold := by
    simp [isDone, hphase] at hdone
  cases hclocks with
  | waited _ _ _ hhears => exact .inl (hhears.early hadds h.interval hsets hphase)
  | received _ _ hround hhears => exact .inl (hhears.early hround h.interval hsets hphase)
  | heard _ _ hphase' => cases hphase.symm.trans hphase'
  | refused _ _ hends => exact hdone hends
  | counted _ _ _ _ hround hhears => exact .inl (hhears.early hround h.interval hsets hphase)
  | resumed hanswered htrigger => exact .inr (h.timed _ (by rw [hanswered]; rfl) htrigger)
  | concluded _ _ _ _ hends => exact hdone hends

theorem Steady.timed_of_clocks {f : Flush} (h : t.Steady threshold) (hinv : t.Invariant threshold)
    (ho : t.Orderly) (hclocks : t.Clocks u events) (hf : u.phase.flush? = some f)
    (htrigger : f.trigger = .timer) : t.AllIn threshold := by
  have hdone (hdone : u.isDone = true) : t.AllIn threshold := by
    rw [flush?_of_done hdone] at hf
    cases hf
  cases hclocks with
  | waited hphase _ _ hhears => exact h.late _ hphase ((hhears.due hf).2 htrigger)
  | received hphase hclaim _ hhears =>
    have hin := h.late _ hphase ((hhears.due hf).2 htrigger)
    have hunclaimed := hin.unclaimed hinv ho
    rw [hclaim] at hunclaimed
    cases hunclaimed
  | heard hphase _ hphase' =>
    rw [hphase'] at hf
    cases hf
    exact h.timed f (by rw [hphase]; rfl) htrigger
  | refused _ _ hends => exact hdone hends
  | counted _ _ _ _ _ hhears => exact absurd rfl (hhears.due hf).1
  | resumed _ _ _ _ hbegins => simp [hbegins.phase, Phase.flush?] at hf
  | concluded _ _ _ _ hends => exact hdone hends

theorem Steady.coordinate? (h : t.Steady threshold) (hsets : t.interval.SetsForward t.now)
    (hinv : t.Invariant threshold) (ho : t.Orderly) (hstep : t.coordinate? = some u) :
    u.oplog = t.oplog ∧ u.Steady threshold := by
  have hadvances := hinv.coordinate?_advances hstep
  obtain ⟨events, hadds, hclocks⟩ := hinv.clocks hstep
  obtain ⟨hserves, haccepted⟩ := (hinv.acts hstep).served h.serves
  have hall (hin : t.AllIn threshold) : u.AllIn threshold :=
    hin.grow (hinv.coordinate? hstep) (hinv.orderly_of_coordinate? ho hstep) hadvances.oplog
      (receipts_grow hadds)
  refine ⟨hadvances.oplog, hserves, hadvances.shutdown.trans h.unasked, ?_, ?_, ?_, ?_, ?_, ?_,
    haccepted, ?_⟩
  · rw [hadvances.forwarder, hadvances.oplog]
    exact h.reads
  · rw [hadvances.forwarder, hadvances.oplog]
    exact h.lapsed
  · rw [hadvances.forwarder, hadvances.oplog]
    exact h.ended
  · rw [hadds.interval]
    exact h.interval
  · intro watching hphase hdue
    rcases h.late_of_clocks hsets hadds hclocks hphase with hearly | hin
    · exact absurd (hearly.symm.trans hdue) (by decide)
    · exact hall hin
  · intro f hf htrigger
    exact hall (h.timed_of_clocks hinv ho hclocks hf htrigger)
  · intro hdone
    refine (hadvances.ends hdone).resolve_right ?_
    rintro ⟨f, answer, hphase, hrefused, _⟩
    exact absurd ((h.accepted f answer hphase).symm.trans hrefused) (by decide)

theorem Steady.moves (h : t.Steady threshold) (hsets : t.interval.SetsForward t.now)
    (hinv : t.Invariant threshold) (ho : t.Orderly) (hmoves : t.Moves u) :
    u.oplog = t.oplog ∧ u.Steady threshold := by
  cases hmoves with
  | fill hstep => exact h.fill? hstep
  | forward hstep => exact h.forward? hinv hstep
  | hear hstep => exact h.hear? hstep
  | coordinate hstep => exact h.coordinate? hsets hinv ho hstep
  | expire hstep => exact h.expire? hinv hstep

theorem steady_start {w : World} {tail : Tail} {capacity : Nat} {interval : Span} (hserves : w.Serves)
    (hunasked : w.shutdown = false) (hreads : tail.Reads threshold w.oplog)
    (hlapsed : tail.phase ≠ .lapsed) (hinterval : interval.IsPositive)
    (hsets : interval.SetsForward w.now) :
    (Transfer.start w tail capacity interval).Steady threshold := by
  refine ⟨hserves, hunasked, hreads, fun h => absurd h hlapsed, ?_, hinterval, ?_, ?_, ?_, ?_⟩
  · intro hended
    exact absurd rfl hended
  · intro _ _ hdue
    have hearly := tickDue_after (t := Transfer.start w tail capacity interval) hinterval hsets rfl rfl
    cases hearly.symm.trans hdue
  · intro f hf
    cases hf
  · intro f answer hphase
    cases hphase
  · intro hdone
    cases hdone

theorem Steady.note (h : t.Steady threshold) (hevents : Event.TellNoBatch events) :
    (t.note events).Steady threshold := by
  refine h.beside (beside_onWorld (World.similar_note hevents)) rfl ?_ h.unasked h.reads h.lapsed h.ended rfl rfl
  exact ⟨h.serves.attached, h.serves.faultless, h.serves.willing, h.serves.counted⟩

theorem Steady.pass {moment : Nat} (h : t.Steady threshold)
    (hrest : ∀ watching, t.phase = .waiting watching → t.now = moment ∨ t.AllIn threshold) :
    Steady threshold { t with now := moment } := by
  refine ⟨⟨h.serves.attached, h.serves.faultless, h.serves.willing, h.serves.counted⟩, h.unasked,
    h.reads, h.lapsed, h.ended, h.interval, fun watching hphase hdue => ?_, h.timed, h.accepted, fun hdone => ?_⟩
  · rcases hrest watching hphase with rfl | hin
    · exact h.late watching hphase hdue
    · exact hin
  · have heven := h.even hdone
    exact ⟨heven.counted.transport rfl rfl rfl, heven.applied.transport rfl rfl rfl rfl⟩

theorem open_of_rest {watching : Bool} (hphase : t.phase = .waiting watching)
    (hcoordinate : t.coordinate? = none) : t.claim.entries = [] := by
  cases hc : t.claim with
  | filled e => simp [Transfer.coordinate?, hphase, roused, hc, Claim.isFilled] at hcoordinate
  | none => rfl
  | outstanding => rfl

theorem unqueued (hclaim : t.claim ≠ .none) (hopen : t.claim.entries = []) (hfill : t.fill? = none) :
    t.forwarder.queue = [] := by
  cases hc : t.claim with
  | none => exact absurd hc hclaim
  | filled e => simp [hc, Claim.entries] at hopen
  | outstanding =>
    cases hq : t.forwarder.queue with
    | nil => rfl
    | cons e rest => simp [Transfer.fill?, hc, hq] at hfill

theorem Invariant.caught_up (h : t.Invariant threshold) (ho : t.Orderly)
    (hlive : t.forwarder.ending = none) (hqueue : t.forwarder.queue = [])
    (hforward : t.forward? = none) : t.forwarder.held = none ∧
      t.forwarder.tail.cursor.position = t.oplog.documents.length ∧
      ∃ until?, t.forwarder.tail.phase = .waiting until? false := by
  have hrest : t.forwarder.step? t.now t.oplog = none := by
    cases hstep : t.forwarder.step? t.now t.oplog with
    | none => rfl
    | some moved => simp [Transfer.forward?, hstep] at hforward
  rcases h.feed.suspended hlive hrest with ⟨_, hfull⟩ | hwaits
  · rw [hqueue, ho.handoff] at hfull
    cases hfull
  · exact hwaits

/-- Where a coordinator waits and nothing else goes on, all has been received. -/
theorem Steady.allIn_of_rest {watching : Bool} (h : t.Steady threshold)
    (hinv : t.Invariant threshold) (ho : t.Orderly) (hphase : t.phase = .waiting watching)
    (hclaim : t.claim ≠ .none) (hfill : t.fill? = none) (hforward : t.forward? = none)
    (hcoordinate : t.coordinate? = none) : t.AllIn threshold := by
  have hopen := open_of_rest hphase hcoordinate
  have hqueue := unqueued hclaim hopen hfill
  by_cases hlive : t.forwarder.ending = none
  · obtain ⟨hheld, hread, _⟩ := hinv.caught_up ho hlive hqueue hforward
    exact hinv.allIn ho hopen hqueue hheld hread
  · exact h.allIn_of_drained hinv ho (drained_iff.mpr ⟨hlive, hqueue, hopen⟩)

theorem Cut.beside (h : t.Cut threshold) (hb : t.Beside u) (hlog : u.oplog = t.oplog) :
    u.Cut threshold := by
  cases h with
  | full hfull =>
    refine .full ?_
    rw [hb.flushes]
    exact hfull
  | last hin hunsent hflushes hfull =>
    refine .last ?_ (hb.unsent.trans hunsent) (hb.flushes.trans hflushes) hfull
    rw [AllIn, hb.receipts, hlog]
    exact hin

theorem Cut.note (h : t.Cut threshold) (hevents : Event.TellNoBatch events) :
    (t.note events).Cut threshold :=
  h.beside (beside_onWorld (World.similar_note hevents)) rfl

theorem Cut.pass (h : t.Cut threshold) (moment : Nat) : Cut threshold { t with now := moment } := by
  cases h with
  | full hfull => exact .full hfull
  | last hin hunsent hflushes hfull => exact .last hin hunsent hflushes hfull

theorem Cut.coordinate? (h : t.Cut threshold) (hinv : t.Invariant threshold) (ho : t.Orderly)
    (hsteady : t.Steady threshold) (hsets : t.interval.SetsForward t.now)
    (hstep : t.coordinate? = some u) : u.Cut threshold := by
  have hu := hinv.coordinate? hstep
  have hou := hinv.orderly_of_coordinate? ho hstep
  obtain ⟨hlog, hafter⟩ := hsteady.coordinate? hsets hinv ho hstep
  obtain ⟨events, hadds, _⟩ := hinv.clocks hstep
  have hall (hin : t.AllIn threshold) : u.AllIn threshold :=
    hin.grow hu hou hlog (receipts_grow hadds)
  rcases (hinv.acts hstep).sends_cases with hsame | ⟨hleft, f, batch, hf, hflushes⟩
  · cases h with
    | full hfull =>
      refine .full ?_
      rw [hsame]
      exact hfull
    | last hin hunsent hflushes hfull =>
      refine .last (hall hin) ?_ (hsame.trans hflushes) hfull
      have hreceipts : t.receipts ++ u.unsent = t.receipts := by
        calc t.receipts ++ u.unsent
            = u.sent ++ u.unsent := by rw [ho.receipts, hunsent, List.append_nil, sent, sent, hsame]
          _ = u.receipts := hou.receipts.symm
          _ = t.receipts := by rw [hall hin, hin, hlog]
      exact List.append_right_eq_self.mp hreceipts
  · cases h with
    | full hfull =>
      rcases (hafter.cause hu hou hf).2 with hsize | hin
      · refine .full ?_
        rw [hflushes]
        exact List.forall_mem_append.mpr ⟨hfull, List.forall_mem_singleton.mpr hsize⟩
      · exact .last hin (unsent_of_flush? hf) hflushes hfull
    | last hin hunsent _ _ =>
      rcases hleft with hleft | hleft
      · exact absurd hunsent hleft
      · exact absurd (hin.unclaimed hinv ho) hleft

theorem Cut.moves (h : t.Cut threshold) (hinv : t.Invariant threshold) (ho : t.Orderly)
    (hsteady : t.Steady threshold) (hsets : t.interval.SetsForward t.now) (hmoves : t.Moves u) :
    u.Cut threshold := by
  rcases hinv.beside_or_coordinate hmoves with hbeside | hstep
  · exact h.beside hbeside (hsteady.moves hsets hinv ho hmoves).1
  · exact h.coordinate? hinv ho hsteady hsets hstep

theorem sent_eq_flatten (t : Transfer) : t.sent = (t.flushes.map Prod.snd).flatten := by
  rw [sent, List.flatMap_def]

theorem Orderly.full {batches : List (Trigger × List Entry)} (ho : t.Orderly)
    (hsub : batches <+: t.flushes) (hsize : ∀ b ∈ batches, b.1 = .size) :
    ∀ p ∈ batches.map Prod.snd, p.length = t.batch.capacity := by
  intro p hp
  obtain ⟨b, hb, rfl⟩ := List.mem_map.mp hp
  exact (ho.sized b (hsub.subset hb)).full (hsize b hb)

/-- The batches are the first pieces of what is to be relayed; at the end, they are all of them. -/
theorem Cut.pieces (h : t.Cut threshold) (hinv : t.Invariant threshold) (ho : t.Orderly) :
    t.flushes.map Prod.snd <+:
      chunks t.batch.capacity (Entry.forwardable threshold t.oplog.documents) ∧
    (t.AllIn threshold → t.unsent = [] → t.flushes.map Prod.snd =
      chunks t.batch.capacity (Entry.forwardable threshold t.oplog.documents)) := by
  have hcapacity := hinv.room
  cases h with
  | full hfull =>
    have hsizes := ho.full (List.prefix_refl _) hfull
    constructor
    · rw [← hinv.receipts_append ho, ho.receipts, sent_eq_flatten, List.append_assoc,
        chunks_append hsizes hcapacity]
      exact List.prefix_append _ _
    · intro hin hunsent
      rw [← hin, ho.receipts, hunsent, sent_eq_flatten, chunks_append hsizes hcapacity,
        chunks_nil hcapacity, List.append_nil]
  | @last full b hin hunsent hflushes hfull =>
    have hsizes := ho.full (hflushes ▸ List.prefix_append full [b]) hfull
    have hsized := ho.sized b (by simp [hflushes])
    have hwhole : t.flushes.map Prod.snd =
        chunks t.batch.capacity (Entry.forwardable threshold t.oplog.documents) := by
      rw [← hin, ho.receipts, hunsent, List.append_nil, sent_eq_flatten, hflushes, List.map_append,
        List.flatten_append, chunks_append hsizes hcapacity]
      congr 1
      rw [List.map_singleton, List.flatten_singleton, chunks_short hsized.nonempty hsized.le]
    exact ⟨hwhole ▸ List.prefix_refl _, fun _ _ => hwhole⟩

end Transfer

end OplogRelay
