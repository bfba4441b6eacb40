import OplogRelay.Proofs.Transfer.Coordination
/-!
Everything that can happen in a transfer, in whatever order: the forwarder and the coordinator move,
and so does what surrounds them. The order that `Transfer.step?` prefers is not relied on. One
invariant is kept by all of it: no entry is lost, none is sent twice, and the ledger is in order.
-/
namespace OplogRelay

namespace Transfer

inductive Moves (t : Transfer) : Transfer → Prop where
  | fill {u} : t.fill? = some u → Moves t u
  | forward {u} : t.forward? = some u → Moves t u
  | hear {u} : t.hear? = some u → Moves t u
  | coordinate {u} : t.coordinate? = some u → Moves t u
  | expire {u} : t.expire? = some u → Moves t u

theorem moves_of_step? {t u : Transfer} (h : t.step? = some u) : t.Moves u := by
  unfold step? at h
  split at h
  · cases h
  · cases hfill : t.fill? with
    | some v => exact .fill (hfill.trans (by simpa [hfill] using h))
    | none =>
      cases hforward : t.forward? with
      | some v => exact .forward (hforward.trans (by simpa [hfill, hforward] using h))
      | none =>
        cases hhear : t.hear? with
        | some v => exact .hear (hhear.trans (by simpa [hfill, hforward, hhear] using h))
        | none =>
          cases hcoordinate : t.coordinate? with
          | some v =>
            exact .coordinate (hcoordinate.trans (by simpa [hfill, hforward, hhear, hcoordinate] using h))
          | none => exact .expire (by simpa [hfill, hforward, hhear, hcoordinate] using h)

theorem fill?_eq {t u : Transfer} (h : t.fill? = some u) :
    ∃ e rest, t.claim = .outstanding ∧ t.forwarder.queue = e :: rest ∧ u = { t with
      claim := .filled e, forwarder := { t.forwarder with queue := rest } } := by
  unfold fill? at h
  split at h
  · next e rest hclaim hqueue =>
    cases h
    exact ⟨e, rest, hclaim, hqueue, rfl⟩
  · cases h

theorem forward?_eq {t u : Transfer} (h : t.forward? = some u) :
    ∃ oplog forwarder events, t.forwarder.ending = none ∧
      t.forwarder.step? t.now t.oplog = some (oplog, forwarder, events) ∧
      u = note { t with oplog := oplog, forwarder := forwarder } events := by
  unfold forward? at h
  split at h
  · cases h
  · next oplog forwarder events hf =>
    cases h
    refine ⟨oplog, forwarder, events, ?_, hf, rfl⟩
    by_contra hended
    rw [Forwarder.step?_of_ended hended] at hf
    cases hf

theorem hear?_eq {t u : Transfer} (h : t.hear? = some u) :
    t.shutdown = true ∧ t.heard = false ∧ u = { t with heard := true } := by
  unfold hear? at h
  split at h
  · next hasked =>
    simp only [Bool.and_eq_true, Bool.not_eq_true'] at hasked
    exact ⟨hasked.1, hasked.2, (Option.some.inj h).symm⟩
  · cases h

theorem expire?_eq {t u : Transfer} (h : t.expire? = some u) :
    ∃ forwarder, t.forwarder.ending = none ∧ t.forwarder.expire? t.now = some forwarder ∧
      u = { t with forwarder := forwarder } := by
  obtain ⟨forwarder, hf, rfl⟩ := Option.map_eq_some_iff.mp h
  exact ⟨forwarder, (Forwarder.live_of_expire? hf).1, hf, rfl⟩

/-- The invariant of a transfer over the entries from a threshold on. The forwarder accounts for
what it read, the coordinator for what it took. -/
structure Invariant (threshold : Timestamp) (t : Transfer) : Prop where
  feed : t.forwarder.Sound threshold t.oplog.documents t.taken
  room : 0 < t.batch.capacity
  received : t.received + t.claim.entries.length = t.taken.length
  heard : t.heard = true → t.shutdown = true
  uncancelled : t.forwarder.ending = some .cancelled → t.isDone = true
  standing : t.Standing t.phase

theorem Invariant.standing_at {threshold : Timestamp} {t : Transfer} {phase : Phase}
    (h : t.Invariant threshold) (hphase : t.phase = phase) : t.Standing phase :=
  hphase ▸ h.standing

/-- What happens beside the coordinator: the ledger stays as it is, requests stay made, and what
was drained stays drained. -/
structure Beside (t u : Transfer) : Prop where
  phase : u.phase = t.phase
  batch : u.batch = t.batch
  account : u.journal.account = t.journal.account
  places : u.claim.places = t.claim.places
  handoff : u.forwarder.capacity = t.forwarder.capacity
  applier : u.applier = t.applier
  counted : u.batchesApplied = t.batchesApplied
  attached : u.attached = t.attached
  batches : u.destination.batches = t.destination.batches
  commands : u.destination.commands = t.destination.commands
  shutdown : t.shutdown = true → u.shutdown = true
  kept : t.heard = true → u.heard = true
  heard : u.heard = true → t.heard = true ∨ u.shutdown = true
  drained : t.drained = true → u.drained = true ∧ u.forwarder.ending = t.forwarder.ending

variable {threshold : Timestamp} {t u : Transfer}

theorem Beside.flushes (h : Beside t u) : u.flushes = t.flushes :=
  Journal.flushes_of_account h.account

theorem Beside.receipts (h : Beside t u) : u.receipts = t.receipts :=
  Journal.receipts_of_account h.account

theorem Beside.trans {v : Transfer} (h : Beside t u) (h' : Beside u v) : Beside t v where
  phase := h'.phase.trans h.phase
  batch := h'.batch.trans h.batch
  account := h'.account.trans h.account
  places := h'.places.trans h.places
  handoff := h'.handoff.trans h.handoff
  applier := h'.applier.trans h.applier
  counted := h'.counted.trans h.counted
  attached := h'.attached.trans h.attached
  batches := h'.batches.trans h.batches
  commands := h'.commands.trans h.commands
  shutdown := h'.shutdown ∘ h.shutdown
  kept := h'.kept ∘ h.kept
  heard hheard := by
    rcases h'.heard hheard with hbefore | hasked
    · exact (h.heard hbefore).imp_right h'.shutdown
    · exact .inr hasked
  drained hd := ⟨(h'.drained (h.drained hd).1).1,
    (h'.drained (h.drained hd).1).2.trans (h.drained hd).2⟩

theorem Beside.counted_transport {settled : List (Trigger × List Entry)} (h : Beside t u)
    (hc : t.Counted settled) : u.Counted settled :=
  hc.transport h.counted (by rw [h.applier]) (by rw [h.applier])

theorem Beside.applied_transport {settled : List (Trigger × List Entry)} (h : Beside t u)
    (ha : t.Applied settled) : u.Applied settled :=
  ha.transport h.batches h.commands h.flushes h.attached

theorem Beside.even (h : Beside t u) (he : t.Even) : u.Even where
  counted := h.flushes ▸ h.counted_transport he.counted
  applied := by
    rw [h.flushes]
    exact h.applied_transport he.applied

theorem Beside.warrant {f : Flush} (h : Beside t u) (hw : t.Warrant f) : u.Warrant f :=
  ⟨fun hf => h.shutdown (hw.asked hf), fun hf => (h.drained (hw.drained hf)).1⟩

theorem Beside.standing {phase : Phase} (h : Beside t u) (hs : t.Standing phase) :
    u.Standing phase := by
  cases hs with
  | waiting heven hroom => exact .waiting (h.even heven) (by rwa [h.batch])
  | applying hflushes hb hcounted happlied hw ha =>
    rw [← h.batch]
    exact .applying (by rw [h.flushes, hflushes, h.batch]) (by rwa [h.batch])
      (h.counted_transport hcounted) (h.applied_transport happlied) (h.warrant hw)
      (h.attached.trans ha)
  | answered hflushes hb hcounted happlied hw =>
    exact .answered (by rw [h.flushes, hflushes, h.batch]) (by rwa [h.batch])
      (h.counted_transport hcounted) (by rw [h.flushes]; exact h.applied_transport happlied)
      (h.warrant hw)
  | finished heven hb hcause =>
    refine .finished (h.even heven) (by rwa [h.batch]) ?_
    rcases hcause with hasked | ⟨hd, hend⟩
    · exact .inl (h.shutdown hasked)
    · exact .inr ⟨(h.drained hd).1, (h.drained hd).2.trans hend⟩
  | stopped heven hb hd hend hfail =>
    exact .stopped (h.even heven) (by rwa [h.batch]) (h.drained hd).1
      ((h.drained hd).2.trans hend) hfail
  | refused hflushes hb hcounted happlied hrefused =>
    exact .refused (h.flushes.trans hflushes) (by rwa [h.batch]) (h.counted_transport hcounted)
      (h.applied_transport happlied) hrefused

theorem Beside.unsent (h : Beside t u) : u.unsent = t.unsent := by
  rw [Transfer.unsent, Transfer.unsent, h.phase, h.batch]

theorem Beside.taken (h : Beside t u) (hclaim : u.claim = t.claim) : u.taken = t.taken := by
  rw [Transfer.taken, Transfer.taken, h.unsent, sent, sent, h.flushes, hclaim]

theorem Beside.isDone (h : Beside t u) : u.isDone = t.isDone := by
  rw [Transfer.isDone, Transfer.isDone, h.phase]

theorem ended_of_drained (h : t.drained = true) : t.forwarder.ending ≠ none :=
  (drained_iff.mp h).1

theorem Invariant.beside (h : t.Invariant threshold) (hb : Beside t u) (hclaim : u.claim = t.claim)
    (hreceived : u.received = t.received)
    (hfeed : u.forwarder.Sound threshold u.oplog.documents t.taken)
    (hcancelled : u.forwarder.ending = some .cancelled → t.isDone = true) :
    u.Invariant threshold where
  feed := by
    rw [hb.taken hclaim]
    exact hfeed
  room := by
    rw [hb.batch]
    exact h.room
  received := by
    rw [hreceived, hclaim, hb.taken hclaim]
    exact h.received
  heard hheard := (hb.heard hheard).elim (hb.shutdown ∘ h.heard) id
  uncancelled hc := hb.isDone.trans (hcancelled hc)
  standing := by
    rw [hb.phase]
    exact hb.standing h.standing

theorem Invariant.moments (h : t.Invariant threshold) :
    ∀ e ∈ t.taken, ∃ ts, e.timestamp = .timestamp ts := by
  intro e he
  have hmem : e ∈ Entry.forwardable threshold
      (t.oplog.documents.take t.forwarder.tail.cursor.position) := by
    rw [← h.feed.content]
    exact List.mem_append_left _ (List.mem_append_left _ he)
  exact Entry.moment_of_mem_handedOut (List.mem_of_mem_filter hmem)

theorem Invariant.batch_moments (h : t.Invariant threshold) :
    ∀ e ∈ t.batch.entries, ∃ ts, e.timestamp = .timestamp ts := by
  intro e he
  refine h.moments e ?_
  have hs := h.standing
  unfold taken
  refine List.mem_append_left _ ?_
  -- what is in the batch was sent if an answer is due for it, and else is still to be sent
  cases hp : t.phase with
  | waiting w =>
    exact List.mem_append_right _ (by simpa [unsent, hp] using he)
  | done o =>
    exact List.mem_append_right _ (by simpa [unsent, hp] using he)
  | applying f ops due =>
    rw [hp] at hs
    cases hs with
    | applying hflushes =>
      refine List.mem_append_left _ ?_
      rw [sent, hflushes]
      simp [he]
  | answered f answer =>
    rw [hp] at hs
    cases hs with
    | answered hflushes =>
      refine List.mem_append_left _ ?_
      rw [sent, hflushes]
      simp [he]

theorem beside_fill? (hstep : t.fill? = some u) : Beside t u := by
  obtain ⟨e, rest, hclaim, hqueue, rfl⟩ := fill?_eq hstep
  refine ⟨rfl, rfl, rfl, by rw [hclaim]; rfl, rfl, rfl, rfl, rfl, rfl, rfl, id, id, .inl,
    fun hd => ?_⟩
  exact absurd (drained_iff.mp hd).2.1 (by simp [hqueue])

theorem Invariant.fill? (h : t.Invariant threshold) (hstep : t.fill? = some u) :
    u.Invariant threshold := by
  have hbeside := beside_fill? hstep
  obtain ⟨e, rest, hclaim, hqueue, rfl⟩ := fill?_eq hstep
  have htaken : Transfer.taken { t with
      claim := .filled e, forwarder := { t.forwarder with queue := rest } } = t.taken ++ [e] := by
    simp [Transfer.taken, hclaim, Claim.entries, Transfer.unsent, Transfer.sent, Transfer.flushes]
  constructor
  · rw [htaken]
    exact h.feed.take hqueue
  · exact h.room
  · have hreceived := h.received
    rw [htaken, List.length_append, ← hreceived, hclaim]
    rfl
  · exact h.heard
  · exact h.uncancelled
  · exact hbeside.standing h.standing

theorem account_note_of_reading {events : List Event} (h : ∀ ev ∈ events, ev.IsOfReading) :
    (t.note events).journal.account = t.journal.account :=
  Journal.account_note_of_tellNoBatch (Event.tellNoBatch_of_reading h)

theorem Invariant.beside_forward? (h : t.Invariant threshold) (hstep : t.forward? = some u) :
    Beside t u := by
  obtain ⟨oplog, forwarder, events, hlive, hf, rfl⟩ := forward?_eq hstep
  obtain ⟨_, _, hreading⟩ := h.feed.step? hf
  have hnote : (note { t with oplog := oplog, forwarder := forwarder } events).journal.account =
      t.journal.account := account_note_of_reading hreading
  exact ⟨rfl, rfl, hnote, rfl, Forwarder.capacity_of_step? hf, rfl, rfl, rfl, rfl, rfl, id, id, .inl,
    fun hd => absurd hlive (ended_of_drained hd)⟩

theorem Invariant.forward? (h : t.Invariant threshold) (hstep : t.forward? = some u) :
    u.Invariant threshold := by
  have hbeside := h.beside_forward? hstep
  obtain ⟨oplog, forwarder, events, hlive, hf, rfl⟩ := forward?_eq hstep
  obtain ⟨hdocs, hsound, _⟩ := h.feed.step? hf
  refine h.beside hbeside rfl rfl ?_ fun hc => absurd hc (h.feed.uncancelled_of_step? hf)
  show Forwarder.Sound threshold oplog.documents t.taken forwarder
  rw [hdocs]
  exact hsound

theorem beside_hear? (hstep : t.hear? = some u) : Beside t u := by
  obtain ⟨hasked, _, rfl⟩ := hear?_eq hstep
  exact ⟨rfl, rfl, rfl, rfl, rfl, rfl, rfl, rfl, rfl, rfl, id, fun _ => rfl, fun _ => .inr hasked,
    fun hd => ⟨hd, rfl⟩⟩

theorem Invariant.hear? (h : t.Invariant threshold) (hstep : t.hear? = some u) : u.Invariant threshold := by
  have hbeside := beside_hear? hstep
  obtain ⟨_, _, rfl⟩ := hear?_eq hstep
  exact h.beside hbeside rfl rfl h.feed h.uncancelled

theorem beside_expire? (hstep : t.expire? = some u) : Beside t u := by
  obtain ⟨forwarder, hlive, hf, rfl⟩ := expire?_eq hstep
  exact ⟨rfl, rfl, rfl, rfl, Forwarder.capacity_of_expire? hf, rfl, rfl, rfl, rfl, rfl, id, id, .inl,
    fun hd => absurd hlive (ended_of_drained hd)⟩

theorem Invariant.expire? (h : t.Invariant threshold) (hstep : t.expire? = some u) :
    u.Invariant threshold := by
  have hbeside := beside_expire? hstep
  obtain ⟨forwarder, _, hf, rfl⟩ := expire?_eq hstep
  refine h.beside hbeside rfl rfl (h.feed.expire? hf) fun hcancelled => ?_
  cases (Forwarder.live_of_expire? hf).2.symm.trans hcancelled

/-- Whatever moves, it is the coordinator, or it happens beside it. -/
theorem Invariant.beside_or_coordinate (h : t.Invariant threshold) (hmoves : t.Moves u) :
    Beside t u ∨ t.coordinate? = some u := by
  cases hmoves with
  | fill hstep => exact .inl (beside_fill? hstep)
  | forward hstep => exact .inl (h.beside_forward? hstep)
  | hear hstep => exact .inl (beside_hear? hstep)
  | coordinate hstep => exact .inr hstep
  | expire hstep => exact .inl (beside_expire? hstep)

theorem not_done_of_coordinate? (h : t.coordinate? = some u) : t.isDone = false := by
  cases coordinates_of_coordinate? h with
  | goes hphase => simp [isDone, hphase]
  | receives hphase => simp [isDone, hphase]
  | hears hphase => simp [isDone, hphase]
  | settles hphase => simp [isDone, hphase]

theorem Invariant.coordinate?_advances (h : t.Invariant threshold)
    (hstep : t.coordinate? = some u) : t.Advances u := by
  have hnot := not_done_of_coordinate? hstep
  refine (coordinates_of_coordinate? hstep).advances h.standing h.heard ?_ h.room h.batch_moments
  intro hc
  exact absurd (hnot.symm.trans (h.uncancelled hc)) (by decide)

theorem Invariant.room_of_waiting {watching : Bool} (h : t.Invariant threshold)
    (hphase : t.phase = .waiting watching) : t.batch.size < t.batch.capacity := by
  cases h.standing_at hphase with
  | waiting _ hroom => exact hroom

theorem Invariant.batch_of_answered {f : Flush} {answer : Answer} (h : t.Invariant threshold)
    (hphase : t.phase = .answered f answer) : t.batch.entries ≠ [] := by
  cases h.standing_at hphase with
  | answered _ hb => exact hb

theorem Invariant.coordinate? (h : t.Invariant threshold) (hstep : t.coordinate? = some u) :
    u.Invariant threshold := by
  have hadvances := h.coordinate?_advances hstep
  have hnot := not_done_of_coordinate? hstep
  constructor
  · rw [hadvances.forwarder, hadvances.oplog, hadvances.taken]
    exact h.feed
  · rw [hadvances.capacity]
    exact h.room
  · rw [hadvances.received, hadvances.taken]
    exact h.received
  · intro hheard
    rw [hadvances.shutdown]
    exact ((listens_of_coordinate? hstep).asked hheard).elim h.heard id
  · rw [hadvances.forwarder]
    intro hc
    exact absurd (hnot.symm.trans (h.uncancelled hc)) (by decide)
  · exact hadvances.standing

theorem Invariant.moves (h : t.Invariant threshold) (hstep : t.Moves u) :
    u.Invariant threshold := by
  cases hstep with
  | fill hstep => exact h.fill? hstep
  | forward hstep => exact h.forward? hstep
  | hear hstep => exact h.hear? hstep
  | coordinate hstep => exact h.coordinate? hstep
  | expire hstep => exact h.expire? hstep

theorem Invariant.asked_of_moves (h : t.Invariant threshold) (hmoves : t.Moves u)
    (hasked : t.shutdown = true) : u.shutdown = true := by
  rcases h.beside_or_coordinate hmoves with hbeside | hcoordinate
  · exact hbeside.shutdown hasked
  · rw [(h.coordinate?_advances hcoordinate).shutdown]
    exact hasked

end Transfer

namespace World

/-- Surroundings that differ in nothing that a ledger tells of. Requests stay made. -/
structure Similar (w v : World) : Prop where
  documents : v.oplog.documents = w.oplog.documents
  account : v.journal.account = w.journal.account
  attached : v.attached = w.attached
  batches : v.destination.batches = w.destination.batches
  commands : v.destination.commands = w.destination.commands
  shutdown : w.shutdown = true → v.shutdown = true

theorem similar_note {w : World} {events : List Event} (h : Event.TellNoBatch events) :
    w.Similar (w.note events) :=
  ⟨rfl, Journal.account_note_of_tellNoBatch h, rfl, rfl, rfl, id⟩

structure Quiet (w : World) : Prop where
  commands : w.destination.commands = []
  batches : w.destination.batches = []
  account : w.journal.account = []

theorem Quiet.similar {w v : World} (h : w.Quiet) (hv : w.Similar v) : v.Quiet :=
  ⟨hv.commands.trans h.commands, hv.batches.trans h.batches, hv.account.trans h.account⟩

theorem Quiet.flushes {w : World} (h : w.Quiet) : w.journal.flushes = [] :=
  Journal.flushes_of_account (j := []) h.account

theorem Quiet.receipts {w : World} (h : w.Quiet) : w.journal.receipts = [] :=
  Journal.receipts_of_account (j := []) h.account

/-- Nothing was sent yet, and nothing is told but of documents that were put into the log. -/
structure IsNew (w : World) : Prop where
  commands : w.destination.commands = []
  batches : w.destination.batches = []
  journal : ∀ p ∈ w.journal, ∃ count, p.2 = .appended count

theorem IsNew.quiet {w : World} (h : w.IsNew) : w.Quiet where
  commands := h.commands
  batches := h.batches
  account := by
    apply List.filter_eq_nil_iff.mpr
    intro p hp
    obtain ⟨count, hcount⟩ := h.journal p hp
    simp [hcount, Event.isOfBatch]

end World

namespace Transfer

variable {threshold : Timestamp} {t : Transfer}

theorem invariant_start {w : World} {capacity : Nat} (threshold : Timestamp) (ns : Namespace)
    (idle : Quantity) (now : Nat) (interval : Span) (hquiet : w.Quiet) (hcap : 0 < capacity) :
    (Transfer.start w (.start ns threshold idle now) capacity interval).Invariant threshold := by
  have hflushes : (Transfer.start w (.start ns threshold idle now) capacity interval).flushes =
      [] := hquiet.flushes
  have htaken : (Transfer.start w (.start ns threshold idle now) capacity interval).taken = [] := by
    rw [taken, sent, hflushes]
    rfl
  constructor
  · rw [htaken]
    exact Forwarder.sound_start _ 1 rfl rfl rfl rfl rfl rfl
  · exact hcap
  · rw [htaken]
    rfl
  · exact id
  · intro hc
    cases hc
  · refine .waiting ⟨?_, ?_⟩ hcap
    · rw [hflushes]
      exact ⟨rfl, rfl, rfl⟩
    · rw [hflushes]
      refine ⟨hquiet.batches, ?_, fun _ => rfl⟩
      rw [hflushes]
      exact hquiet.commands.trans (by simp)

theorem beside_onWorld {f : World → World} (hsimilar : t.toWorld.Similar (f t.toWorld)) :
    Beside t (t.onWorld f) :=
  ⟨rfl, rfl, hsimilar.account, rfl, rfl, rfl, rfl, hsimilar.attached, hsimilar.batches,
    hsimilar.commands, hsimilar.shutdown, id, .inl, fun hd => ⟨hd, rfl⟩⟩

theorem Invariant.onWorld {f : World → World} (h : t.Invariant threshold)
    (hsimilar : t.toWorld.Similar (f t.toWorld)) : (t.onWorld f).Invariant threshold := by
  refine h.beside (beside_onWorld hsimilar) rfl rfl ?_ h.uncancelled
  show Forwarder.Sound threshold (f t.toWorld).oplog.documents t.taken t.forwarder
  rw [hsimilar.documents]
  exact h.feed

theorem beside_append (t : Transfer) (docs : List Document) : Beside t (t.append docs) := by
  have hnote : (t.append docs).journal.account = t.journal.account :=
    Journal.account_note_of_tellNoBatch (List.forall_mem_singleton.mpr rfl)
  exact ⟨rfl, rfl, hnote, rfl, rfl, rfl, rfl, rfl, rfl, rfl, id, id, .inl, fun hd => ⟨hd, rfl⟩⟩

theorem Invariant.append (h : t.Invariant threshold) (docs : List Document) :
    (t.append docs).Invariant threshold :=
  h.beside (beside_append t docs) rfl rfl (h.feed.append docs) h.uncancelled

theorem cancel_of_ended {f : Forwarder} (h : f.ending ≠ none) : f.cancel = f := by
  rw [Forwarder.cancel, if_pos (f.finished_iff.mpr h)]

theorem beside_cancel (t : Transfer) : Beside t { t with forwarder := t.forwarder.cancel } := by
  refine ⟨rfl, rfl, rfl, rfl, t.forwarder.capacity_cancel, rfl, rfl, rfl, rfl, rfl, id, id, .inl,
    fun hd => ?_⟩
  rw [cancel_of_ended (ended_of_drained hd)]
  exact ⟨hd, rfl⟩

theorem Invariant.cancel (h : t.Invariant threshold) (hdone : t.isDone = true) :
    Invariant threshold { t with forwarder := t.forwarder.cancel } :=
  h.beside (beside_cancel t) rfl rfl h.feed.cancel fun _ => hdone

/-- The forwarder reads no further, over a log that may grow. -/
structure Rests (t u : Transfer) : Prop where
  ending : u.forwarder.ending = t.forwarder.ending
  position : u.forwarder.tail.cursor.position = t.forwarder.tail.cursor.position
  grown : t.oplog.documents <+: u.oplog.documents

theorem Rests.refl (t : Transfer) : Rests t t := ⟨rfl, rfl, List.prefix_refl _⟩

theorem Rests.trans {u v : Transfer} (h : Rests t u) (h' : Rests u v) : Rests t v :=
  ⟨h'.ending.trans h.ending, h'.position.trans h.position, h.grown.trans h'.grown⟩

theorem rests_append (t : Transfer) (docs : List Document) : t.Rests (t.append docs) := by
  refine ⟨rfl, ?_, List.prefix_append _ _⟩
  show t.forwarder.tail.wake.cursor.position = _
  rw [Tail.wake_cursor]

theorem rests_onWorld {f : World → World} (hsimilar : t.toWorld.Similar (f t.toWorld)) :
    t.Rests (t.onWorld f) := by
  refine ⟨rfl, rfl, ?_⟩
  show t.oplog.documents <+: (f t.toWorld).oplog.documents
  exact hsimilar.documents ▸ List.prefix_refl _

theorem rests_cancel (h : t.forwarder.ending ≠ none) :
    t.Rests { t with forwarder := t.forwarder.cancel } := by
  rw [cancel_of_ended h]
  exact .refl t

/-- Only the forwarder's own work, and the end of its wait, take it any further. -/
theorem Invariant.moves_cases {u : Transfer} (h : t.Invariant threshold) (hmoves : t.Moves u) :
    t.Rests u ∨ t.forward? = some u ∨ t.expire? = some u := by
  cases hmoves with
  | fill hstep =>
    obtain ⟨e, rest, _, _, rfl⟩ := fill?_eq hstep
    exact .inl ⟨rfl, rfl, List.prefix_refl _⟩
  | forward hstep => exact .inr (.inl hstep)
  | hear hstep =>
    obtain ⟨_, _, rfl⟩ := hear?_eq hstep
    exact .inl ⟨rfl, rfl, List.prefix_refl _⟩
  | coordinate hstep =>
    have hadvances := h.coordinate?_advances hstep
    exact .inl ⟨by rw [hadvances.forwarder], by rw [hadvances.forwarder],
      hadvances.oplog ▸ List.prefix_refl _⟩
  | expire hstep => exact .inr (.inr hstep)

end Transfer

end OplogRelay
