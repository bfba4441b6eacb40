import OplogRelay.Proofs.Transfer.Rounds
/-!
Batches in order: each is as large as its reason says, one at most is sent because the transfer
comes to its end, and together they hold what was received. How much can be on its way at once is
counted in places, of which an open claim keeps one before its entry has come.
-/
namespace OplogRelay

theorem World.journal_send (w : World) (c : Command) : (w.send c).2.journal = w.journal := by
  unfold send
  split <;> rfl

theorem Destination.applied_complete (d : Destination) (ops : Value) :
    d.appliedEntries.length ≤ (d.complete ops).2.appliedEntries.length := by
  unfold complete
  split
  · exact Nat.le_refl _
  · split <;> simp [appliedEntries]

namespace Transfer

theorem Claim.entries_le (c : Claim) : c.entries.length ≤ c.places := by
  cases c with
  | none => exact Nat.le_refl 0
  | outstanding => exact Nat.zero_le 1
  | filled e => exact Nat.le_refl 1

theorem Claim.places_le (c : Claim) : c.places ≤ 1 := by
  cases c with
  | none => exact Nat.zero_le 1
  | outstanding => exact Nat.le_refl 1
  | filled e => exact Nat.le_refl 1

variable {t u : Transfer} {f : Flush} {seen : Bool} {threshold : Timestamp}

/-- The entries that the coordinator has received or claimed, told from the journal. -/
def pulled (t : Transfer) : List Entry := t.receipts ++ t.claim.entries

theorem pulled_note (t : Transfer) (events : List Event)
    (h : events.filterMap Event.receipt? = []) : (t.note events).pulled = t.pulled := by
  have hreceipts : (t.note events).receipts = t.receipts := by
    show (t.journal.note t.now events).receipts = t.journal.receipts
    rw [Journal.receipts_note, h, List.append_nil]
  rw [pulled, hreceipts]
  rfl

theorem pulled_beginRound (t : Transfer) : t.beginRound.pulled = t.pulled := by
  unfold beginRound pulled
  cases hclaim : t.claim <;> rfl

theorem pulled_flush (t : Transfer) (f : Flush) : (t.flush f).pulled = t.pulled := by
  unfold flush
  split
  · rfl
  · next applier _ =>
    have htold := pulled_note { t with applier := applier } [.flushed f.trigger t.batch.entries] rfl
    simp only [pulled, receipts, World.journal_send]
    exact htold

theorem pulled_conclude (t : Transfer) : t.conclude.pulled = t.pulled := by
  unfold conclude
  split
  · rfl
  · rfl
  · rfl
  · exact t.pulled_note [.sourceExhausted] rfl
  · exact t.pulled_note [.sourceExhausted] rfl

theorem pulled_proceed (t : Transfer) (seen : Bool) : (t.proceed seen).pulled = t.pulled := by
  have hproceeds := t.proceeds seen
  generalize t.proceed seen = u at hproceeds
  cases hproceeds with
  | stops => exact t.pulled_note [.shutdownSeen] rfl
  | closes => exact (pulled_flush _ _).trans (t.pulled_note [.shutdownSeen] rfl)
  | concludes => exact t.pulled_conclude
  | drains => exact t.pulled_flush _
  | ticks => exact (pulled_beginRound _).trans (t.reset.pulled_note [.tickWithoutBatch] rfl)
  | sends => exact t.reset.pulled_flush _
  | waits => exact t.pulled_beginRound

theorem pulled_join {e : Entry} (hclaim : t.claim = .filled e) : (t.join e).pulled = t.pulled := by
  show (t.journal.note t.now [.received e]).receipts ++ [] = t.receipts ++ t.claim.entries
  rw [Journal.receipts_note, hclaim, List.append_nil]
  rfl

theorem pulled_receive {e : Entry} (seen : Bool) (hclaim : t.claim = .filled e)
    (hroom : t.batch.size < t.batch.capacity) : (t.receive e seen).pulled = t.pulled := by
  rw [receive_eq seen hroom, ← pulled_join hclaim]
  split
  · exact pulled_flush _ _
  · exact pulled_proceed _ _

theorem pulled_settle (t : Transfer) (f : Flush) (answer : Answer) :
    (t.settle f answer).pulled = t.pulled := by
  have htold (a : Applier) (v : Verdict) : pulled ({ t with
      applier := a, batch := t.batch.clear }.note [a.event t.batch.entries v]) = t.pulled := by
    rw [pulled_note _ _ (by cases v <;> rfl)]
    rfl
  unfold settle
  dsimp only
  split
  · rfl
  · split
    · exact htold _ _
    · have hcounted (a : Applier) (v : Verdict) : pulled { ({ t with
          applier := a, batch := t.batch.clear }.note [a.event t.batch.entries v]) with
            batchesApplied := t.batchesApplied + 1 } = t.pulled := htold a v
      split
      · rw [pulled_proceed, hcounted]
      · rw [pulled_beginRound, hcounted]
      · exact hcounted _ _
      · rw [pulled_conclude, hcounted]

theorem Invariant.pulled (h : t.Invariant threshold) (hstep : t.coordinate? = some u) :
    u.pulled = t.pulled := by
  cases coordinates_of_coordinate? hstep with
  | goes => exact t.pulled_proceed _
  | receives hphase hclaim => exact pulled_receive _ hclaim (h.room_of_waiting hphase)
  | hears => rfl
  | settles => exact t.pulled_settle _ _

/-- All that was received was sent, or is in a batch that is still to be sent. -/
theorem Invariant.receipts_eq (h : t.Invariant threshold) (hstep : t.coordinate? = some u)
    (hreceipts : t.receipts = t.sent ++ t.unsent) : u.receipts = u.sent ++ u.unsent := by
  have htaken := (h.coordinate?_advances hstep).taken
  have hpulled := h.pulled hstep
  have hsame : u.receipts ++ u.claim.entries = (u.sent ++ u.unsent) ++ u.claim.entries := by
    calc u.receipts ++ u.claim.entries
        = t.receipts ++ t.claim.entries := hpulled
      _ = t.taken := by rw [hreceipts, Transfer.taken]
      _ = u.taken := htaken.symm
  exact List.append_cancel_right hsame

def Phase.finals : Phase → Nat
  | .waiting _ => 0
  | .applying f _ _ | .answered f _ => if f.trigger.isFinal then 1 else 0
  | .done _ => 1

def finals (t : Transfer) : Nat := t.flushes.countP fun b => b.1.isFinal

/-- A batch takes no more places than it has, the place of the claim included. -/
structure Bounded (t : Transfer) : Prop where
  sized : ∀ b ∈ t.flushes, Sized t.batch.capacity b
  finals : t.finals ≤ t.phase.finals
  places : t.sent.length + t.unsent.length + t.claim.places ≤
    t.destination.appliedEntries.length + t.batch.capacity

theorem Even.applied_length (h : t.Even) : t.destination.appliedEntries.length = t.sent.length := by
  rw [h.entries, Entry.values, List.length_map]

theorem unsent_le (t : Transfer) : t.unsent.length ≤ t.batch.size := by
  unfold unsent
  split
  · exact Nat.zero_le _
  · exact Nat.zero_le _
  · exact Nat.le_refl _

theorem Even.bounded (he : t.Even) (hroom : t.batch.size < t.batch.capacity)
    (hsized : ∀ b ∈ t.flushes, Sized t.batch.capacity b) (hfinals : t.finals ≤ t.phase.finals) :
    t.Bounded where
  sized := hsized
  finals := hfinals
  places := by
    have happlied := he.applied_length
    have hunsent := t.unsent_le
    have hplaces := t.claim.places_le
    omega

theorem Sends.bounded (h : t.Sends f u) (he : t.Even)
    (hsize : Sized t.batch.capacity (f.trigger, t.batch.entries))
    (hclaim : f.trigger = .size → t.claim = .none)
    (hsized : ∀ b ∈ t.flushes, Sized t.batch.capacity b) (hnone : t.finals = 0) : u.Bounded := by
  have hsent : u.sent.length = t.sent.length + t.batch.entries.length := by
    simp [sent, h.flushes]
  have happlied : u.destination.appliedEntries.length = t.sent.length := by
    rw [Destination.appliedEntries, h.batches]
    exact he.applied_length
  have hunsent : u.unsent = [] := by
    rcases h.phase_cases with ⟨answer, hphase⟩ | ⟨ops, due, hphase⟩
    · simp [unsent, hphase]
    · simp [unsent, hphase]
  have hfinals : u.phase.finals = if f.trigger.isFinal then 1 else 0 := by
    rcases h.phase_cases with ⟨answer, hphase⟩ | ⟨ops, due, hphase⟩
    · rw [hphase]
      rfl
    · rw [hphase]
      rfl
  constructor
  · rw [h.flushes, h.capacity]
    intro b hb
    rcases List.mem_append.mp hb with hb | hb
    · exact hsized b hb
    · rw [List.mem_singleton.mp hb]
      exact hsize
  · change t.flushes.countP _ = 0 at hnone
    rw [Transfer.finals, h.flushes, List.countP_append, hnone, hfinals]
    simp
  · rw [hsent, hunsent, happlied, h.capacity, h.claim, List.length_nil]
    by_cases hfull : f.trigger = .size
    · have hlen : t.batch.entries.length = t.batch.capacity := hsize.full hfull
      have hplaces : t.claim.places = 0 := by
        rw [hclaim hfull]
        rfl
      omega
    · have hlen : t.batch.entries.length < t.batch.capacity := hsize.short hfull
      have hplaces := t.claim.places_le
      omega

theorem Rounds.bounded (h : t.Rounds seen u) (he : t.Even) (hcap : 0 < t.batch.capacity)
    (hsized : ∀ b ∈ t.flushes, Sized t.batch.capacity b) (hnone : t.finals = 0) : u.Bounded := by
  have hkept (halike : t.Alike u) (hroom : t.batch.size < t.batch.capacity) : u.Bounded := by
    refine (halike.even he).bounded ?_ ?_ ?_
    · rw [halike.batch]
      exact hroom
    · rw [halike.flushes, halike.batch]
      exact hsized
    · rw [Transfer.finals, halike.flushes]
      exact Nat.le_trans (Nat.le_of_eq hnone) (Nat.zero_le _)
  cases h with
  | waits _ hroom halike _ => exact hkept halike hroom
  | ends hb halike _ =>
    apply hkept halike
    rw [size_eq_zero.mpr hb]
    exact hcap
  | sends hsize hclaim _ hsends => exact hsends.bounded he hsize hclaim hsized hnone

theorem Bounded.beside (h : t.Bounded) (hb : t.Beside u) : u.Bounded where
  sized := by
    rw [hb.flushes, hb.batch]
    exact h.sized
  finals := by
    rw [Transfer.finals, hb.flushes, hb.phase]
    exact h.finals
  places := by
    rw [sent, hb.flushes, hb.unsent, hb.places, Destination.appliedEntries, hb.batches, hb.batch]
    exact h.places

theorem Invariant.bounded_of_acts (h : t.Invariant threshold) (hb : t.Bounded) (hacts : t.Acts u) :
    u.Bounded := by
  have hs := h.standing
  have hfinals := hb.finals
  cases hacts with
  | waited hphase _ hrounds =>
    rw [hphase] at hs hfinals
    cases hs with
    | waiting heven => exact hrounds.bounded heven h.room hb.sized (Nat.le_zero.mp hfinals)
  | @received _ e hphase _ hrounds =>
    rw [hphase] at hs hfinals
    cases hs with
    | waiting heven =>
      have hflushes := t.flushes_join e
      refine hrounds.bounded (even_join heven e) h.room ?_ ?_
      · rw [hflushes]
        exact hb.sized
      · rw [Transfer.finals, hflushes]
        exact Nat.le_zero.mp hfinals
  | @heard f answer due hphase _ hu =>
    subst hu
    rw [hphase] at hfinals
    refine ⟨hb.sized, hfinals, ?_⟩
    have hplaces := hb.places
    have hmore := t.destination.applied_complete (.ofBatch t.batch.entries)
    have hunsent : t.unsent = [] := by simp [unsent, hphase]
    rw [hunsent, List.length_nil] at hplaces
    exact Nat.le_trans hplaces (Nat.add_le_add_right hmore _)
  | @refused f answer hphase _ hrefuses =>
    have hunsent : u.unsent = [] := by simp [unsent, hrefuses.phase, hrefuses.batch]
    have hplaces := hb.places
    constructor
    · rw [hrefuses.flushes, hrefuses.capacity]
      exact hb.sized
    · rw [Transfer.finals, hrefuses.flushes, hrefuses.phase]
      rw [hphase] at hfinals
      refine Nat.le_trans hfinals ?_
      simp only [Phase.finals]
      split <;> omega
    · rw [sent, hrefuses.flushes, hunsent, hrefuses.claim, hrefuses.destination, hrefuses.capacity]
      simp only [List.length_nil]
      change t.sent.length + 0 + _ ≤ _
      omega
  | @counted f answer last moment hphase haccepted hlast halike hend =>
    rw [hphase] at hs
    have hsame : (t.count last moment).flushes = t.flushes :=
      (flushes_note _ [.applied _ _ _]).trans (List.append_nil _)
    refine (halike.even (even_count moment hs haccepted hlast)).bounded ?_ ?_ ?_
    · rw [halike.batch]
      exact h.room
    · rw [halike.flushes, hsame, halike.batch]
      exact hb.sized
    · rw [Transfer.finals, halike.flushes, hsame]
      rw [hphase] at hfinals
      rcases hend with ⟨hgoes, watching, hwaits⟩ | ⟨outcome, hdone⟩
      -- a batch after which the coordinator waits was no final one
      · have hnot : f.trigger.isFinal = false := by
          by_contra hfinal
          have hlast := Flush.isLast_of_isFinal (by simpa using hfinal)
          exact absurd (hgoes.symm.trans hlast) (by decide)
        simp only [Phase.finals, hnot] at hfinals
        rw [hwaits]
        exact hfinals
      · rw [hdone]
        refine Nat.le_trans hfinals ?_
        simp only [Phase.finals]
        split <;> omega

/-- What is kept beside the invariant of a transfer: the bounds, and where all is that was
received. The queue of the forwarder has room for one entry. -/
structure Orderly (t : Transfer) : Prop extends Bounded t where
  receipts : t.receipts = t.sent ++ t.unsent
  handoff : t.forwarder.capacity = 1

theorem Orderly.beside (h : t.Orderly) (hb : t.Beside u) : u.Orderly where
  toBounded := h.toBounded.beside hb
  receipts := by
    rw [hb.receipts, h.receipts, sent, sent, hb.flushes, hb.unsent]
  handoff := hb.handoff.trans h.handoff

theorem Invariant.orderly_of_coordinate? (h : t.Invariant threshold) (ho : t.Orderly)
    (hstep : t.coordinate? = some u) : u.Orderly where
  toBounded := h.bounded_of_acts ho.toBounded (h.acts hstep)
  receipts := h.receipts_eq hstep ho.receipts
  handoff := by
    rw [(h.coordinate?_advances hstep).forwarder]
    exact ho.handoff

theorem orderly_start {w : World} {capacity : Nat} (tail : Tail) (interval : Span)
    (hquiet : w.Quiet) (hcap : 0 < capacity) :
    (Transfer.start w tail capacity interval).Orderly := by
  have hflushes : (Transfer.start w tail capacity interval).flushes = [] := hquiet.flushes
  refine ⟨⟨?_, ?_, ?_⟩, ?_, rfl⟩
  · rw [hflushes]
    intro b hb
    cases hb
  · rw [finals, hflushes]
    exact Nat.le_refl 0
  · rw [sent, hflushes]
    show 0 + 0 + 1 ≤ w.destination.appliedEntries.length + capacity
    omega
  · rw [sent, hflushes]
    exact hquiet.receipts

theorem Invariant.received_eq (h : t.Invariant threshold) (ho : t.Orderly) :
    t.received = t.receipts.length := by
  have hreceived := h.received
  rw [taken, List.length_append, ← ho.receipts] at hreceived
  omega

end Transfer

end OplogRelay
