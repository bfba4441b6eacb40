import OplogRelay.Proofs.Transfer.Moves
/-!
What a round can come to, told once: the coordinator waits again, comes to its end with nothing left
in its batch, or sends the batch. The bounds of batches and the law of requests to shut down are both
read off these cases.
-/
namespace OplogRelay

def Trigger.isFinal : Trigger → Bool
  | .shutdown | .endOfStream => true
  | .size | .timer => false

/-- A batch that was sent for its size is a full one, and any other is not. -/
structure Sized (capacity : Nat) (b : Trigger × List Entry) : Prop where
  nonempty : 0 < b.2.length
  full : b.1 = .size → b.2.length = capacity
  short : b.1 ≠ .size → b.2.length < capacity

theorem Sized.le {capacity : Nat} {b : Trigger × List Entry} (h : Sized capacity b) :
    b.2.length ≤ capacity := by
  by_cases hsize : b.1 = .size
  · exact Nat.le_of_eq (h.full hsize)
  · exact Nat.le_of_lt (h.short hsize)

namespace Transfer

def Flush.isLast (f : Flush) : Bool :=
  match f.trigger with
  | .size => f.shutdownSeen
  | .timer => false
  | .shutdown | .endOfStream => true

theorem Flush.isLast_of_isFinal {f : Flush} (h : f.trigger.isFinal = true) : f.isLast = true := by
  obtain ⟨trigger, shutdownSeen⟩ := f
  cases trigger with
  | size => cases h
  | timer => cases h
  | shutdown => rfl
  | endOfStream => rfl

/-- What a round comes to that has a batch to go on with. -/
inductive Rounds (t : Transfer) (seen : Bool) (u : Transfer) : Prop where
  | waits {watching} : seen = false → t.batch.size < t.batch.capacity → t.Alike u →
      u.phase = .waiting watching → Rounds t seen u
  | ends {outcome} : t.batch.entries = [] → t.Alike u → u.phase = .done outcome → Rounds t seen u
  | sends {f} : Sized t.batch.capacity (f.trigger, t.batch.entries) →
      (f.trigger = .size → t.claim = .none) → (seen = true → f.isLast = true) → t.Sends f u →
      Rounds t seen u

variable {t u v : Transfer} {f : Flush} {seen : Bool}

theorem Alike.sends (h : t.Alike v) (hclaim : v.claim = t.claim) (hs : v.Sends f u) :
    t.Sends f u where
  now := hs.now.trans h.now
  forwarder := hs.forwarder.trans h.forwarder
  oplog := hs.oplog.trans h.oplog
  attached := hs.attached.trans h.attached
  shutdown := hs.shutdown.trans h.shutdown
  capacity := hs.capacity.trans h.capacity
  batch := hs.batch.trans h.batch
  claim := hs.claim.trans hclaim
  received := hs.received.trans h.received
  counted := hs.counted.trans h.counted
  total := by
    rw [hs.total, h.applier]
  last := by
    rw [hs.last, h.applier]
  flushes := by
    rw [hs.flushes, h.flushes, h.batch]
  batches := by
    rw [hs.batches, h.destination]
  commands := by
    rw [hs.commands, h.destination, h.attached, h.batch]
  phase := by
    rw [← h.batch, ← h.attached]
    exact hs.phase
  served hserves := hs.served (h.serves hserves)

theorem Sends.phase_cases (h : t.Sends f u) :
    (∃ answer, u.phase = .answered f answer) ∨ ∃ ops due, u.phase = .applying f ops due := by
  rcases h.phase with ⟨answer, hphase, _⟩ | ⟨_, due, hphase⟩
  · exact .inl ⟨answer, hphase⟩
  · exact .inr ⟨_, due, hphase⟩

theorem conclude_ends (t : Transfer) :
    t.Alike t.conclude ∧ ∃ outcome, t.conclude.phase = .done outcome := by
  have htold : t.Alike (t.note [.sourceExhausted]) := alike_note rfl
  unfold conclude
  split
  · exact ⟨alike_finish _, _, rfl⟩
  · exact ⟨alike_finish _, _, rfl⟩
  · exact ⟨alike_finish _, _, rfl⟩
  · exact ⟨htold.trans (alike_finish _), _, rfl⟩
  · exact ⟨htold.trans (alike_finish _), _, rfl⟩

theorem rounds_flush (hroom : t.batch.size < t.batch.capacity) (hb : t.batch.entries ≠ [])
    (hsize : f.trigger ≠ .size) (hseen : seen = true → f.isLast = true) (halike : t.Alike v)
    (hclaim : v.claim = t.claim) : t.Rounds seen (v.flush f) := by
  have hsends : v.Sends f (v.flush f) := by
    apply flush_sends
    rw [halike.batch]
    exact hb
  have hsized : Sized t.batch.capacity (f.trigger, t.batch.entries) :=
    ⟨List.length_pos_of_ne_nil hb, fun h => absurd h hsize, fun _ => hroom⟩
  exact .sends hsized (fun h => absurd h hsize) hseen (halike.sends hclaim hsends)

theorem rounds_proceed (seen : Bool) (hroom : t.batch.size < t.batch.capacity) :
    t.Rounds seen (t.proceed seen) := by
  have hproceeds := t.proceeds seen
  generalize t.proceed seen = u at hproceeds
  have hsame : t.Alike t := ⟨⟨rfl, rfl, rfl, rfl, rfl, rfl⟩, rfl, rfl, rfl, rfl, rfl, rfl, rfl⟩
  cases hproceeds with
  | stops hb => exact .ends hb ((alike_note rfl).trans (alike_finish _)) rfl
  | closes hb => exact rounds_flush hroom hb (by simp) (fun _ => rfl) (alike_note rfl) rfl
  | concludes _ hb =>
    obtain ⟨halike, outcome, hphase⟩ := t.conclude_ends
    exact .ends hb halike hphase
  | drains _ hb => exact rounds_flush hroom hb (by simp) (fun _ => rfl) hsame rfl
  | ticks => exact .waits rfl hroom ((t.alike_reset.trans (alike_note rfl)).trans alike_beginRound) rfl
  | sends _ _ hb => exact rounds_flush hroom hb (by simp) (by simp) t.alike_reset rfl
  | waits => exact .waits rfl hroom alike_beginRound rfl

theorem rounds_receive (e : Entry) (seen : Bool) (hroom : t.batch.size < t.batch.capacity) :
    (t.join e).Rounds seen (t.receive e seen) := by
  have hsize : (t.join e).batch.size = t.batch.size + 1 := by simp [join, Batch.size]
  rw [receive_eq seen hroom]
  by_cases hfull : (t.join e).batch.isFull = true
  · have hb : (t.join e).batch.entries ≠ [] := by simp [join]
    have hcap : (t.join e).batch.capacity = t.batch.capacity := rfl
    have hlast : (t.join e).batch.entries.length = (t.join e).batch.capacity := by
      have hle := Batch.isFull_iff.mp hfull
      change (t.join e).batch.size = _
      omega
    have hsends := flush_sends { trigger := .size, shutdownSeen := seen } hb
    rw [if_pos hfull]
    refine .sends ?_ (fun _ => rfl) ?_ hsends
    · exact ⟨List.length_pos_of_ne_nil hb, fun _ => hlast, fun h => absurd rfl h⟩
    · intro h
      exact h
  · rw [if_neg hfull]
    exact rounds_proceed seen (Nat.lt_of_not_le fun h => hfull (Batch.isFull_iff.mpr h))

/-- What a step of the coordinator is: it goes on without an entry or with one, hears from the
destination, or settles what it has heard. -/
inductive Acts (t u : Transfer) : Prop where
  | waited {watching} : t.phase = .waiting watching → t.claim.entries = [] →
      t.Rounds t.heard u → Acts t u
  | received {watching e} : t.phase = .waiting watching → t.claim = .filled e →
      (t.join e).Rounds t.heard u → Acts t u
  | heard {f answer due} : t.phase = .applying f (.ofBatch t.batch.entries) due →
      answer = .ofReply (t.toWorld.complete (.ofBatch t.batch.entries)).1 →
      u = { t with
        toWorld := (t.toWorld.complete (.ofBatch t.batch.entries)).2
        phase := .answered f answer } → Acts t u
  | refused {f answer} : t.phase = .answered f answer → answer.isAccepted = false →
      t.Refuses answer u → Acts t u
  | counted {f answer last moment} : t.phase = .answered f answer → answer.isAccepted = true →
      t.batch.entries.getLast? = some last → (t.count last moment).Alike u →
      (f.isLast = false ∧ (∃ watching, u.phase = .waiting watching) ∨
        ∃ outcome, u.phase = .done outcome) → Acts t u

theorem resume_ends (hb : t.batch.entries = []) (hcap : 0 < t.batch.capacity) :
    t.Alike (t.resume f) ∧ (f.isLast = false ∧ (∃ watching, (t.resume f).phase = .waiting watching) ∨
      ∃ outcome, (t.resume f).phase = .done outcome) := by
  obtain ⟨trigger, shutdownSeen⟩ := f
  cases trigger with
  | size =>
    have hroom : t.batch.size < t.batch.capacity := by
      rw [size_eq_zero.mpr hb]
      exact hcap
    cases rounds_proceed shutdownSeen hroom with
    | waits hseen _ halike hphase => exact ⟨halike, .inl ⟨hseen, _, hphase⟩⟩
    | ends _ halike hphase => exact ⟨halike, .inr ⟨_, hphase⟩⟩
    | sends hsized =>
      have hpos := hsized.nonempty
      simp [hb] at hpos
  | timer => exact ⟨alike_beginRound, .inl ⟨rfl, _, rfl⟩⟩
  | shutdown => exact ⟨alike_finish _, .inr ⟨_, rfl⟩⟩
  | endOfStream => exact ⟨t.conclude_ends.1, .inr t.conclude_ends.2⟩

variable {threshold : Timestamp}

theorem Invariant.acts_of_answered {answer : Answer} (h : t.Invariant threshold)
    (hphase : t.phase = .answered f answer) : t.Acts (t.settle f answer) := by
  have hb := h.batch_of_answered hphase
  by_cases haccepted : answer.isAccepted = true
  · obtain ⟨last, moment, hlast, hsettle⟩ := settle_accepts f hb h.batch_moments haccepted
    obtain ⟨halike, hphase'⟩ := resume_ends (t := t.count last moment) (f := f) rfl h.room
    rw [hsettle]
    exact .counted hphase haccepted hlast halike hphase'
  · have hrefused : answer.isAccepted = false := by simpa using haccepted
    exact .refused hphase hrefused (settle_refuses f hb hrefused)

theorem Invariant.acts (h : t.Invariant threshold) (hstep : t.coordinate? = some u) : t.Acts u := by
  cases coordinates_of_coordinate? hstep with
  | goes hphase _ hclaim =>
    exact .waited hphase hclaim (rounds_proceed t.heard (h.room_of_waiting hphase))
  | receives hphase hclaim =>
    exact .received hphase hclaim (rounds_receive _ t.heard (h.room_of_waiting hphase))
  | hears hphase =>
    cases h.standing_at hphase with
    | applying => exact .heard hphase rfl rfl
  | settles hphase => exact h.acts_of_answered hphase

end Transfer

end OplogRelay
