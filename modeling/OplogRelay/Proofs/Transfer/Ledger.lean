import OplogRelay.Proofs.Source.Forwarding
import OplogRelay.Transfer.Step
/-!
The ledger of a transfer: which batches were sent, which of them were applied and counted, and where
the entries are that are on their way. Batches are told from the journal, so that they can be
compared with what the destination recorded and with what the counters say.
-/
namespace OplogRelay

namespace Event

def flush? : Event → Option (Trigger × List Entry)
  | .flushed trigger batch => some (trigger, batch)
  | _ => none

def receipt? : Event → Option Entry
  | .received entry => some entry
  | _ => none

/-- Whether an event tells of a batch: an entry joins it, it is sent or settled, or there is none
to send. -/
def isOfBatch : Event → Bool
  | .received _ | .tickWithoutBatch | .flushed _ _ | .applied _ _ _ | .rejected _ _ => true
  | _ => false

def TellNoBatch (events : List Event) : Prop := ∀ ev ∈ events, ev.isOfBatch = false

theorem tellNoBatch_of_reading {events : List Event} (h : ∀ ev ∈ events, ev.IsOfReading) :
    TellNoBatch events := by
  intro ev hev
  have hreading := h ev hev
  cases ev <;> first | rfl | exact hreading.elim

end Event

namespace Journal

variable {j k : Journal} {now : Nat} {events : List Event}

def account (j : Journal) : Journal := j.filter fun e => e.2.isOfBatch

theorem account_note_of_tellNoBatch (h : Event.TellNoBatch events) :
    (j.note now events).account = j.account := by
  have hnone : (events.map fun e => (now, e)).filter (fun e => e.2.isOfBatch) = [] := by
    rw [List.filter_eq_nil_iff]
    intro e he
    obtain ⟨ev, hev, rfl⟩ := List.mem_map.mp he
    simp [h ev hev]
  rw [account, note, List.filter_append, hnone, List.append_nil]
  rfl

theorem filterMap_account {α : Type} {f : Event → Option α}
    (h : ∀ ev, ev.isOfBatch = false → f ev = none) (j : Journal) :
    (j.account.filterMap fun e => f e.2) = j.filterMap fun e => f e.2 := by
  rw [account, List.filterMap_filter]
  congr 1
  funext e
  split
  · rfl
  · next hnot => exact (h e.2 (by simpa using hnot)).symm

def flushes (j : Journal) : List (Trigger × List Entry) :=
  j.filterMap fun e => e.2.flush?

def receipts (j : Journal) : List Entry := j.filterMap fun e => e.2.receipt?

@[simp]
theorem flushes_note (j : Journal) (now : Nat) (events : List Event) :
    (j.note now events).flushes = j.flushes ++ events.filterMap Event.flush? := by
  simp [flushes, note, List.filterMap_map]

@[simp]
theorem receipts_note (j : Journal) (now : Nat) (events : List Event) :
    (j.note now events).receipts = j.receipts ++ events.filterMap Event.receipt? := by
  simp [receipts, note, List.filterMap_map]

theorem flushes_of_account (h : k.account = j.account) : k.flushes = j.flushes := by
  have hread (ev : Event) (hev : ev.isOfBatch = false) : ev.flush? = none := by
    cases ev <;> first | rfl | cases hev
  rw [flushes, ← filterMap_account hread, h, filterMap_account hread, flushes]

theorem receipts_of_account (h : k.account = j.account) : k.receipts = j.receipts := by
  have hread (ev : Event) (hev : ev.isOfBatch = false) : ev.receipt? = none := by
    cases ev <;> first | rfl | cases hev
  rw [receipts, ← filterMap_account hread, h, filterMap_account hread, receipts]

end Journal

/-- What a batch consists of on its way: its documents as they were read. -/
def Entry.values (batch : List Entry) : List Value := batch.map fun e => .document e.raw

theorem Entry.values_eq (batch : List Entry) :
    values batch = (batch.map raw).map Value.document := by
  simp [values]

def Value.ofBatch (batch : List Entry) : Value := .array (Entry.values batch)

theorem Value.parts_ofBatch (batch : List Entry) :
    (Value.ofBatch batch).parts = Entry.values batch := rfl

theorem Value.length?_ofBatch (batch : List Entry) :
    (Value.ofBatch batch).length? = .ok batch.length := by
  simp [ofBatch, Entry.values, length?, parts?]

theorem Command.ops_ofBatch (batch : List Entry) :
    (Command.ofBatch batch).ops = Entry.values batch := rfl

theorem Reply.accepts_rejected (message : String) : accepts (rejected message) = false := rfl

theorem Reply.accepts_applied (count : Nat) : accepts (applied count) = true := by
  have hok : (applied count).get? "ok" = some okay := rfl
  rw [accepts, hok]
  decide +kernel

theorem Reply.accepts_unattached : accepts unattached = false := rfl

def Answer.isAccepted : Answer → Bool
  | .reply r => Reply.accepts r
  | .fault _ => false

def Answer.failure : Answer → Failure
  | .reply r => .apply (.rejected (Reply.reason r))
  | .fault f => .ofApplyFault f

namespace Destination

theorem start_cases (d : Destination) (batch : List Entry) :
    (∃ f, (d.start (.ofBatch batch)).1 = .fault f) ∨
      ∃ duration, (d.start (.ofBatch batch)).1 = .working (.ofBatch batch) duration := by
  unfold start Command.ofBatch
  split
  · exact .inl ⟨_, rfl⟩
  · next hc => cases hc
  · next hc =>
    cases hc
    split
    · exact .inr ⟨_, rfl⟩
    · exact .inl ⟨_, rfl⟩

theorem complete_cases (d : Destination) (batch : List Entry) :
    (Answer.isAccepted (.ofReply (d.complete (.ofBatch batch)).1) = true ∧
      (d.complete (.ofBatch batch)).2 = { d with batches := d.batches ++ [.ofBatch batch] }) ∨
    (Answer.isAccepted (.ofReply (d.complete (.ofBatch batch)).1) = false ∧
      (d.complete (.ofBatch batch)).2 = d) := by
  unfold complete
  split
  · exact .inr ⟨Reply.accepts_rejected _, rfl⟩
  · refine .inl ?_
    rw [Value.length?_ofBatch]
    exact ⟨Reply.accepts_applied _, rfl⟩

end Destination

/-- A batch that is sent is recorded as a command if there is a destination; it is refused at once
or worked on, and not applied yet. -/
theorem World.send_ofBatch (w : World) (batch : List Entry) :
    ∃ start destination, w.send (.ofBatch batch) = (start, { w with destination := destination }) ∧
      destination.batches = w.destination.batches ∧
      destination.commands = w.destination.commands ++
        (if w.attached then [.ofBatch batch] else []) ∧
      ((∃ f, start = .fault f) ∨ (∃ r, start = .reply r ∧ Reply.accepts r = false) ∨
        w.attached = true ∧ ∃ duration, start = .working (.ofBatch batch) duration) := by
  by_cases ha : w.attached = true
  · refine ⟨_, _, by rw [send, if_pos ha], Destination.batches_start _ _, ?_, ?_⟩
    · rw [Destination.commands_start, if_pos ha]
    · rcases w.destination.start_cases batch with h | h
      · exact .inl h
      · exact .inr (.inr ⟨ha, h⟩)
  · refine ⟨_, w.destination, by rw [send, if_neg ha], rfl, ?_, .inr (.inl ⟨_, rfl, ?_⟩)⟩
    · rw [if_neg ha, List.append_nil]
    · exact Reply.accepts_unattached

/-- A destination that applies every batch, after a delay that the clock can be set forward by. -/
structure World.Serves (w : World) : Prop where
  attached : w.attached = true
  faultless : w.destination.fault = none
  willing : w.destination.rejection = none
  counted : ∃ duration, w.destination.delay.wait? = .ok duration

theorem World.Serves.send {w : World} {batch : List Entry} {start : Destination.Start}
    {destination : Destination} (h : w.Serves)
    (hsend : w.send (.ofBatch batch) = (start, { w with destination := destination })) :
    (∃ duration, start = .working (.ofBatch batch) duration) ∧
      World.Serves { w with destination := destination } := by
  obtain ⟨duration, hduration⟩ := h.counted
  rw [World.send, if_pos h.attached] at hsend
  simp only [Destination.start, Command.ofBatch, h.faultless, hduration] at hsend
  cases hsend
  exact ⟨⟨duration, rfl⟩, h.attached, rfl, h.willing, duration, hduration⟩

theorem World.Serves.complete {w : World} (h : w.Serves) (batch : List Entry) :
    Answer.isAccepted (.ofReply (w.complete (.ofBatch batch)).1) = true ∧
      (w.complete (.ofBatch batch)).2.Serves := by
  unfold World.complete Destination.complete
  simp only [h.willing, Value.length?_ofBatch]
  exact ⟨Reply.accepts_applied _, h.attached, h.faultless, rfl, h.counted⟩

namespace Forwarder.Ending

def failure? : Forwarder.Ending → Option Failure
  | .failed e => some (.stream e)
  | .escaped e => some e
  | .exhausted | .cancelled => none

end Forwarder.Ending

namespace Transfer

def flushes (t : Transfer) : List (Trigger × List Entry) := t.journal.flushes

def sent (t : Transfer) : List Entry := t.flushes.flatMap Prod.snd

def receipts (t : Transfer) : List Entry := t.journal.receipts

def Claim.entries : Claim → List Entry
  | .filled e => [e]
  | _ => []

def Claim.places : Claim → Nat
  | .none => 0
  | .outstanding | .filled _ => 1

def unsent (t : Transfer) : List Entry :=
  match t.phase with
  | .applying _ _ _ | .answered _ _ => []
  | _ => t.batch.entries

def taken (t : Transfer) : List Entry := t.sent ++ t.unsent ++ t.claim.entries

/-- The entries that were taken off the forwarder's queue, told where no batch is under way. -/
def inHand (t : Transfer) : List Entry := t.sent ++ t.batch.entries ++ t.claim.entries

/-- The counters, if just these batches were counted. -/
structure Counted (t : Transfer) (settled : List (Trigger × List Entry)) : Prop where
  batches : t.batchesApplied = settled.length
  total : t.applier.total = (settled.flatMap Prod.snd).length
  last : t.applier.last = ((settled.flatMap Prod.snd).getLast?.map Entry.timestamp).getD .null

/-- The records of the destination, if just these batches were applied. -/
structure Applied (t : Transfer) (settled : List (Trigger × List Entry)) : Prop where
  batches : t.destination.batches = settled.map fun b => .ofBatch b.2
  commands : t.destination.commands =
    if t.attached then t.flushes.map fun b => .ofBatch b.2 else []
  attached : t.attached = false → settled = []

structure Even (t : Transfer) : Prop where
  counted : t.Counted t.flushes
  applied : t.Applied t.flushes

/-- What the round that sent a batch had seen. -/
structure Warrant (t : Transfer) (f : Flush) : Prop where
  asked : f.shutdownSeen = true ∨ f.trigger = .shutdown → t.shutdown = true
  drained : f.trigger = .endOfStream → t.drained = true

/-- How far the batches have come in each phase. One batch at most is ahead of the counters, and
none but the last one can have been refused. -/
inductive Standing (t : Transfer) : Phase → Prop where
  | waiting {watching} : t.Even → t.batch.size < t.batch.capacity → Standing t (.waiting watching)
  | applying {f due settled} : t.flushes = settled ++ [(f.trigger, t.batch.entries)] →
      t.batch.entries ≠ [] → t.Counted settled → t.Applied settled → t.Warrant f →
      t.attached = true → Standing t (.applying f (.ofBatch t.batch.entries) due)
  | answered {f answer settled} : t.flushes = settled ++ [(f.trigger, t.batch.entries)] →
      t.batch.entries ≠ [] → t.Counted settled →
      t.Applied (if answer.isAccepted then t.flushes else settled) → t.Warrant f →
      Standing t (.answered f answer)
  | finished : t.Even → t.batch.entries = [] →
      (t.shutdown = true ∨ t.drained = true ∧ t.forwarder.ending = some .exhausted) →
      Standing t (.done (.ok ()))
  | stopped {ending e} : t.Even → t.batch.entries = [] → t.drained = true →
      t.forwarder.ending = some ending → ending.failure? = some e → Standing t (.done (.error e))
  | refused {settled b answer} : t.flushes = settled ++ [b] → t.batch.entries = [] →
      t.Counted settled → t.Applied settled → Answer.isAccepted answer = false →
      Standing t (.done (.error answer.failure))

/-- At any moment the batches that were applied are the first ones that were sent, and at most one
more was sent. -/
theorem Standing.applied {t : Transfer} {phase : Phase} (h : t.Standing phase) :
    ∃ settled, t.Applied settled ∧ settled <+: t.flushes ∧
      t.flushes.length ≤ settled.length + 1 := by
  cases h with
  | waiting heven => exact ⟨_, heven.applied, List.prefix_refl _, Nat.le_succ _⟩
  | applying hflushes _ _ happlied =>
    refine ⟨_, happlied, ?_, ?_⟩
    · rw [hflushes]
      exact List.prefix_append _ _
    · simp [hflushes]
  | @answered f answer settled hflushes _ _ happlied =>
    refine ⟨_, happlied, ?_, ?_⟩
    · split
      · exact List.prefix_refl _
      · rw [hflushes]
        exact List.prefix_append _ _
    · split
      · exact Nat.le_succ _
      · simp [hflushes]
  | finished heven => exact ⟨_, heven.applied, List.prefix_refl _, Nat.le_succ _⟩
  | stopped heven => exact ⟨_, heven.applied, List.prefix_refl _, Nat.le_succ _⟩
  | refused hflushes _ _ happlied =>
    refine ⟨_, happlied, ?_, ?_⟩
    · rw [hflushes]
      exact List.prefix_append _ _
    · simp [hflushes]

theorem Standing.empty_of_done {t : Transfer} {outcome : Except Failure Unit}
    (h : t.Standing (.done outcome)) : t.batch.entries = [] := by
  cases h with
  | finished _ hb => exact hb
  | stopped _ hb => exact hb
  | refused _ hb => exact hb

/-- What the coordinator leaves alone. -/
structure Frame (t u : Transfer) : Prop where
  now : u.now = t.now
  forwarder : u.forwarder = t.forwarder
  oplog : u.oplog = t.oplog
  attached : u.attached = t.attached
  shutdown : u.shutdown = t.shutdown
  capacity : u.batch.capacity = t.batch.capacity

/-- Transfers that differ in nothing that the ledger tells of. -/
structure Alike (t u : Transfer) : Prop extends Frame t u where
  batch : u.batch = t.batch
  claim : u.claim.entries = t.claim.entries
  received : u.received = t.received
  flushes : u.flushes = t.flushes
  destination : u.destination = t.destination
  applier : u.applier = t.applier
  counted : u.batchesApplied = t.batchesApplied

/-- The coordinator goes on between two batches: it may send one more batch, and no entry that it
has in hand gets lost. -/
structure Carries (t u : Transfer) : Prop extends Frame t u where
  taken : u.taken = t.inHand
  received : u.received + u.claim.entries.length = t.received + t.claim.entries.length
  sends : u.flushes = t.flushes ∨ ∃ b, u.flushes = t.flushes ++ [b]
  batches : u.destination.batches = t.destination.batches
  standing : u.Standing u.phase
  even : u.isDone = true → u.Even

section Coordinator

variable {t u v : Transfer} {f : Flush}

@[simp]
theorem flushes_note (t : Transfer) (events : List Event) :
    (t.note events).flushes = t.flushes ++ events.filterMap Event.flush? :=
  Journal.flushes_note t.journal t.now events

theorem inHand_of_waiting {watching : Bool} (h : t.phase = .waiting watching) :
    t.taken = t.inHand := by
  simp [Transfer.taken, Transfer.inHand, unsent, h]

theorem drained_iff : t.drained = true ↔
    t.forwarder.ending ≠ none ∧ t.forwarder.queue = [] ∧ t.claim.entries = [] := by
  cases hc : t.claim <;>
    simp [Transfer.drained, Forwarder.finished, Claim.isFilled, Claim.entries, hc,
      Option.isSome_iff_ne_none]

theorem Alike.drained (h : Alike t u) : u.drained = t.drained := by
  rw [Bool.eq_iff_iff, drained_iff, drained_iff, h.forwarder, h.claim]

theorem Alike.inHand (h : Alike t u) : u.inHand = t.inHand := by
  rw [Transfer.inHand, Transfer.inHand, sent, sent, h.flushes, h.batch, h.claim]

theorem Alike.serves (h : Alike t u) (hserves : t.toWorld.Serves) : u.toWorld.Serves where
  attached := h.attached.trans hserves.attached
  faultless := by
    rw [h.destination]
    exact hserves.faultless
  willing := by
    rw [h.destination]
    exact hserves.willing
  counted := by
    rw [h.destination]
    exact hserves.counted

theorem alike_note {events : List Event} (h : events.filterMap Event.flush? = []) :
    Alike t (t.note events) := by
  refine ⟨⟨rfl, rfl, rfl, rfl, rfl, rfl⟩, rfl, rfl, rfl, ?_, rfl, rfl, rfl⟩
  rw [flushes_note, h, List.append_nil]

theorem alike_finish (outcome : Except Failure Unit) : Alike t (t.finish outcome) :=
  ⟨⟨rfl, rfl, rfl, rfl, rfl, rfl⟩, rfl, rfl, rfl, rfl, rfl, rfl, rfl⟩

theorem alike_beginRound : Alike t t.beginRound := by
  refine ⟨⟨rfl, rfl, rfl, rfl, rfl, rfl⟩, rfl, ?_, rfl, rfl, rfl, rfl, rfl⟩
  unfold beginRound
  cases t.claim <;> rfl

theorem Alike.trans (h : Alike t u) (h' : Alike u v) : Alike t v where
  now := h'.now.trans h.now
  forwarder := h'.forwarder.trans h.forwarder
  oplog := h'.oplog.trans h.oplog
  attached := h'.attached.trans h.attached
  shutdown := h'.shutdown.trans h.shutdown
  capacity := h'.capacity.trans h.capacity
  batch := h'.batch.trans h.batch
  claim := h'.claim.trans h.claim
  received := h'.received.trans h.received
  flushes := h'.flushes.trans h.flushes
  destination := h'.destination.trans h.destination
  applier := h'.applier.trans h.applier
  counted := h'.counted.trans h.counted

theorem Counted.transport {settled : List (Trigger × List Entry)} (h : t.Counted settled)
    (hcount : u.batchesApplied = t.batchesApplied) (htotal : u.applier.total = t.applier.total)
    (hlast : u.applier.last = t.applier.last) : u.Counted settled :=
  ⟨hcount.trans h.batches, htotal.trans h.total, hlast.trans h.last⟩

theorem Applied.transport {settled : List (Trigger × List Entry)} (h : t.Applied settled)
    (hbatches : u.destination.batches = t.destination.batches)
    (hcommands : u.destination.commands = t.destination.commands) (hflushes : u.flushes = t.flushes)
    (hattached : u.attached = t.attached) : u.Applied settled where
  batches := hbatches.trans h.batches
  commands := by
    rw [hcommands, hattached, hflushes, h.commands]
  attached := by
    rw [hattached]
    exact h.attached

theorem Applied.ops {settled : List (Trigger × List Entry)} (h : t.Applied settled) :
    t.destination.commands.flatMap Command.ops =
      if t.attached then Entry.values t.sent else [] := by
  rw [h.commands]
  split
  · simp only [List.flatMap_map, Command.ops_ofBatch, sent, Entry.values, List.map_flatMap]
  · rfl

theorem Applied.entries {settled : List (Trigger × List Entry)} (h : t.Applied settled) :
    t.destination.appliedEntries = Entry.values (settled.flatMap Prod.snd) := by
  rw [Destination.appliedEntries, h.batches]
  simp only [List.flatMap_map, Value.parts_ofBatch, Entry.values, List.map_flatMap]

theorem Even.entries (h : t.Even) : t.destination.appliedEntries = Entry.values t.sent :=
  h.applied.entries

theorem Alike.even (h : Alike t u) (he : t.Even) : u.Even where
  counted := h.flushes ▸ he.counted.transport h.counted (by rw [h.applier]) (by rw [h.applier])
  applied := by
    have happlied := he.applied.transport (by rw [h.destination]) (by rw [h.destination])
      h.flushes h.attached
    rwa [← h.flushes] at happlied

theorem Alike.carries (h : Alike t u) (hc : Carries u v) : Carries t v where
  now := hc.now.trans h.now
  forwarder := hc.forwarder.trans h.forwarder
  oplog := hc.oplog.trans h.oplog
  attached := hc.attached.trans h.attached
  shutdown := hc.shutdown.trans h.shutdown
  capacity := hc.capacity.trans h.capacity
  taken := hc.taken.trans h.inHand
  received := by
    rw [hc.received, h.received, h.claim]
  sends := h.flushes ▸ hc.sends
  batches := by
    rw [hc.batches, h.destination]
  standing := hc.standing
  even := hc.even

theorem Alike.carries_of_standing (h : Alike t u) (he : t.Even) (htaken : u.taken = u.inHand)
    (hs : u.Standing u.phase) : Carries t u where
  toFrame := h.toFrame
  taken := htaken.trans h.inHand
  received := by
    rw [h.received, h.claim]
  sends := .inl h.flushes
  batches := by
    rw [h.destination]
  standing := hs
  even _ := h.even he

end Coordinator

end Transfer

end OplogRelay
