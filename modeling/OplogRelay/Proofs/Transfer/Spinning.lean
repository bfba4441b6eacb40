import OplogRelay.Proofs.Transfer.Timing
/-!
Transfers that stay at one moment for ever. A forwarder whose wait for new entries is too short to move the
clock looks again and again where it has read all there is, and a coordinator whose flush interval is too
short finds its timer due in every round.
-/
namespace OplogRelay

namespace Transfer

variable {t u : Transfer}

def onTail (phase : Tail.Phase) (t : Transfer) : Transfer :=
  { t with forwarder := { t.forwarder with tail := { t.forwarder.tail with phase := phase } } }

/-- The coordinator waits and has no reason to go on, or for the destination's answer. -/
def Pauses (t : Transfer) : Prop :=
  match t.phase with
  | .waiting watching => t.roused watching = false
  | .applying _ _ due => t.now < due
  | _ => False

/-- All there is has been read, and was read so shortly before that the forwarder goes on; its wait for more
ends where it begins, and nothing else goes on. -/
structure Circles (t : Transfer) : Prop where
  live : t.forwarder.finished = false
  unheld : t.forwarder.held = none
  faultless : t.oplog.fault = none
  alive : t.forwarder.tail.cursor.alive = true
  opened : t.forwarder.tail.closed = false
  read : t.forwarder.tail.cursor.position = t.oplog.documents.length
  recent : t.forwarder.tail.idle.span.elapsed t.forwarder.tail.lastSeen t.now = false
  instant : t.forwarder.tail.cursor.wait?.toOption.bind (·.after t.now) = some t.now
  phase : t.forwarder.tail.phase ∈ [.looking, .waiting (some t.now) false, .lapsed]
  unqueued : t.forwarder.queue = []
  informed : t.shutdown = true → t.heard = true
  pauses : t.Pauses

theorem note_nil (t : Transfer) : t.note [] = t := by
  show { t with journal := t.journal.note t.now [] } = t
  rw [Journal.note_nil]

theorem Circles.onTail {phase : Tail.Phase} (h : t.Circles)
    (hphase : phase ∈ [.looking, .waiting (some t.now) false, .lapsed]) : (t.onTail phase).Circles :=
  ⟨h.live, h.unheld, h.faultless, h.alive, h.opened, h.read, h.recent, h.instant, hphase, h.unqueued,
    h.informed, h.pauses⟩

theorem Pauses.still (h : t.Pauses) : t.isDone = false ∧ t.coordinate? = none := by
  unfold Pauses at h
  split at h
  · next hphase => simp [isDone, coordinate?, hphase, h]
  · next hphase => simp [isDone, coordinate?, hphase, h]
  · exact h.elim

theorem Circles.step?_eq (h : t.Circles) : t.step? = t.forward?.orElse fun _ => t.expire? := by
  obtain ⟨hdone, hcoordinate⟩ := h.pauses.still
  have hfill : t.fill? = none := by simp [fill?, h.unqueued]
  have hhear : t.hear? = none := by simpa [hear?] using h.informed
  simp [step?, hdone, hfill, hhear, hcoordinate]

/-- A look at the end of the log waits, a wait runs out where it began, and what has run out looks again. -/
theorem Circles.step (h : t.Circles) : ∃ phase, t.step? = some (t.onTail phase) ∧
    (t.onTail phase).Circles := by
  have hnext := h.step?_eq
  have hforward {tail : Tail} (htail : t.forwarder.tail.step? t.now t.oplog =
      some (.pending, t.oplog, tail, [])) :
      t.step? = some { t with forwarder := { t.forwarder with tail := tail } } := by
    have hmoved : t.forward? = some { t with forwarder := { t.forwarder with tail := tail } } := by
      simp only [forward?, Forwarder.step?, h.live, h.unheld, htail, Forwarder.onOutcome, note_nil,
        List.append_nil, Bool.false_eq_true, if_false]
    rw [hnext, hmoved]
    rfl
  rcases List.mem_cons.mp h.phase with hlooks | hlater
  · obtain ⟨span, hspan, hafter⟩ := Option.bind_eq_some_iff.mp h.instant
    have hwait : t.forwarder.tail.cursor.wait? = .ok span := by
      cases hwait : t.forwarder.tail.cursor.wait? with
      | error => simp [hwait, Except.toOption] at hspan
      | ok => simpa [hwait, Except.toOption] using hspan
    refine ⟨.waiting (some t.now) false, hforward ?_, h.onTail (by simp)⟩
    have hlook : t.forwarder.tail.cursor.look t.oplog = (.nothing, t.oplog, t.forwarder.tail.cursor) := by
      have hrest : t.oplog.documents.drop t.forwarder.tail.cursor.position = [] := by
        rw [h.read, List.drop_length]
      rw [Cursor.look, if_pos h.alive, h.faultless]
      simp only [hrest, Cursor.scan, Nat.add_zero]
    simp [Tail.step?, hlooks, hlook, Tail.onLook, hwait, hafter]
  · rcases List.mem_cons.mp hlater with hwaits | hlast
    · refine ⟨.lapsed, ?_, h.onTail (by simp)⟩
      have hstill : t.forward? = none := by
        simp [forward?, Forwarder.step?, h.live, h.unheld, Tail.step?, hwaits]
      rw [hnext, hstill]
      simp [expire?, Forwarder.expire?, h.live, Tail.expire?, hwaits, Transfer.onTail]
    · have hlapsed := List.mem_singleton.mp hlast
      refine ⟨.looking, hforward ?_, h.onTail (by simp)⟩
      simp [Tail.step?, hlapsed, Tail.giveUp, h.recent, h.alive, h.opened]

instance : Decidable t.Pauses := by
  unfold Pauses
  cases t.phase <;> infer_instance

instance : Decidable t.Circles :=
  decidable_of_iff (t.forwarder.finished = false ∧ t.forwarder.held = none ∧ t.oplog.fault = none ∧
      t.forwarder.tail.cursor.alive = true ∧ t.forwarder.tail.closed = false ∧
      t.forwarder.tail.cursor.position = t.oplog.documents.length ∧
      t.forwarder.tail.idle.span.elapsed t.forwarder.tail.lastSeen t.now = false ∧
      t.forwarder.tail.cursor.wait?.toOption.bind (·.after t.now) = some t.now ∧
      t.forwarder.tail.phase ∈ [.looking, .waiting (some t.now) false, .lapsed] ∧
      t.forwarder.queue = [] ∧ (t.shutdown = true → t.heard = true) ∧ t.Pauses)
    ⟨fun ⟨a, b, c, d, e, f, g, h, i, j, k, l⟩ => ⟨a, b, c, d, e, f, g, h, i, j, k, l⟩,
      fun ⟨a, b, c, d, e, f, g, h, i, j, k, l⟩ => ⟨a, b, c, d, e, f, g, h, i, j, k, l⟩⟩

/-- A coordinator with nothing to send whose timer is due, and is due again when it has been set anew. -/
structure Drums (t : Transfer) : Prop where
  waits : ∃ watching, t.phase = .waiting watching
  claim : t.claim = .outstanding
  empty : t.batch.entries = []
  unheard : t.heard = false
  unasked : t.shutdown = false
  live : t.forwarder.finished = false
  due : t.nextTick = some t.now
  rings : t.alarm = some t.now
  instant : t.interval.after t.now = some t.now
  unqueued : t.forwarder.queue = []
  still : t.forwarder.step? t.now t.oplog = none

instance : Decidable (∃ watching, t.phase = .waiting watching) :=
  match t.phase with
  | .waiting watching => isTrue ⟨watching, rfl⟩
  | .applying _ _ _ | .answered _ _ | .done _ => isFalse nofun

instance : Decidable (t.claim = .outstanding) :=
  match t.claim with
  | .outstanding => isTrue rfl
  | .none | .filled _ => isFalse nofun

instance : Decidable t.Drums :=
  decidable_of_iff ((∃ watching, t.phase = .waiting watching) ∧ t.claim = .outstanding ∧
      t.batch.entries = [] ∧ t.heard = false ∧ t.shutdown = false ∧ t.forwarder.finished = false ∧
      t.nextTick = some t.now ∧ t.alarm = some t.now ∧ t.interval.after t.now = some t.now ∧
      t.forwarder.queue = [] ∧ t.forwarder.step? t.now t.oplog = none)
    ⟨fun ⟨a, b, c, d, e, f, g, h, i, j, k⟩ => ⟨a, b, c, d, e, f, g, h, i, j, k⟩,
      fun ⟨a, b, c, d, e, f, g, h, i, j, k⟩ => ⟨a, b, c, d, e, f, g, h, i, j, k⟩⟩

theorem Drums.step (h : t.Drums) : ∃ u, t.step? = some u ∧ u.Drums := by
  obtain ⟨watching, hphase⟩ := h.waits
  have hfill : t.fill? = none := by simp [Transfer.fill?, h.unqueued]
  have hforward : t.forward? = none := by simp [Transfer.forward?, h.still]
  have hdue : t.alarmDue = true := by simp [alarmDue, h.rings, isDue]
  have htick : t.tickDue = true := by simp [tickDue, h.due, isDue]
  have hround : t.coordinate? = some (t.proceed false) := by
    simp [coordinate?, hphase, roused, hdue, h.claim, h.unheard]
  have hproceed : t.proceed false =
      (note { t with nextTick := t.interval.after t.now } [.tickWithoutBatch]).beginRound := by
    simp [proceed, drained, h.live, htick, Batch.isEmpty, h.empty]
  have hstep : t.step? = some (t.proceed false) := by
    simp [step?, isDone, hphase, hfill, hforward, hear?, h.unasked, hround]
  refine ⟨_, hstep, ?_⟩
  rw [hproceed]
  refine ⟨⟨_, rfl⟩, ?_, h.empty, ?_, h.unasked, h.live, h.instant, ?_, h.instant, h.unqueued, h.still⟩
  · simp [beginRound, note, onWorld, h.claim]
  · simp [beginRound, note, onWorld, h.unheard, h.unasked]
  · show alarmFor t.now (t.interval.after t.now) = some t.now
    rw [h.instant, alarmFor_some, Moment.arrival_gap_of_le (Nat.le_refl _)]

end Transfer

end OplogRelay
