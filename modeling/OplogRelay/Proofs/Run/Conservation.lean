import OplogRelay.Proofs.Run.Batching
import OplogRelay.Proofs.Run.Completeness
/-!
Conservation: the counters of the forwarder, the coordinator and the applier agree with each other
and with what the destination recorded, wherever a run has come to rest. What is missing from one of
them is in the queue, in a claim, in the batch or in the batch that failed.
-/
namespace OplogRelay

theorem Timestamp.le_refl (t : Timestamp) : t ≤ t := packed_le_packed.mp (Nat.le_refl _)

def Document.Ascending (docs : List Document) : Prop :=
  docs.Pairwise fun a b => ∀ x y, a.get? "ts" = some (.timestamp x) →
    b.get? "ts" = some (.timestamp y) → x ≤ y

namespace Entry

variable {threshold : Timestamp} {docs : List Document} {e : Entry}

theorem ofDocument?_of_handedOut? {d : Document} (h : handedOut? threshold d = some e) :
    ofDocument? d = .ok e := by
  unfold handedOut? at h
  split at h
  · cases hd : ofDocument? d with
    | error => simp [hd, Except.toOption] at h
    | ok e' =>
      rw [hd] at h
      rw [Option.some.inj h]
  · cases h

theorem timestamp_of_mem_handedOut (h : e ∈ handedOut threshold docs) :
    e.raw.get? "ts" = some e.timestamp := by
  obtain ⟨d, _, hd⟩ := List.mem_filterMap.mp h
  have he := ofDocument?_of_handedOut? hd
  rw [raw_of_ofDocument? he]
  exact timestamp_of_ofDocument? he

theorem handedOut_ascending (h : Document.Ascending docs) :
    (handedOut threshold docs).Pairwise fun a b => ∀ x y, a.timestamp = .timestamp x →
      b.timestamp = .timestamp y → x ≤ y := by
  refine List.Pairwise.filterMap _ ?_ h
  intro a b hab c hc d hd x y hx hy
  have hts := timestamp_of_ofDocument? (ofDocument?_of_handedOut? hc)
  have hts' := timestamp_of_ofDocument? (ofDocument?_of_handedOut? hd)
  exact hab x y (hx ▸ hts) (hy ▸ hts')

end Entry

namespace Transfer

variable {t u : Transfer} {threshold : Timestamp}

/-- What was sent last, if the transfer has ended without it being applied. -/
def failed (t : Transfer) : List Entry :=
  match t.phase with
  | .done _ => (t.flushes.drop t.destination.batches.length).flatMap Prod.snd
  | _ => []

theorem Standing.counted {phase : Phase} (h : t.Standing phase) :
    ∃ settled, t.Counted settled ∧ settled <+: t.flushes ∧
      ((∀ f answer, phase ≠ .answered f answer) → t.Applied settled) := by
  cases h with
  | waiting heven => exact ⟨_, heven.counted, List.prefix_refl _, fun _ => heven.applied⟩
  | applying hflushes _ hcounted happlied =>
    refine ⟨_, hcounted, ?_, fun _ => happlied⟩
    rw [hflushes]
    exact List.prefix_append _ _
  | answered hflushes _ hcounted =>
    refine ⟨_, hcounted, ?_, fun hnot => absurd rfl (hnot _ _)⟩
    rw [hflushes]
    exact List.prefix_append _ _
  | finished heven => exact ⟨_, heven.counted, List.prefix_refl _, fun _ => heven.applied⟩
  | stopped heven => exact ⟨_, heven.counted, List.prefix_refl _, fun _ => heven.applied⟩
  | refused hflushes _ hcounted happlied =>
    refine ⟨_, hcounted, ?_, fun _ => happlied⟩
    rw [hflushes]
    exact List.prefix_append _ _

theorem Even.not_failed (h : t.Even) : t.failed = [] := by
  unfold failed
  split
  · rw [h.applied.batches, List.length_map, List.drop_length]
    rfl
  · rfl

theorem Invariant.received_split (h : t.Invariant threshold) (ho : t.Orderly)
    (hnot : ∀ f answer, t.phase ≠ .answered f answer) :
    t.received = t.applier.total + t.batch.size + t.failed.length := by
  have hs := h.standing
  rw [h.received_eq ho, ho.receipts, List.length_append]
  cases hphase : t.phase with
  | waiting watching =>
    rw [hphase] at hs
    cases hs with
    | waiting heven =>
      have hunsent : t.unsent = t.batch.entries := by simp [unsent, hphase]
      rw [heven.counted.total, heven.not_failed, hunsent]
      rfl
  | applying f ops due =>
    rw [hphase] at hs
    cases hs with
    | applying hflushes _ hcounted =>
      have hunsent : t.unsent = [] := by simp [unsent, hphase]
      have hfailed : t.failed = [] := by simp [failed, hphase]
      rw [hcounted.total, hfailed, hunsent, sent, hflushes]
      simp [Batch.size]
  | answered f answer => exact absurd hphase (hnot f answer)
  | done outcome =>
    rw [hphase] at hs
    have hunsent : t.unsent = t.batch.entries := by simp [unsent, hphase]
    cases hs with
    | finished heven =>
      rw [heven.counted.total, heven.not_failed, hunsent]
      rfl
    | stopped heven =>
      rw [heven.counted.total, heven.not_failed, hunsent]
      rfl
    | @refused settled b answer hflushes hb hcounted happlied _ =>
      have hfailed : t.failed = b.2 := by
        simp only [failed, hphase]
        rw [happlied.batches, List.length_map, hflushes, List.drop_left]
        simp
      rw [hcounted.total, hfailed, hunsent, sent, hflushes]
      simp [Batch.size, hb]

/-- What was read is skipped, forwarded or held. -/
theorem Invariant.read_split (h : t.Invariant threshold) :
    t.forwarder.skipped + t.forwarder.forwarded + t.forwarder.held.toList.length =
      (Entry.handedOut threshold
        (t.oplog.documents.take t.forwarder.tail.cursor.position)).length := by
  generalize hread : Entry.handedOut threshold
    (t.oplog.documents.take t.forwarder.tail.cursor.position) = read
  have hcontent := congrArg List.length h.feed.content
  have hskipped := h.feed.skipped
  have hcounted := h.feed.counted
  have hall := read.length_eq_countP_add_countP Entry.isNoop
  rw [Entry.forwardable, hread, ← List.countP_eq_length_filter] at hcontent
  rw [hread] at hskipped
  simp only [List.length_append] at hcontent
  have hrest : (read.countP fun e => !e.isNoop) = read.countP fun e => decide ¬e.isNoop = true := by
    congr 1
    funext e
    cases e.isNoop <;> rfl
  omega

theorem Acts.counted_le (h : t.Acts u) : t.batchesApplied ≤ u.batchesApplied := by
  have hrounds {v : Transfer} {seen : Bool} (hv : v.Rounds seen u) :
      u.batchesApplied = v.batchesApplied := by
    cases hv with
    | waits _ _ halike => exact halike.counted
    | ends _ halike => exact halike.counted
    | sends _ _ _ hsends => exact hsends.counted
  cases h with
  | waited _ _ hv => exact Nat.le_of_eq (hrounds hv).symm
  | received _ _ hv => exact Nat.le_of_eq (hrounds hv).symm
  | heard _ _ hu => exact Nat.le_of_eq (hu ▸ rfl)
  | refused _ _ hrefuses => exact Nat.le_of_eq hrefuses.counted.symm
  | counted _ _ _ halike =>
    rw [halike.counted]
    exact Nat.le_succ _

end Transfer

namespace Run

variable {r s : Run} {t : Transfer}

def entriesRead (r : Run) : List Entry :=
  match r.plan.threshold?, r.transfer? with
  | .ok threshold, some t =>
    Entry.handedOut threshold (t.oplog.documents.take t.forwarder.tail.cursor.position)
  | _, _ => []

def held (r : Run) : List Entry := (r.transfer?.map fun t => t.forwarder.held.toList).getD []

def queued (r : Run) : List Entry := (r.transfer?.map fun t => t.forwarder.queue).getD []

/-- The entry that has come for the coordinator and is not received yet. -/
def claimed (r : Run) : List Entry := (r.transfer?.map fun t => t.claim.entries).getD []

def failedBatch (r : Run) : List Entry := (r.transfer?.map Transfer.failed).getD []

def forwardedCount (r : Run) : Nat := (r.stats.forwarder.map ForwarderStats.forwarded).getD 0

def skippedCount (r : Run) : Nat := (r.stats.forwarder.map ForwarderStats.skipped).getD 0

theorem entriesRead_of_moving {threshold : Timestamp} (hstage : r.stage = .moving t)
    (hthreshold : r.plan.threshold? = .ok threshold) : r.entriesRead =
      Entry.handedOut threshold (t.oplog.documents.take t.forwarder.tail.cursor.position) := by
  simp [entriesRead, hthreshold, transfer?_of_moving hstage]

theorem held_of_moving (hstage : r.stage = .moving t) : r.held = t.forwarder.held.toList := by
  simp [held, transfer?_of_moving hstage]

theorem queued_of_moving (hstage : r.stage = .moving t) : r.queued = t.forwarder.queue := by
  simp [queued, transfer?_of_moving hstage]

theorem claimed_of_moving (hstage : r.stage = .moving t) : r.claimed = t.claim.entries := by
  simp [claimed, transfer?_of_moving hstage]

theorem length_held_le (r : Run) : r.held.length ≤ 1 := by
  unfold held
  cases r.transfer? with
  | none => exact Nat.zero_le 1
  | some t =>
    show t.forwarder.held.toList.length ≤ 1
    cases t.forwarder.held with
    | none => exact Nat.zero_le 1
    | some e => exact Nat.le_refl 1

def momentOf? : Value → Option Timestamp
  | .document d => (Document.get? d "ts").bind Value.timestamp?
  | _ => none

/-- The counters of a run agree, and nothing that was read is unaccounted for. -/
structure Balanced (r : Run) : Prop where
  read : r.skippedCount + r.forwardedCount + r.held.length = r.entriesRead.length
  held : r.held.length ≤ 1
  forwarded : r.forwardedCount = r.stats.received + r.queued.length + r.claimed.length
  received : r.stats.received = r.stats.appliedTotal + r.buffered + r.failedBatch.length
  failed : r.world.journal.flushes.length ≤ r.world.destination.batches.length + 1
  applied : r.stats.appliedTotal = r.world.destination.appliedEntries.length
  batches : r.stats.batchesApplied = r.world.destination.batches.length
  last : r.stats.lastApplied = r.world.destination.appliedEntries.getLast?.bind momentOf?

theorem Standing.not_answered (h : r.Standing) (hstage : r.stage = .moving t)
    (hrest : r.step? = none) : ∀ f answer, t.phase ≠ .answered f answer := by
  intro f answer hphase
  obtain ⟨threshold, _, hinv⟩ := h.invariant hstage
  cases hover : r.isOver with
  | true =>
    rcases h.over_cases hstage hover with ⟨hnone, _⟩ | ⟨result, hdone, _⟩
    · have hs := hinv.standing
      rw [hphase] at hs
      cases hs with
      | answered hflushes => simp [hnone] at hflushes
    · cases hphase.symm.trans hdone
  | false =>
    have hgoes {u : Transfer} (hu : t.step? = some u) : False := by
      cases (step?_of_not_done hover hstage hu).symm.trans hrest
    rcases hinv.step?_of_answered hphase with ⟨u, hu, _⟩ | hu
    · exact hgoes hu
    · exact hgoes hu

theorem last_of_counted {threshold : Timestamp} {settled : List (Trigger × List Entry)}
    (hinv : t.Invariant threshold) (hcounted : t.Counted settled) (happlied : t.Applied settled)
    (hfirst : settled <+: t.flushes) :
    t.applier.last.timestamp? = t.destination.appliedEntries.getLast?.bind momentOf? := by
  rw [hcounted.last, happlied.entries, Entry.values, List.getLast?_map]
  cases hlast : (settled.flatMap Prod.snd).getLast? with
  | none => rfl
  | some e =>
    have hsent : e ∈ t.sent := (hfirst.flatMap Prod.snd).subset (List.mem_of_getLast? hlast)
    have hread := hinv.sent_read.subset hsent
    have hts := Entry.timestamp_of_mem_handedOut (List.mem_of_mem_filter hread)
    simp [momentOf?, hts]

theorem balanced_of_moving (h : Reachable r) (hstage : r.stage = .moving t)
    (hrest : r.step? = none) : r.Balanced := by
  have hstanding := reachable_standing h
  obtain ⟨threshold, hthreshold, hinv⟩ := hstanding.invariant hstage
  obtain ⟨horderly, _⟩ := reachable_orderly h hstage
  have hnot := hstanding.not_answered hstage hrest
  obtain ⟨settled, hcounted, hfirst, happlied⟩ := hinv.standing.counted
  have happlied := happlied hnot
  have htransfer := transfer?_of_moving hstage
  have hstats := stats_of_moving hstage
  have hforwarded : r.forwardedCount = t.forwarder.forwarded := by
    simp [forwardedCount, hstats, Forwarder.stats]
  have hskipped : r.skippedCount = t.forwarder.skipped := by
    simp [skippedCount, hstats, Forwarder.stats]
  have hworld := world_of_moving hstage
  constructor
  · rw [hskipped, hforwarded, held_of_moving hstage, entriesRead_of_moving hstage hthreshold]
    exact hinv.read_split
  · exact r.length_held_le
  · have htaken := hinv.received
    rw [hforwarded, hstats, queued_of_moving hstage, claimed_of_moving hstage, hinv.feed.counted]
    show _ = t.received + _ + _
    omega
  · have hbuffered : r.buffered = t.batch.size := by simp [buffered, htransfer]
    have hfailed : r.failedBatch = t.failed := by simp [failedBatch, htransfer]
    rw [hstats, hbuffered, hfailed]
    exact hinv.received_split horderly hnot
  · exact flushes_le h
  · rw [hstats, hworld, happlied.entries, Entry.values, List.length_map]
    exact hcounted.total
  · rw [hstats, hworld, happlied.batches, List.length_map]
    exact hcounted.batches
  · rw [hstats, hworld]
    exact last_of_counted hinv hcounted happlied hfirst

theorem balanced_of_before {w : World} (h : r.Standing) (hstage : r.stage = .before w) :
    r.Balanced := by
  have hquiet := h.quiet hstage
  have htransfer := transfer?_of_before hstage
  have hworld := world_of_before hstage
  have happlied : w.destination.appliedEntries = [] := by
    rw [Destination.appliedEntries, hquiet.batches]
    rfl
  have hread : r.entriesRead = [] := by
    unfold entriesRead
    rw [htransfer]
    cases r.plan.threshold? <;> rfl
  constructor
  · simp [hread, skippedCount, forwardedCount, held, stats, htransfer]
  · simp [held, htransfer]
  · simp [forwardedCount, queued, claimed, stats, htransfer]
  · simp [buffered, failedBatch, stats, htransfer]
  · rw [hworld, hquiet.flushes]
    exact Nat.zero_le _
  · simp [hworld, happlied, stats, htransfer]
  · simp [hworld, hquiet.batches, stats, htransfer]
  · simp [hworld, happlied, stats, htransfer]

theorem balanced_of_rest (h : Reachable r) (hrest : r.step? = none) : r.Balanced := by
  cases hstage : r.stage with
  | before w => exact balanced_of_before (reachable_standing h) hstage
  | moving t => exact balanced_of_moving h hstage hrest

theorem length_handedOut (h : Reachable r) : r.handedOut.length =
    r.stats.received + r.claimed.length + r.queued.length + r.held.length := by
  cases hstage : r.stage with
  | before w =>
    simp [handedOut_of_before hstage, stats, claimed, queued, held, transfer?_of_before hstage]
  | moving t =>
    obtain ⟨threshold, hthreshold, hinv⟩ := (reachable_standing h).invariant hstage
    rw [handedOut_of_moving hstage hthreshold, List.length_map, ← hinv.feed.content,
      stats_of_moving hstage, claimed_of_moving hstage, queued_of_moving hstage,
      held_of_moving hstage, List.length_append, List.length_append, hinv.received]

theorem Standing.starts (h : r.Standing) (hstage : r.stage = .moving t) (hfalse : r.isOver = false) :
    r.plan.Starts := by
  cases h with
  | fresh hbefore => cases hbefore.symm.trans hstage
  | misnamed hbefore => cases hbefore.symm.trans hstage
  | barred hbefore => cases hbefore.symm.trans hstage
  | streaming _ hstarts => exact hstarts
  | untimed _ _ _ _ _ _ _ _ hended => cases hended.closed.symm.trans hfalse
  | ended _ hstarts => exact hstarts

theorem receipts_of_untimed {e : ConversionError} (h : Reachable r)
    (hwait : r.plan.interval.wait? = .error e) (hstage : r.stage = .moving t) :
    t.receipts = [] := by
  induction h generalizing t with
  | made hmade =>
    cases hmade
    cases hstage
  | @step q r hq hstep ih =>
    have hstanding := reachable_standing hq
    have hplan := plan_of_step hstanding hstep
    rw [hplan] at hwait
    cases hbefore : q.stage with
    | before w =>
      obtain ⟨v, hquiet, _, _, _, hopens⟩ := opens_of_step hstanding hstep hbefore hstage
      cases hopens with
      | barred _ _ _ _ _ hbarred => cases hbarred.symm.trans hstage
      | untimed ns _ _ _ hevents hlater _ _ hmoving =>
        cases hmoving.symm.trans hstage
        exact ((hquiet.similar (World.similar_note hevents)).similar
          (World.similar_note hlater)).receipts
      | streams _ _ _ hok => cases hok.symm.trans hwait
    | moving v =>
      have hidle (hfalse : q.isOver = false) : False := by
        obtain ⟨interval, hok⟩ := (hstanding.starts hbefore hfalse).timed
        cases hok.symm.trans hwait
      have htouch (ht : Touches q r) : t.receipts = [] := by
        obtain ⟨u, hu, hbeside, _⟩ := ht.moving v hbefore
        cases hu.symm.trans hstage
        exact hbeside.receipts.trans (ih hwait hbefore)
      cases hstep with
      | start hstart =>
        obtain ⟨w, hw, _⟩ := hstanding.before_of_start? hstart
        cases hw.symm.trans hbefore
      | move hfalse => exact (hidle hfalse).elim
      | finish hfalse => exact (hidle hfalse).elim
      | pass moment _ => exact htouch (touches_pass q moment)
      | meet a ha => exact htouch (touches_act ha)

theorem receipts_of_over (h : Reachable r) (hstage : r.stage = .moving t)
    (hover : r.isOver = true) : t.receipts = t.sent := by
  have hstanding := reachable_standing h
  obtain ⟨threshold, _, hinv⟩ := hstanding.invariant hstage
  obtain ⟨horderly, _⟩ := reachable_orderly h hstage
  rcases hstanding.over_cases hstage hover with ⟨hnone, _, e, hwait, _⟩ | ⟨result, hdone, _⟩
  · rw [receipts_of_untimed h hwait hstage, Transfer.sent, hnone]
    rfl
  · have hs := hinv.standing
    rw [hdone] at hs
    have hunsent : t.unsent = [] := by simp [Transfer.unsent, hdone, hs.empty_of_done]
    rw [horderly.receipts, hunsent, List.append_nil]

/-- Nothing that was received is dropped: in the end all of it has been sent. -/
theorem received_of_over (h : Reachable r) (hover : r.isOver = true) :
    r.stats.received = (r.world.journal.flushes.flatMap Prod.snd).length := by
  have hstanding := reachable_standing h
  cases hstage : r.stage with
  | before w =>
    rw [world_of_before hstage, (hstanding.quiet hstage).flushes, stats,
      transfer?_of_before hstage]
    rfl
  | moving t =>
    obtain ⟨threshold, _, hinv⟩ := hstanding.invariant hstage
    obtain ⟨horderly, _⟩ := reachable_orderly h hstage
    have hreceived := hinv.received_eq horderly
    rw [receipts_of_over h hstage hover] at hreceived
    rw [stats_of_moving hstage, world_of_moving hstage]
    exact hreceived

def counted (r : Run) : List Entry :=
  (r.world.journal.flushes.take r.stats.batchesApplied).flatMap Prod.snd

theorem batchesApplied_le_of_step (h : Reachable r) (hs : r.Step s) :
    r.stats.batchesApplied ≤ s.stats.batchesApplied := by
  have hstanding := reachable_standing h
  cases hstage : r.stage with
  | before w =>
    have hzero : r.stats.batchesApplied = 0 := by simp [stats, transfer?_of_before hstage]
    rw [hzero]
    exact Nat.zero_le _
  | moving t =>
    obtain ⟨threshold, _, hinv⟩ := hstanding.invariant hstage
    obtain ⟨u, hu, hbeside | hcoordinate⟩ := beside_of_step hstanding hs hstage
    · rw [stats_of_moving hstage, stats_of_moving hu]
      exact Nat.le_of_eq hbeside.counted.symm
    · rw [stats_of_moving hstage, stats_of_moving hu]
      exact (hinv.acts hcoordinate).counted_le

theorem counted_of_step (h : Reachable r) (hs : r.Step s) : r.counted <+: s.counted := by
  have hflushes : r.world.journal.flushes <+: s.world.journal.flushes := by
    rcases sends_of_step h hs with hsame | ⟨b, hb, _⟩
    · rw [hsame]
    · rw [hb]
      exact List.prefix_append _ _
  have hcount := batchesApplied_le_of_step h hs
  exact ((hflushes.take _).trans (List.take_prefix_take_left hcount)).flatMap Prod.snd

theorem counted_of_leads (h : Reachable r) (hs : Leads r s) : r.counted <+: s.counted := by
  induction hs with
  | refl => exact List.prefix_refl _
  | tail hleads hstep ih => exact ih.trans (counted_of_step (h.leads hleads) hstep)

theorem lastApplied_eq (h : Reachable r) :
    r.stats.lastApplied = r.counted.getLast?.bind fun e => e.timestamp.timestamp? := by
  have hstanding := reachable_standing h
  cases hstage : r.stage with
  | before w =>
    have hflushes : r.world.journal.flushes = [] := by
      rw [world_of_before hstage]
      exact (hstanding.quiet hstage).flushes
    simp [stats, transfer?_of_before hstage, counted, hflushes]
  | moving t =>
    obtain ⟨threshold, _, hinv⟩ := hstanding.invariant hstage
    obtain ⟨settled, hcounted, hfirst, _⟩ := hinv.standing.counted
    have hsettled : r.counted = settled.flatMap Prod.snd := by
      have htake := List.prefix_iff_eq_take.mp hfirst
      rw [← hcounted.batches] at htake
      rw [counted, stats_of_moving hstage, world_of_moving hstage]
      exact congrArg _ htake.symm
    rw [stats_of_moving hstage, hsettled]
    show t.applier.last.timestamp? = _
    rw [hcounted.last]
    cases (settled.flatMap Prod.snd).getLast? <;> rfl

theorem counted_sublist (h : Reachable r) : r.counted.Sublist r.entriesRead := by
  have hstanding := reachable_standing h
  cases hstage : r.stage with
  | before w =>
    have hnone : r.counted = [] := by
      rw [counted, world_of_before hstage, (hstanding.quiet hstage).flushes, List.take_nil]
      rfl
    rw [hnone]
    exact List.nil_sublist _
  | moving t =>
    obtain ⟨threshold, hthreshold, hinv⟩ := hstanding.invariant hstage
    have hcounted : r.counted <+: t.sent := by
      rw [counted, world_of_moving hstage]
      exact (List.take_prefix _ _).flatMap Prod.snd
    rw [entriesRead_of_moving hstage hthreshold]
    exact (hcounted.trans hinv.sent_read).sublist.trans List.filter_sublist

theorem entriesRead_moments (r : Run) :
    ∀ e ∈ r.entriesRead, ∃ ts, e.timestamp = .timestamp ts := by
  intro e he
  unfold entriesRead at he
  split at he
  · exact Entry.moment_of_mem_handedOut he
  · cases he

theorem entriesRead_ascending (hlog : Document.Ascending r.world.oplog.documents) :
    r.entriesRead.Pairwise fun a b => ∀ x y, a.timestamp = .timestamp x →
      b.timestamp = .timestamp y → x ≤ y := by
  unfold entriesRead
  split
  · next threshold t _ htransfer =>
    rw [world_of_moving (moving_of_transfer? htransfer)] at hlog
    exact Entry.handedOut_ascending (hlog.sublist (List.take_sublist _ _))
  · exact .nil

theorem lastApplied_le (h : Reachable r) (hs : Leads r s)
    (hlog : Document.Ascending s.world.oplog.documents) {x : Timestamp}
    (hx : r.stats.lastApplied = some x) : ∃ y, s.stats.lastApplied = some y ∧ x ≤ y := by
  have hreach := h.leads hs
  have hread := counted_sublist hreach
  obtain ⟨more, hmore⟩ := counted_of_leads h hs
  rw [lastApplied_eq h] at hx
  rw [lastApplied_eq hreach]
  obtain ⟨e, he, hex⟩ := Option.bind_eq_some_iff.mp hx
  rcases List.eq_nil_or_concat more with rfl | ⟨others, e', rfl⟩
  · rw [← hmore, List.append_nil, he]
    exact ⟨x, hex, x.le_refl⟩
  -- the last entry counted by then was read later than the last one counted before
  · have hlast : s.counted.getLast? = some e' := by
      rw [← hmore]
      simp
    have hfirst : e ∈ s.counted := by simp [← hmore, List.mem_of_getLast? he]
    have hordered := (entriesRead_ascending hlog).sublist hread
    obtain ⟨x', hx'⟩ := entriesRead_moments s e (hread.subset hfirst)
    obtain ⟨y, hy⟩ := entriesRead_moments s e' (hread.subset (List.mem_of_getLast? hlast))
    have hsame : x' = x := by simpa [hx', Value.timestamp?] using hex
    rw [← hmore, List.pairwise_append] at hordered
    refine ⟨y, by simp [hlast, hy, Value.timestamp?], ?_⟩
    exact hordered.2.2 e (List.mem_of_getLast? he) e' (by simp) x y (hsame ▸ hx') hy

/-- Wherever a run has come to rest its counters agree with each other and with the destination; in
the end all that was received has been sent; and in a log whose timestamps do not go back the moment
of the last operation never does. -/
theorem counters_balance (h : Reachable r) :
    (r.step? = none → r.Balanced) ∧
    (r.isOver = true →
      r.stats.received = (r.world.journal.flushes.flatMap Prod.snd).length ∧
      (r.world.attached = true →
        r.stats.received = (r.world.destination.commands.flatMap Command.ops).length)) ∧
    ∀ s, Leads r s → Document.Ascending s.world.oplog.documents →
      ∀ x, r.stats.lastApplied = some x → ∃ y, s.stats.lastApplied = some y ∧ x ≤ y := by
  refine ⟨balanced_of_rest h, ?_, ?_⟩
  · intro hover
    have hreceived := received_of_over h hover
    refine ⟨hreceived, ?_⟩
    intro hattached
    rw [hreceived, commands_eq h, if_pos hattached]
    simp [List.length_flatMap, List.map_map, Function.comp_def, Command.ops_ofBatch, Entry.values]
  · intro s hs hlog x hx
    exact lastApplied_le h hs hlog hx

def laden : Run := paused [.delay (.whole 60), .append lateLog]

theorem reachable_laden : Reachable laden := reachable_paused _

/-- A run with entries wherever they can be, and one that has ended with a batch that failed. -/
theorem counters_balance_small :
    (Reachable laden ∧ laden.step?.isNone = true ∧ laden.Balanced ∧ laden.entriesRead.length = 7 ∧
      laden.held.length = 1 ∧ laden.queued.length = 1 ∧ laden.buffered = 2 ∧
      laden.stats.appliedTotal = 2) ∧
    ∃ r, Reachable r ∧ r.isOver = true ∧ r.Balanced ∧ r.failedBatch.length = 2 ∧
      r.stats.received = (r.world.journal.flushes.flatMap Prod.snd).length := by
  constructor
  · have hrest : laden.step?.isNone = true := by decide +kernel
    have hbalanced := (counters_balance reachable_laden).1 (Option.isNone_iff_eq_none.mp hrest)
    exact ⟨reachable_laden, hrest, hbalanced, by decide +kernel, by decide +kernel,
      by decide +kernel, by decide +kernel, by decide +kernel⟩
  · have hreach := (Reachable.made made_small).leads leads_rejected
    have hend := hreach.leads (leads_finish hreach)
    have hover : (Timed.finish rejected).isOver = true := by decide +kernel
    have hrest : (Timed.finish rejected).step?.isNone = true := by decide +kernel
    have hall := counters_balance hend
    exact ⟨_, hend, hover, hall.1 (Option.isNone_iff_eq_none.mp hrest), by decide +kernel,
      (hall.2.1 hover).1⟩

end Run

end OplogRelay
