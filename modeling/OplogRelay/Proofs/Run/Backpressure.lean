import OplogRelay.Proofs.Run.Conservation
/-!
Backpressure: what a run has read and the destination has not applied yet is bounded, however long
the log is and however slow the destination. The bound is two entries more than fit into a batch: one
in the queue, one that the forwarder holds, and no third one in a claim, which keeps a place of the
batch while it is open.
-/
namespace OplogRelay.Run

variable {r : Run}

theorem length_claimed_le (r : Run) : r.claimed.length ≤ 1 := by
  unfold claimed
  cases r.transfer? with
  | none => exact Nat.zero_le 1
  | some t => exact Nat.le_trans t.claim.entries_le t.claim.places_le

theorem length_queued_le (h : Reachable r) : r.queued.length ≤ 1 := by
  cases hstage : r.stage with
  | before w => simp [queued, transfer?_of_before hstage]
  | moving t =>
    obtain ⟨threshold, _, hinv⟩ := (reachable_standing h).invariant hstage
    obtain ⟨horderly, _⟩ := reachable_orderly h hstage
    have hroom := hinv.feed.room
    rw [horderly.handoff] at hroom
    rw [queued_of_moving hstage]
    exact hroom

/-- What was received or claimed and is not applied yet fits into a batch. -/
theorem received_claimed_le (h : Reachable r) : r.stats.received + r.claimed.length ≤
    r.world.destination.appliedEntries.length + r.plan.capacity := by
  cases hstage : r.stage with
  | before w => simp [stats, claimed, transfer?_of_before hstage]
  | moving t =>
    obtain ⟨threshold, _, hinv⟩ := (reachable_standing h).invariant hstage
    obtain ⟨horderly, hcap⟩ := reachable_orderly h hstage
    have hreceived : r.stats.received = t.sent.length + t.unsent.length := by
      rw [← List.length_append, ← horderly.receipts, ← hinv.received_eq horderly,
        stats_of_moving hstage]
    have hclaim := t.claim.entries_le
    have hplaces := horderly.places
    rw [hreceived, claimed_of_moving hstage, world_of_moving hstage, ← hcap]
    omega

theorem applied_prefix (h : Reachable r) :
    r.world.destination.appliedEntries <+: r.handedOut.map Value.document := by
  have hstanding := reachable_standing h
  cases hstage : r.stage with
  | before w =>
    rw [world_of_before hstage, Destination.appliedEntries, (hstanding.quiet hstage).batches]
    exact List.nil_prefix
  | moving t =>
    obtain ⟨threshold, hthreshold, hinv⟩ := hstanding.invariant hstage
    obtain ⟨settled, happlied, hfirst, _⟩ := hinv.standing.applied
    have hread : settled.flatMap Prod.snd <+: Entry.forwardable threshold
        (t.oplog.documents.take t.forwarder.tail.cursor.position) :=
      (hfirst.flatMap Prod.snd).trans hinv.sent_read
    rw [world_of_moving hstage, happlied.entries, handedOut_of_moving hstage hthreshold,
      ← Entry.values_eq]
    exact hread.map _

/-- What was read falls into what is applied and what is on its way, and of the latter there are no
more entries than fit into a batch and two. -/
theorem backpressure (h : Reachable r) : ∃ underWay,
    r.handedOut.map Value.document = r.world.destination.appliedEntries ++ underWay ∧
      underWay.length ≤ r.plan.capacity + 2 := by
  obtain ⟨underWay, hsplit⟩ := applied_prefix h
  have hlength := congrArg List.length hsplit
  have hread := length_handedOut h
  have hplaces := received_claimed_le h
  have hqueued := length_queued_le h
  have hheld := r.length_held_le
  rw [List.length_append, List.length_map] at hlength
  exact ⟨underWay, hsplit.symm, by omega⟩

/-- The bound is attained. -/
theorem backpressure_laden : ∃ underWay, Reachable laden ∧ laden.handedOut.map Value.document =
    laden.world.destination.appliedEntries ++ underWay ∧
    underWay.length ≤ laden.plan.capacity + 2 ∧ laden.plan.capacity + 2 ≤ underWay.length := by
  obtain ⟨underWay, hsplit, hle⟩ := backpressure reachable_laden
  have hread : laden.handedOut.length = 6 := by decide +kernel
  have happlied : laden.world.destination.appliedEntries.length = 2 := by decide +kernel
  have hcapacity : laden.plan.capacity = 2 := by decide +kernel
  have hlength := congrArg List.length hsplit
  rw [List.length_append, List.length_map] at hlength
  exact ⟨underWay, reachable_laden, hsplit, hle, by omega⟩

end OplogRelay.Run
