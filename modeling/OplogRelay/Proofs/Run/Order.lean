import Mathlib.Data.List.Infix
import OplogRelay.Proofs.Run.Timelines
/-!
Order: what the destination receives is the beginning of what is to be relayed, in the order of the
log, and what it applies is the beginning of what it received. Nothing is left out in between, and
nothing comes twice.
-/
namespace OplogRelay

namespace Transfer

variable {threshold : Timestamp} {t : Transfer}

theorem sent_prefix_taken (t : Transfer) : t.sent <+: t.taken := by
  rw [taken, List.append_assoc]
  exact List.prefix_append _ _

theorem Invariant.sent_read (h : t.Invariant threshold) :
    t.sent <+: Entry.forwardable threshold
      (t.oplog.documents.take t.forwarder.tail.cursor.position) := by
  rw [← h.feed.content, List.append_assoc]
  exact (sent_prefix_taken t).trans (List.prefix_append _ _)

theorem Invariant.sent_prefix (h : t.Invariant threshold) :
    t.sent.map Entry.raw <+: Document.relayable threshold t.oplog.documents :=
  (h.sent_read.map Entry.raw).trans h.feed.selected

theorem Invariant.relayed (h : t.Invariant threshold) :
    t.destination.commands.flatMap Command.ops <+:
        (Document.relayable threshold t.oplog.documents).map Value.document ∧
      t.destination.appliedEntries <+: t.destination.commands.flatMap Command.ops := by
  obtain ⟨settled, happlied, hfirst, _⟩ := h.standing.applied
  rw [happlied.ops, happlied.entries]
  by_cases ha : t.attached = true
  · rw [if_pos ha]
    refine ⟨?_, (hfirst.flatMap Prod.snd).map _⟩
    rw [Entry.values_eq]
    exact h.sent_prefix.map _
  · rw [if_neg ha, happlied.attached (by simpa using ha)]
    exact ⟨List.nil_prefix, List.prefix_refl _⟩

end Transfer

namespace Run

/-- What is to be relayed of the log as it is: from the threshold on, without the no-ops. -/
def relayable (r : Run) : List Document :=
  match r.plan.threshold? with
  | .ok threshold => Document.relayable threshold r.world.oplog.documents
  | .error _ => []

/-- At every moment of every run. -/
theorem relayed_in_order {r : Run} (h : Reachable r) :
    r.world.destination.commands.flatMap Command.ops <+: r.relayable.map Value.document ∧
      r.world.destination.appliedEntries <+: r.world.destination.commands.flatMap Command.ops := by
  have hr := reachable_standing h
  cases hs : r.stage with
  | before w =>
    have hquiet := hr.quiet hs
    rw [world_of_before hs, Destination.appliedEntries, hquiet.commands, hquiet.batches]
    exact ⟨List.nil_prefix, List.prefix_refl _⟩
  | moving t =>
    obtain ⟨threshold, hthreshold, hinv⟩ := hr.invariant hs
    rw [relayable, hthreshold, world_of_moving hs]
    exact hinv.relayed

/-- Two batches, the second one of an entry that was appended late. -/
theorem relayed_in_order_small : ∃ r, Reachable r ∧
    r.world.destination.commands.length = 2 ∧ r.relayable.length = 3 ∧
    r.world.destination.commands.flatMap Command.ops <+: r.relayable.map Value.document ∧
    r.world.destination.appliedEntries <+: r.world.destination.commands.flatMap Command.ops := by
  refine ⟨small [.append [entryAt { seconds := 99003, counter := 1 } "d"]], reachable_small _,
    by decide +kernel, by decide +kernel, ?_⟩
  exact relayed_in_order (reachable_small _)

end Run

end OplogRelay
