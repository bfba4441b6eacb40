import OplogRelay.Proofs.Run.Moving
import OplogRelay.Proofs.Run.Order
/-!
Completeness: a run that nothing disturbs has applied, in the end, all that its forwarder read. If
the forwarder came to the end of the log, that is all there was to relay at that moment; if it
failed, it is what was handed out before, and the run reports that very failure.
-/
namespace OplogRelay

namespace Forwarder.Ending

def result (ending : Forwarder.Ending) : Except Failure Unit :=
  match ending.failure? with
  | some e => .error e
  | none => .ok ()

end Forwarder.Ending

namespace Transfer

variable {threshold : Timestamp} {t : Transfer} {ending : Forwarder.Ending}

/-- A transfer that has nothing left to do: its forwarder ended by itself, nothing of what it read
is on its way any more, and all that was sent has been applied. -/
structure Completed (t : Transfer) (ending : Forwarder.Ending) : Prop where
  even : t.Even
  empty : t.batch.entries = []
  drained : t.drained = true
  ended : t.forwarder.ending = some ending
  uncancelled : ending ≠ .cancelled

theorem Completed.unsent (h : t.Completed ending) : t.unsent = [] := by
  unfold Transfer.unsent
  split
  · rfl
  · rfl
  · exact h.empty

theorem Completed.taken (h : t.Completed ending) : t.taken = t.sent := by
  obtain ⟨_, _, hclaim⟩ := drained_iff.mp h.drained
  rw [Transfer.taken, h.unsent, hclaim, List.append_nil, List.append_nil]

theorem Invariant.counts (h : t.Invariant threshold) (hc : t.Completed ending) :
    t.received = t.sent.length ∧ t.applier.total = t.sent.length ∧
      t.forwarder.forwarded = t.sent.length := by
  obtain ⟨_, hqueue, hclaim⟩ := drained_iff.mp hc.drained
  refine ⟨?_, hc.even.counted.total, ?_⟩
  · have hreceived := h.received
    rw [hclaim, hc.taken] at hreceived
    exact hreceived
  · rw [h.feed.counted, hqueue, hc.taken]
    rfl

end Transfer

namespace Run

variable {r s b : Run}

def hasRead (r : Run) : Bool := (r.transfer?.map fun t => t.forwarder.finished).getD false

/-- The documents that the cursor handed out so far, without the no-ops. -/
def handedOut (r : Run) : List Document :=
  match r.plan.threshold?, r.transfer? with
  | .ok threshold, some t =>
    (Entry.forwardable threshold
      (t.oplog.documents.take t.forwarder.tail.cursor.position)).map Entry.raw
  | _, _ => []

/-- The step with which the forwarder of a run ends, some time before the run is `r`. -/
structure EndsReading (b s r : Run) : Prop where
  reachable : Reachable b
  step : b.Step s
  before : b.hasRead = false
  after : s.hasRead = true
  leads : Leads s r

theorem moving_of_hasRead (h : r.hasRead = true) :
    ∃ t, r.stage = .moving t ∧ t.forwarder.ending ≠ none := by
  cases hs : r.stage with
  | before w => simp [hasRead, transfer?, hs] at h
  | moving t =>
    refine ⟨t, rfl, ?_⟩
    simpa [hasRead, transfer?, hs, Forwarder.finished, Option.isSome_iff_ne_none] using h

theorem rests_or_works_of_step {t : Transfer} (h : Reachable r) (hs : r.Step s)
    (hstage : r.stage = .moving t) : ∃ u, s.stage = .moving u ∧
      (t.Rests u ∨ t.forward? = some u ∨ t.expire? = some u ∨
        t.forwarder.ending = none ∧ u.forwarder.ending = some .cancelled) := by
  have hr := reachable_standing h
  cases hs with
  | start hstart =>
    obtain ⟨w, hbefore, _⟩ := hr.before_of_start? hstart
    cases hbefore.symm.trans hstage
  | move _ hmoving _ hmoves =>
    cases hmoving.symm.trans hstage
    obtain ⟨threshold, _, hinv⟩ := hr.invariant hstage
    exact ⟨_, rfl, (hinv.moves_cases hmoves).imp_right (Or.imp_right .inl)⟩
  | @finish _ result _ hmoving _ =>
    cases hmoving.symm.trans hstage
    obtain ⟨events, outcome, _, _, heq⟩ := r.finish_of_moving result allResources hstage
    refine ⟨Transfer.note { t with forwarder := t.forwarder.cancel } events, by rw [heq], ?_⟩
    by_cases hlive : t.forwarder.ending = none
    · refine .inr (.inr (.inr ⟨hlive, ?_⟩))
      show t.forwarder.cancel.ending = _
      simp [Forwarder.cancel, Forwarder.finished, Forwarder.finish, hlive]
    · have hrests := Transfer.rests_cancel hlive
      exact .inl ⟨hrests.ending, hrests.position, hrests.grown⟩
  | pass moment _ =>
    obtain ⟨u, hu, _, hrests, _⟩ := (touches_pass r moment).moving t hstage
    exact ⟨u, hu, .inl hrests⟩
  | meet a ha =>
    obtain ⟨u, hu, _, hrests, _⟩ := (touches_act ha).moving t hstage
    exact ⟨u, hu, .inl hrests⟩

theorem rests_of_step {t : Transfer} (h : Reachable r) (hs : r.Step s)
    (hstage : r.stage = .moving t) (hended : t.forwarder.ending ≠ none) :
    ∃ u, s.stage = .moving u ∧ t.Rests u := by
  obtain ⟨u, hu, hrests | hforward | hexpire | ⟨hlive, _⟩⟩ := rests_or_works_of_step h hs hstage
  · exact ⟨u, hu, hrests⟩
  · obtain ⟨_, _, _, hlive, _⟩ := Transfer.forward?_eq hforward
    exact absurd hlive hended
  · obtain ⟨_, hlive, _⟩ := Transfer.expire?_eq hexpire
    exact absurd hlive hended
  · exact absurd hlive hended

theorem rests_of_leads {t : Transfer} (h : Reachable r) (hs : Leads r s)
    (hstage : r.stage = .moving t) (hended : t.forwarder.ending ≠ none) :
    ∃ u, s.stage = .moving u ∧ t.Rests u := by
  induction hs with
  | refl => exact ⟨t, hstage, .refl t⟩
  | tail hleads hstep ih =>
    obtain ⟨u, hu, hrests⟩ := ih
    obtain ⟨v, hv, hrests'⟩ := rests_of_step (h.leads hleads) hstep hu (by rwa [hrests.ending])
    exact ⟨v, hv, hrests.trans hrests'⟩

/-- The forwarder of a run reads on, but its wait for new entries has run out. -/
def HasLapsed (r : Run) : Prop :=
  ∃ t, r.stage = .moving t ∧ t.forwarder.ending = none ∧ t.forwarder.tail.phase = .lapsed

/-- In this run a wait for new entries ran out, and nothing has been looked at since. -/
inductive RanOut (q : Run) : Run → Prop where
  | expire {t u : Transfer} {p : Run} : Reachable q → q.Step p → q.stage = .moving t →
      p.stage = .moving u → t.expire? = some u → RanOut q p
  | step {o p : Run} : RanOut q o → o.Step p → p.HasLapsed → RanOut q p

theorem RanOut.leads {q : Run} (h : RanOut q r) : Reachable q ∧ Leads q r := by
  induction h with
  | expire hq hs => exact ⟨hq, .single hs⟩
  | step _ hs _ ih => exact ⟨ih.1, .tail ih.2 hs⟩

theorem RanOut.reachable {q : Run} (h : RanOut q r) : Reachable r := h.leads.1.leads h.leads.2

theorem RanOut.lapsed {q : Run} (h : RanOut q r) : r.HasLapsed := by
  cases h with
  | expire _ _ _ hu hexpire =>
    obtain ⟨forwarder, _, hf, rfl⟩ := Transfer.expire?_eq hexpire
    obtain ⟨hlive, tail, htail, rfl⟩ := Forwarder.expire?_cases hf
    obtain ⟨_, _, _, rfl⟩ := Tail.expire?_eq_some htail
    exact ⟨_, hu, hlive, rfl⟩
  | step _ _ hlapsed => exact hlapsed

theorem lapsed_of_step {u : Transfer} (h : Reachable r) (hs : r.Step s) (hu : s.stage = .moving u)
    (hlive : u.forwarder.ending = none) (hphase : u.forwarder.tail.phase = .lapsed) :
    ∃ t, r.stage = .moving t ∧ (t.expire? = some u ∨
      t.forwarder.ending = none ∧ t.forwarder.tail.phase = .lapsed ∧ t.Rests u) := by
  have hstanding := reachable_standing h
  cases hstage : r.stage with
  | before w =>
    obtain ⟨v, ns, threshold, interval, _, _, rfl⟩ := start_of_step hstanding hs hstage hu
    cases hphase
  | moving t =>
    refine ⟨t, rfl, ?_⟩
    obtain ⟨threshold, _, hinv⟩ := hstanding.invariant hstage
    obtain ⟨v, hv, hcases⟩ := rests_or_works_of_step h hs hstage
    cases hv.symm.trans hu
    rcases hcases with hrests | hforward | hexpire | ⟨_, hcancelled⟩
    · obtain ⟨v, hv, hgoes⟩ := goes_of_step hstanding hs hstage
      cases hv.symm.trans hu
      rcases hgoes.lapsed hinv hlive hphase with hexpire | hlapsed
      · exact .inl hexpire
      · exact .inr ⟨hrests.ending.symm.trans hlive, hlapsed, hrests⟩
    · obtain ⟨oplog, forwarder, events, _, hf, rfl⟩ := Transfer.forward?_eq hforward
      exact absurd hphase (hinv.feed.not_lapsed_of_step? hf)
    · exact .inl hexpire
    · cases hlive.symm.trans hcancelled

theorem RanOut.place {q : Run} {u : Transfer} (h : RanOut q r) (hstage : r.stage = .moving u) :
    u.forwarder.tail.cursor.position = q.world.oplog.documents.length ∧
      q.world.oplog.documents <+: u.oplog.documents := by
  induction h generalizing u with
  | @expire t _ _ hq _ ht hu hexpire =>
    cases hu.symm.trans hstage
    obtain ⟨threshold, _, hinv⟩ := (reachable_standing hq).invariant ht
    rw [world_of_moving ht]
    obtain ⟨forwarder, hlive, hf, rfl⟩ := Transfer.expire?_eq hexpire
    obtain ⟨_, tail, htail, rfl⟩ := Forwarder.expire?_cases hf
    obtain ⟨due, hwaits, _, rfl⟩ := Tail.expire?_eq_some htail
    exact ⟨(hinv.feed.live hlive).caught_up _ hwaits, List.prefix_refl _⟩
  | step hran hs hlapsed ih =>
    obtain ⟨v, hv, hlive, hphase⟩ := hlapsed
    cases hv.symm.trans hstage
    obtain ⟨t, ht, hcases⟩ := lapsed_of_step hran.reachable hs hstage hlive hphase
    obtain ⟨t', ht', _, hbefore⟩ := hran.lapsed
    cases ht'.symm.trans ht
    rcases hcases with hexpire | ⟨_, _, hrests⟩
    · obtain ⟨forwarder, _, hf, rfl⟩ := Transfer.expire?_eq hexpire
      obtain ⟨_, tail, htail, rfl⟩ := Forwarder.expire?_cases hf
      obtain ⟨due, hwaits, _, rfl⟩ := Tail.expire?_eq_some htail
      cases hbefore.symm.trans hwaits
    · obtain ⟨hplace, hwithin⟩ := ih ht
      exact ⟨hrests.position.trans hplace, hwithin.trans hrests.grown⟩

theorem EndsReading.cases (h : EndsReading b s r) :
    ∃ t u, s.stage = .moving t ∧ r.stage = .moving u ∧ t.Rests u ∧ s.plan = r.plan := by
  have hs := h.reachable.step h.step
  obtain ⟨t, hstage, hended⟩ := moving_of_hasRead h.after
  obtain ⟨u, hu, hrests⟩ := rests_of_leads hs h.leads hstage hended
  exact ⟨t, u, hstage, hu, hrests, (plan_of_leads hs h.leads).symm⟩

/-- Counters and destination agree on some documents: they were forwarded, received and applied, and
no others. -/
structure Relayed (r : Run) (stats : Stats) (docs : List Document) : Prop where
  entries : r.world.destination.appliedEntries = docs.map Value.document
  forwarded : stats.forwarder.map ForwarderStats.forwarded = some docs.length
  received : stats.received = docs.length
  applied : stats.appliedTotal = docs.length

theorem handedOut_of_before {w : World} (hstage : r.stage = .before w) : r.handedOut = [] := by
  unfold handedOut
  rw [transfer?_of_before hstage]
  cases r.plan.threshold? <;> rfl

theorem handedOut_of_moving {t : Transfer} {threshold : Timestamp} (hstage : r.stage = .moving t)
    (hthreshold : r.plan.threshold? = .ok threshold) :
    r.handedOut = (Entry.forwardable threshold
      (t.oplog.documents.take t.forwarder.tail.cursor.position)).map Entry.raw := by
  simp only [handedOut, hthreshold, transfer?_of_moving hstage]

theorem Relayed.reported {stats : Stats} {docs : List Document} (h : r.Relayed r.stats docs)
    (hreports : r.Reports (.ok ())) (hok : r.outcome = some (.ok stats)) :
    r.Relayed stats docs := by
  obtain ⟨stats', hok', _, hreceived, _, htotal, _, hforwarded⟩ := hreports
  cases hok'.symm.trans hok
  exact ⟨h.entries, hforwarded.trans h.forwarded, hreceived.trans h.received,
    htotal.trans h.applied⟩

end Run

end OplogRelay
