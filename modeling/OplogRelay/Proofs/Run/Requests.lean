import OplogRelay.Proofs.Run.Batching
import OplogRelay.Proofs.Run.Moving
import OplogRelay.Proofs.Transfer.Winding
/-!
Requests to stop stay made, and from the moment of a request on every entry that is received and
every batch that is sent takes a round. Of these there are two at most, and one once the coordinator
has heard of the request; and that it has wherever the run rests.
-/
namespace OplogRelay.Run

variable {r s u : Run} {t : Transfer}

theorem kept_of_opens {w : World} (h : r.Opens w s) : s.started = r.started ∧
    s.world.shutdown = w.shutdown ∧ s.world.attached = w.attached := by
  cases h with
  | barred _ _ _ _ hstarted hstage =>
    rw [world_of_before hstage]
    exact ⟨hstarted, rfl, rfl⟩
  | untimed _ _ _ _ _ _ _ hstarted hstage =>
    rw [world_of_moving hstage]
    exact ⟨hstarted, rfl, rfl⟩
  | streams => exact ⟨rfl, rfl, rfl⟩

theorem asked_of_step (h : Reachable r) (hs : r.Step s) (hasked : r.isAsked = true) :
    s.isAsked = true := by
  have hstanding := reachable_standing h
  cases hs with
  | start hstart =>
    obtain ⟨w, hstage, _⟩ := hstanding.before_of_start? hstart
    obtain ⟨hstarted, rfl⟩ := begun_of_start? hstart
    -- the event that is waited on is the one of the caller, if that is given, and else its own
    have hrequest : r.callerRequest.getD r.ownRequest = true := by
      simpa [isAsked, hstarted] using hasked
    rcases begun_cases hstage with ⟨e, _, heq⟩ | hopens
    · rw [heq]
      simpa [isAsked, asked, world, Stage.world, onWorld, Stage.onWorld, hstage] using hrequest
    · obtain ⟨hsame, hshutdown, _⟩ := kept_of_opens hopens
      rw [isAsked, hsame, hshutdown]
      exact hrequest
  | @move t u _ hstage _ hmoves =>
    obtain ⟨threshold, _, hinv⟩ := hstanding.invariant hstage
    have hkept := hinv.asked_of_moves hmoves
    unfold isAsked at hasked ⊢
    rw [world_of_moving hstage] at hasked
    split at hasked
    · next hstarted => rw [if_pos hstarted]; exact hkept hasked
    · next hnot => rw [if_neg hnot]; exact hasked
  | @finish t result _ hstage _ =>
    obtain ⟨events, outcome, _, _, heq⟩ := r.finish_of_moving result allResources hstage
    rw [heq]
    unfold isAsked at hasked ⊢
    rw [world_of_moving hstage] at hasked
    exact hasked
  | pass moment _ => exact (touches_pass r moment).asked hasked
  | meet a ha => exact (touches_act ha).asked hasked

theorem attached_of_step (h : Reachable r) (hs : r.Step s) :
    s.world.attached = r.world.attached := by
  have hstanding := reachable_standing h
  cases hs with
  | start hstart =>
    obtain ⟨w, hstage, _⟩ := hstanding.before_of_start? hstart
    obtain ⟨_, rfl⟩ := begun_of_start? hstart
    rw [world_of_before hstage]
    rcases begun_cases hstage with ⟨e, _, heq⟩ | hopens
    · rw [heq]
      simp [asked, world, Stage.world, onWorld, Stage.onWorld, hstage]
    · exact (kept_of_opens hopens).2.2
  | @move t u _ hstage _ hmoves =>
    obtain ⟨threshold, _, hinv⟩ := hstanding.invariant hstage
    rw [world_of_moving hstage]
    rcases hinv.beside_or_coordinate hmoves with hbeside | hcoordinate
    · exact hbeside.attached
    · exact (hinv.coordinate?_advances hcoordinate).attached
  | @finish t result _ hstage _ =>
    obtain ⟨events, outcome, _, _, heq⟩ := r.finish_of_moving result allResources hstage
    rw [heq, world_of_moving hstage]
    rfl
  | pass moment _ => exact (touches_pass r moment).attached
  | meet a ha => exact (touches_act ha).attached

theorem Standing.started_of_moving (h : r.Standing) (hstage : r.stage = .moving t) :
    r.started = true := by
  cases h with
  | fresh hbefore => cases hbefore.symm.trans hstage
  | misnamed hbefore => cases hbefore.symm.trans hstage
  | barred hbefore => cases hbefore.symm.trans hstage
  | streaming _ _ _ _ hstarted => exact hstarted
  | untimed _ _ _ _ hstarted => exact hstarted
  | ended _ _ _ _ hstarted => exact hstarted

theorem shutdown_of_asked (h : Reachable r) (hstage : r.stage = .moving t)
    (hasked : r.isAsked = true) : t.shutdown = true := by
  have hstarted := (reachable_standing h).started_of_moving hstage
  rw [isAsked, if_pos hstarted, world_of_moving hstage] at hasked
  exact hasked

/-- The request is known to the coordinator. One that is made before a run streams is known from the
beginning. -/
def hasHeard (r : Run) : Bool := r.isAsked && r.transfer?.all fun t => t.heard

theorem heard_of_hasHeard (h : r.hasHeard = true) (hstage : r.stage = .moving t) : t.heard = true := by
  rw [hasHeard, transfer?_of_moving hstage, Bool.and_eq_true] at h
  exact h.2

theorem hasHeard_of_rest (h : Reachable r) (hasked : r.isAsked = true) (hlive : r.isOver = false)
    (hrest : r.step? = none) : r.hasHeard = true := by
  rw [hasHeard, hasked, Bool.true_and]
  cases hstage : r.stage with
  | before w => rw [transfer?_of_before hstage, Option.all_none]
  | moving t =>
    rw [transfer?_of_moving hstage, Option.all_some]
    have hdone : t.isDone = false := by
      by_contra hdone
      obtain ⟨result, hphase⟩ := Transfer.done_of_isDone (by simpa using hdone)
      cases (step?_of_done hlive hstage hphase).symm.trans hrest
    have hstill := (step?_eq_none_iff hlive hstage hdone).mp hrest
    exact Transfer.heard_of_rest hstill hdone (shutdown_of_asked h hstage hasked)

def openings (r : Run) : Nat := (r.transfer?.map Transfer.openings).getD 1

/-- What becomes of a run after a request: a batch or an entry costs a round. -/
structure Winds (r s : Run) : Prop where
  received : s.stats.received + s.openings ≤ r.stats.received + r.openings
  sends : ∃ batches, s.world.journal.flushes = r.world.journal.flushes ++ batches ∧
    batches.length + s.openings ≤ r.openings

theorem openings_le (r : Run) : r.openings ≤ 2 := by
  unfold openings
  cases r.transfer? with
  | none => decide
  | some t => exact t.openings_le

theorem openings_of_moving (hstage : r.stage = .moving t) : r.openings = t.openings := by
  rw [openings, transfer?_of_moving hstage]
  rfl

theorem openings_le_of_heard (h : r.hasHeard = true) : r.openings ≤ 1 := by
  cases hstage : r.stage with
  | before w =>
    rw [openings, transfer?_of_before hstage]
    exact Nat.le_refl 1
  | moving t =>
    rw [openings_of_moving hstage]
    exact Transfer.openings_le_of_heard (heard_of_hasHeard h hstage)

theorem Winds.of_moving {v : Transfer} (hr : r.stage = .moving t) (hs : s.stage = .moving v)
    (h : t.Winds v) : r.Winds s := by
  constructor
  · rw [stats_of_moving hr, stats_of_moving hs, openings_of_moving hr, openings_of_moving hs]
    exact h.received
  · rw [world_of_moving hr, world_of_moving hs, openings_of_moving hr, openings_of_moving hs]
    rcases h.sends with ⟨hsame, hopen⟩ | ⟨b, hb, hopen⟩
    · exact ⟨[], hsame.trans (List.append_nil _).symm, by simpa using hopen⟩
    · refine ⟨[b], hb, ?_⟩
      rw [List.length_singleton]
      omega

theorem Winds.refl (r : Run) : r.Winds r :=
  ⟨Nat.le_refl _, [], (List.append_nil _).symm, Nat.le_of_eq (Nat.zero_add _)⟩

theorem Winds.trans (h : r.Winds s) (h' : s.Winds u) : r.Winds u where
  received := Nat.le_trans h'.received h.received
  sends := by
    obtain ⟨batches, hsent, hopen⟩ := h.sends
    obtain ⟨more, hmore, hopen'⟩ := h'.sends
    refine ⟨batches ++ more, by rw [hmore, hsent, List.append_assoc], ?_⟩
    rw [List.length_append]
    omega

theorem received_of_opens {w : World} (h : r.Opens w s) : s.stats.received = 0 := by
  cases h with
  | barred _ _ _ _ _ hstage => simp [stats, transfer?_of_before hstage]
  | untimed _ _ _ _ _ _ _ _ hstage =>
    rw [stats_of_moving hstage]
    rfl
  | streams => rfl

theorem winds_of_before {w : World} (h : Reachable r) (hs : r.Step s) (hasked : r.isAsked = true)
    (hbefore : r.stage = .before w) : r.Winds s := by
  have hstanding := reachable_standing h
  have hopen : r.openings = 1 := by simp [openings, transfer?_of_before hbefore]
  have hreceived : s.stats.received = 0 := by
    cases hstage : s.stage with
    | before v => simp [stats, transfer?_of_before hstage]
    | moving t =>
      obtain ⟨v, _, _, _, _, hopens⟩ := opens_of_step hstanding hs hbefore hstage
      exact received_of_opens hopens
  have hflushes := flushes_of_step_before hstanding hs hbefore
  have hnone : r.world.journal.flushes = [] := by
    rw [world_of_before hbefore]
    exact (hstanding.quiet hbefore).flushes
  have hle : s.openings ≤ 1 := by
    cases hstage : s.stage with
    | before v =>
      rw [openings, transfer?_of_before hstage]
      exact Nat.le_refl 1
    | moving t =>
      obtain ⟨v, ns, threshold, interval, _, _, rfl⟩ := start_of_step hstanding hs hbefore hstage
      rw [openings_of_moving hstage]
      refine Transfer.openings_le_of_heard ?_
      exact shutdown_of_asked (h.step hs) hstage (asked_of_step h hs hasked)
  refine ⟨by omega, [], ?_, by simpa [hopen] using hle⟩
  rw [hflushes, hnone, List.append_nil]

theorem winds_of_step (h : Reachable r) (hs : r.Step s) (hasked : r.isAsked = true) :
    r.Winds s := by
  have hstanding := reachable_standing h
  cases hstage : r.stage with
  | before w => exact winds_of_before h hs hasked hstage
  | moving t =>
    obtain ⟨threshold, _, hinv⟩ := hstanding.invariant hstage
    obtain ⟨v, hv, hbeside | hcoordinate⟩ := beside_of_step hstanding hs hstage
    · obtain ⟨threshold', _, hinv'⟩ := (reachable_standing (h.step hs)).invariant hv
      refine .of_moving hstage hv (.of_same ?_ hbeside.flushes ?_)
      · rw [hinv.received_eq (reachable_orderly h hstage).1,
          hinv'.received_eq (reachable_orderly (h.step hs) hv).1, hbeside.receipts]
      · exact hbeside.openings_le
    · have hshutdown := shutdown_of_asked h hstage hasked
      have hlistens := Transfer.listens_of_coordinate? hcoordinate
      exact .of_moving hstage hv ((hinv.acts hcoordinate).winds hlistens hshutdown)

theorem winds_of_leads (h : Reachable r) (hasked : r.isAsked = true) (hs : Leads r s) :
    r.Winds s ∧ s.isAsked = true ∧ s.world.attached = r.world.attached := by
  induction hs with
  | refl => exact ⟨.refl r, hasked, rfl⟩
  | tail hleads hstep ih =>
    obtain ⟨hwinds, hasked', hattached⟩ := ih
    have hreach := h.leads hleads
    refine ⟨hwinds.trans (winds_of_step hreach hstep hasked'), ?_, ?_⟩
    · exact asked_of_step hreach hstep hasked'
    · exact (attached_of_step hreach hstep).trans hattached

theorem receipts_of_closed (h : Reachable r) (hclosed : r.openings = 0) :
    r.world.journal.receipts = r.world.journal.flushes.flatMap Prod.snd := by
  cases hstage : r.stage with
  | before w => simp [openings, transfer?_of_before hstage] at hclosed
  | moving t =>
    obtain ⟨threshold, _, hinv⟩ := (reachable_standing h).invariant hstage
    obtain ⟨horderly, _⟩ := reachable_orderly h hstage
    rw [openings_of_moving hstage] at hclosed
    have hreceipts := horderly.receipts
    rw [hinv.unsent_of_closed hclosed, List.append_nil] at hreceipts
    rw [world_of_moving hstage]
    exact hreceipts

end OplogRelay.Run
