import OplogRelay.Proofs.Run.Resources
/-!
The lifecycle of a run. A step leaves it or moves it one place on; where it has stopped or failed it
stays. Batches are sent while it streams and at no other time, it comes to stream with all resources
open, and it stops only with nothing left undone. Starting a run twice changes nothing.
-/
namespace OplogRelay

namespace Lifecycle

/-- The places that come after a place. -/
inductive Next : Lifecycle → Lifecycle → Prop where
  | streams : Next .initializing .streaming
  | bars : Next .initializing .fatal
  | stops : Next .streaming .stopped
  | fails : Next .streaming .fatal

def isFinal : Lifecycle → Bool
  | .stopped | .fatal => true
  | .initializing | .streaming => false

theorem not_next_of_final {before after : Lifecycle} (h : before.isFinal = true) :
    ¬ before.Next after := by
  intro hnext
  cases hnext <;> cases h

end Lifecycle

namespace Run

variable {r s : Run} {t : Transfer}

theorem lifecycleAfter_streaming (result : Except Failure Unit) :
    lifecycleAfter .streaming result = .streaming ∨
      Lifecycle.Next .streaming (lifecycleAfter .streaming result) := by
  cases result with
  | ok => exact .inr .stops
  | error e =>
    unfold lifecycleAfter
    dsimp only
    split
    · exact .inr .fails
    · exact .inl rfl

theorem lifecycleAfter_initializing (e : Failure) :
    lifecycleAfter .initializing (.error e) = .initializing ∨
      Lifecycle.Next .initializing (lifecycleAfter .initializing (.error e)) := by
  unfold lifecycleAfter
  dsimp only
  split
  · exact .inr .bars
  · exact .inl rfl

theorem lifecycle_of_start (hr : r.Standing) (hstart : r.start? = .ok s) :
    r.lifecycle = .initializing ∧
      (s.lifecycle = .initializing ∨ Lifecycle.Next .initializing s.lifecycle) := by
  obtain ⟨w, hstage, _, _, _, _, hlife⟩ := hr.before_of_start? hstart
  refine ⟨hlife, ?_⟩
  rw [(begun_of_start? hstart).2]
  rcases begun_cases hstage with ⟨e, _, heq⟩ | hopens
  · rw [heq]
    exact .inl hlife
  · have hasked : r.asked.lifecycle = .initializing := hlife
    generalize r.begun = u at hopens
    cases hopens with
    | barred _ _ _ _ _ _ hended =>
      rw [hended.lifecycle, hasked]
      exact lifecycleAfter_initializing _
    | untimed _ _ _ _ _ _ _ _ _ hended =>
      rw [hended.lifecycle]
      exact .inr .streams
    | streams => exact .inr .streams

/-- The lifecycle goes one place on at most. -/
theorem lifecycle_of_step (hr : r.Standing) (hs : r.Step s) :
    s.lifecycle = r.lifecycle ∨ r.lifecycle.Next s.lifecycle := by
  cases hs with
  | start hstart =>
    obtain ⟨hinit, hnext⟩ := lifecycle_of_start hr hstart
    rw [hinit]
    exact hnext
  | move => exact .inl rfl
  | @finish t result hlive hstage _ =>
    rw [(ended_finish_of_moving result allResources hstage).lifecycle,
      hr.lifecycle_of_live hstage hlive]
    exact lifecycleAfter_streaming result
  | pass moment _ => exact .inl (touches_pass r moment).lifecycle
  | meet a ha => exact .inl (touches_act ha).lifecycle

theorem lifecycle_of_leads (h : Reachable r) (hs : Leads r s) (hfinal : r.lifecycle.isFinal = true) :
    s.lifecycle = r.lifecycle := by
  induction hs with
  | refl => rfl
  | tail hleads hstep ih =>
    rcases lifecycle_of_step (reachable_standing (h.leads hleads)) hstep with hsame | hnext
    · exact hsame.trans ih
    · rw [ih] at hnext
      exact absurd hnext (Lifecycle.not_next_of_final hfinal)

theorem flushes_of_touches (hr : r.Standing) (ht : Touches r s) :
    s.world.journal.flushes = r.world.journal.flushes := by
  cases hstage : r.stage with
  | before w =>
    obtain ⟨v, hv, hkeep⟩ := ht.before w hstage
    have hquiet := hr.quiet hstage
    rw [world_of_before hv, world_of_before hstage, (hkeep hquiet).flushes, hquiet.flushes]
  | moving t =>
    obtain ⟨u, hu, hbeside, _⟩ := ht.moving t hstage
    rw [world_of_moving hu, world_of_moving hstage]
    exact hbeside.flushes

theorem streaming_of_flushes (hr : r.Standing) (hs : r.Step s)
    (hsent : s.world.journal.flushes ≠ r.world.journal.flushes) :
    r.lifecycle = .streaming ∧ s.lifecycle = .streaming := by
  cases hs with
  | start hstart =>
    obtain ⟨w, hstage, hquiet, _⟩ := hr.before_of_start? hstart
    refine absurd ?_ hsent
    rw [flushes_of_step_before hr (.start hstart) hstage, world_of_before hstage, hquiet.flushes]
  | move hlive hstage =>
    have hlife := hr.lifecycle_of_live hstage hlive
    exact ⟨hlife, hlife⟩
  | @finish t result _ hstage _ =>
    obtain ⟨events, outcome, hevents, _, heq⟩ := r.finish_of_moving result allResources hstage
    refine absurd ?_ hsent
    rw [heq, world_of_moving hstage]
    exact Journal.flushes_of_account (Journal.account_note_of_tellNoBatch hevents)
  | pass moment _ => exact absurd (flushes_of_touches hr (touches_pass r moment)) hsent
  | meet a ha => exact absurd (flushes_of_touches hr (touches_act ha)) hsent

theorem streaming_of_commands (h : Reachable r) (hs : r.Step s)
    (hsent : s.world.destination.commands ≠ r.world.destination.commands) :
    r.lifecycle = .streaming ∧ s.lifecycle = .streaming := by
  refine streaming_of_flushes (reachable_standing h) hs fun hsame => hsent ?_
  rw [commands_eq (h.step hs), commands_eq h, attached_of_step h hs, hsame]

/-- Streaming begins with all resources open, and a run streams or has stopped only after that. -/
structure StreamsOpen (r : Run) : Prop where
  opened : ∀ a b moment, r.world.journal = a ++ (moment, .streaming) :: b →
    Journal.obtained a = Resource.order ∧ Journal.released a = []
  begun : r.lifecycle = .streaming ∨ r.lifecycle = .stopped →
    ∃ moment, (moment, Event.streaming) ∈ r.world.journal

theorem streaming_notMem_opening (held refused : List Resource) :
    Event.streaming ∉ opening held refused := by
  simp [opening]

theorem streaming_notMem_returns {plan : Plan} {held : List Resource} {given : List Event}
    (h : given <+: plan.returns held) : Event.streaming ∉ given := by
  intro hmem
  obtain ⟨resource, _, hmem⟩ := List.mem_flatMap.mp (h.subset hmem)
  simp at hmem

theorem landmarks_of_split {j a b : Journal} {before after : List Event} {moment : Nat} {ev : Event}
    (hev : ev.isLandmark = true) (hbefore : ev ∉ before) (hafter : ev ∉ after)
    (hmarks : j.landmarks = before ++ ev :: after) (hsplit : j = a ++ (moment, ev) :: b) :
    a.landmarks = before := by
  have hwhole : j.landmarks = a.landmarks ++ ev :: b.landmarks := by
    rw [hsplit, Journal.landmarks_append]
    simp [Journal.landmarks, hev]
  exact ((List.append_cons_inj_of_notMem hbefore hafter).mp (hmarks.symm.trans hwhole)).1.symm

theorem mem_of_landmark {j : Journal} {ev : Event} (h : ev ∈ j.landmarks) :
    ∃ moment, (moment, ev) ∈ j := by
  obtain ⟨e, he, rfl⟩ := List.mem_map.mp (List.mem_of_mem_filter h)
  exact ⟨e.1, he⟩

theorem streamsOpen_of_landmarks {rest : List Event} (hrest : Event.streaming ∉ rest)
    (hmarks : r.landmarks = opening Resource.order [] ++ .streaming :: rest) : r.StreamsOpen := by
  constructor
  · intro a b moment hsplit
    have ha := landmarks_of_split rfl (streaming_notMem_opening _ _) hrest hmarks hsplit
    rw [Journal.obtained_eq, Journal.released_eq, ha, obtained_opening]
    exact ⟨rfl, none_of_opening (fun _ => rfl) (fun _ => rfl) _ _⟩
  · intro _
    refine mem_of_landmark (j := r.world.journal) ?_
    change Event.streaming ∈ r.landmarks
    rw [hmarks]
    exact List.mem_append_right _ List.mem_cons_self

theorem streamsOpen_of_before {w : World} (hr : r.Standing) (hstage : r.stage = .before w)
    (hnone : Event.streaming ∉ r.landmarks) : r.StreamsOpen := by
  constructor
  · intro a b moment hsplit
    refine absurd ?_ hnone
    rw [landmarks, hsplit, Journal.landmarks_append]
    exact List.mem_append_right _ List.mem_cons_self
  · intro hlife
    have hnot : r.lifecycle ≠ .streaming ∧ r.lifecycle ≠ .stopped := by
      cases hr with
      | fresh _ _ _ _ _ _ hinit => simp [hinit]
      | misnamed _ _ _ _ _ _ hinit => simp [hinit]
      | @barred _ _ e _ _ _ _ _ hended =>
        rw [hended.lifecycle]
        unfold lifecycleAfter
        dsimp only
        split <;> simp
      | streaming hmoving => cases hmoving.symm.trans hstage
      | untimed hmoving => cases hmoving.symm.trans hstage
      | ended hmoving => cases hmoving.symm.trans hstage
    exact (hlife.elim hnot.1 hnot.2).elim

theorem streamsOpen (h : Reachable r) : r.StreamsOpen := by
  have hr := reachable_standing h
  cases reachable_marks h with
  | fresh hstage _ _ hmarks =>
    refine streamsOpen_of_before hr hstage ?_
    rw [hmarks]
    exact List.not_mem_nil
  | barred held refused given hstage _ _ _ _ _ _ hgiven hmarks =>
    refine streamsOpen_of_before hr hstage ?_
    rw [hmarks]
    intro hmem
    exact (List.mem_append.mp hmem).elim (streaming_notMem_opening _ _)
      (streaming_notMem_returns hgiven.first)
  | streaming _ _ _ hmarks => exact streamsOpen_of_landmarks List.not_mem_nil hmarks
  | ended before after told given _ _ _ hjournal hbefore htold hgiven hafter =>
    have hnone : Event.streaming ∉ told ++ given := by
      intro hmem
      rcases List.mem_append.mp hmem with hmem | hmem
      · rcases htold with ⟨rfl, _⟩ | ⟨rfl, _⟩ <;> simp at hmem
      · exact streaming_notMem_returns hgiven.first hmem
    refine streamsOpen_of_landmarks hnone ?_
    rw [landmarks, hjournal, Journal.landmarks_append, hbefore, hafter, List.append_assoc]
    rfl

/-- All that was sent is applied and nothing is left to send, by request or because the stream has
ended without an error and nothing of it is left. -/
structure EndsCleanly (r : Run) (t : Transfer) : Prop where
  result : t.phase = .done (.ok ())
  applied : r.world.destination.batches = r.world.journal.flushes.map fun b => .ofBatch b.2
  counted : r.stats.batchesApplied = r.world.journal.flushes.length
  empty : r.buffered = 0
  cause : r.world.shutdown = true ∨ t.forwarder.finished = true ∧ t.forwarder.error? = none ∧
    t.forwarder.queue = [] ∧ t.claim.entries = []

theorem endsCleanly_of_stopped (h : Reachable r) (hs : r.Step s) (hnot : r.lifecycle ≠ .stopped)
    (hstopped : s.lifecycle = .stopped) : ∃ t, r.stage = .moving t ∧ r.EndsCleanly t := by
  have hr := reachable_standing h
  have hsame (hkept : s.lifecycle = r.lifecycle) : ∃ t, r.stage = .moving t ∧ r.EndsCleanly t :=
    absurd (hkept.symm.trans hstopped) hnot
  cases hs with
  | start hstart =>
    rcases (lifecycle_of_start hr hstart).2 with hinit | hnext
    · cases hinit.symm.trans hstopped
    · rw [hstopped] at hnext
      cases hnext
  | move => exact hsame rfl
  | @finish t result hlive hstage hphase =>
    rw [(ended_finish_of_moving result allResources hstage).lifecycle,
      hr.lifecycle_of_live hstage hlive] at hstopped
    have hok : result = .ok () := by
      cases result with
      | ok => rfl
      | error e =>
        unfold lifecycleAfter at hstopped
        dsimp only at hstopped
        split at hstopped <;> cases hstopped
    subst hok
    obtain ⟨threshold, _, hinv⟩ := hr.invariant hstage
    have hstanding := hinv.standing
    rw [hphase] at hstanding
    cases hstanding with
    | finished heven hb hcause =>
      refine ⟨t, hstage, hphase, ?_, ?_, ?_, ?_⟩
      · rw [world_of_moving hstage]
        exact heven.applied.batches
      · rw [stats_of_moving hstage, world_of_moving hstage]
        exact heven.counted.batches
      · rw [buffered, transfer?_of_moving hstage]
        exact Transfer.size_eq_zero.mpr hb
      · rw [world_of_moving hstage]
        rcases hcause with hasked | ⟨hdrained, hending⟩
        · exact .inl hasked
        · obtain ⟨hended, hqueue, hclaim⟩ := Transfer.drained_iff.mp hdrained
          refine .inr ⟨(Forwarder.finished_iff _).mpr hended, ?_, hqueue, hclaim⟩
          rw [Forwarder.error?, hending]
  | pass moment _ => exact hsame (touches_pass r moment).lifecycle
  | meet a ha => exact hsame (touches_act ha).lifecycle

def call (r : Run) : Option MisuseError × Run :=
  match r.start? with
  | .ok s => (none, s)
  | .error e => (some e, r)

theorem started_call (h : Reachable r) : r.call.2.started = true := by
  unfold call
  split
  · next s hstart =>
    obtain ⟨w, hstage, _⟩ := (reachable_standing h).before_of_start? hstart
    rw [(begun_of_start? hstart).2]
    rcases begun_cases hstage with ⟨e, _, heq⟩ | hopens
    · rw [heq]
      rfl
    · exact (kept_of_opens hopens).1
  · next e hstart =>
    unfold start? at hstart
    split at hstart
    · next hstarted => exact hstarted
    · cases hstart

theorem call_of_started (h : r.started = true) : r.call = (some .alreadyStarted, r) := by
  unfold call start?
  rw [if_pos h]

/-- The lifecycle of a run, at every state: a step moves it one place on at most and it never leaves
its end; batches are sent only while it streams, with all resources open; it stops only after a clean
end; and a run that has been started cannot be started again, which changes nothing in it. -/
theorem lifecycle_law (h : Reachable r) :
    (∀ s, r.Step s → s.lifecycle = r.lifecycle ∨ r.lifecycle.Next s.lifecycle) ∧
    (∀ s, Leads r s → r.lifecycle.isFinal = true → s.lifecycle = r.lifecycle) ∧
    (∀ s, r.Step s → s.world.journal.flushes ≠ r.world.journal.flushes ∨
      s.world.destination.commands ≠ r.world.destination.commands →
        r.lifecycle = .streaming ∧ s.lifecycle = .streaming) ∧
    r.StreamsOpen ∧
    (∀ s, r.Step s → r.lifecycle ≠ .stopped → s.lifecycle = .stopped →
      ∃ t, r.stage = .moving t ∧ r.EndsCleanly t) ∧
    ∀ s, Leads r.call.2 s → s.call = (some .alreadyStarted, s) := by
  have hr := reachable_standing h
  refine ⟨fun s hs => lifecycle_of_step hr hs, fun s hs hfinal => lifecycle_of_leads h hs hfinal,
    ?_, streamsOpen h, fun s hs => endsCleanly_of_stopped h hs, ?_⟩
  · rintro s hs (hsent | hsent)
    · exact streaming_of_flushes hr hs hsent
    · exact streaming_of_commands h hs hsent
  · intro s hs
    exact call_of_started (started_of_leads hs (started_call h))

def sending : Run := Timed.run none 5 (grudging.act .requestShutdown).begun

/-- The batch is sent while the run streams; then it stops cleanly, and cannot be started again. -/
theorem lifecycle_law_grudging :
    (∃ s, Reachable sending ∧ sending.Step s ∧
      s.world.journal.flushes ≠ sending.world.journal.flushes ∧ sending.lifecycle = .streaming ∧
      s.lifecycle = .streaming) ∧
    ∃ s t, Reachable leaving ∧ leaving.Step s ∧ leaving.stage = .moving t ∧
      leaving.EndsCleanly t ∧ leaving.StreamsOpen ∧ leaving.lifecycle ≠ .stopped ∧
      s.lifecycle = .stopped ∧ s.call = (some .alreadyStarted, s) := by
  have hmade := Reachable.made made_grudging
  constructor
  · have hreach : Reachable sending := hmade.leads (leads_grudging 5)
    have hnext : (sending.step?.any fun s => s.world.journal.flushes.length !=
        sending.world.journal.flushes.length) = true := by
      decide +kernel
    obtain ⟨s, hs, hlength⟩ := (Option.any_eq_true _ _).mp hnext
    have hsent : s.world.journal.flushes ≠ sending.world.journal.flushes := by
      intro hsame
      simp [hsame] at hlength
    obtain ⟨_, _, hsends, _⟩ := lifecycle_law hreach
    obtain ⟨hbefore, hafter⟩ := hsends s (step_of_step? hs) (.inl hsent)
    exact ⟨s, hreach, step_of_step? hs, hsent, hbefore, hafter⟩
  · have hreach : Reachable leaving := hmade.leads (leads_grudging 8)
    have hnext : (leaving.step?.any fun s => s.lifecycle == .stopped) = true := by decide +kernel
    obtain ⟨s, hs, hlife⟩ := (Option.any_eq_true _ _).mp hnext
    have hstopped : s.lifecycle = .stopped := by simpa using hlife
    have hstreams : leaving.lifecycle ≠ .stopped := by decide +kernel
    have hcall : leaving.call.2 = leaving := by
      rw [call_of_started (by decide +kernel)]
    obtain ⟨_, _, _, hopen, hends, hagain⟩ := lifecycle_law hreach
    obtain ⟨t, hstage, hclean⟩ := hends s (step_of_step? hs) hstreams hstopped
    have hagain' : Leads leaving.call.2 s := by
      rw [hcall]
      exact .single (step_of_step? hs)
    have hrefused := hagain s hagain'
    exact ⟨s, t, hreach, step_of_step? hs, hstage, hclean, hopen, hstreams, hstopped, hrefused⟩

end Run

end OplogRelay
