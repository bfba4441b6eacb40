import OplogRelay.Program
import OplogRelay.Proofs.Agenda
import OplogRelay.Proofs.Run.Backpressure
/-!
A run in turns is an execution of the run. Whatever is called in whatever order, each act leaves the run alone
or takes it some steps on, as long as no forwarder overhears that it is dismissed: one that does reads on in a
run that has its result, which no execution does. So what holds of all executions holds of the runs of a
launched program.
-/
namespace OplogRelay

namespace Turns

variable {q r : Run} {s s' s'' : Turns} {t u : Transfer} {a : Act}

/-- The forwarder was dismissed while its lookout was on the way back to it. -/
def missesDismissal (s : Turns) : Bool :=
  decide (s.forwarder = .listening ∧ s.news = .back ∧ s.dismissed = true)

def overhearsIn (s : Turns) : Act → Bool
  | .forward => s.missesDismissal
  | _ => false

/-- The forwarder overhears its dismissal in one of so many acts. -/
def overhears : Nat → Turns → Bool
  | 0, _ => false
  | steps + 1, s =>
    s.acting.head?.any (overhearsIn s) || s.step?.any (overhears steps)

/-- The run goes on, over this transfer, and so does its coordinator. -/
structure Engaged (s : Turns) (t : Transfer) : Prop where
  live : s.run.isOver = false
  stage : s.run.stage = .moving t
  kept : s.dismissed = false
  busy : s.coordinator.isThrough = false

/-- The run goes on, or it has its result and the forwarder is to hear of it, or it is over. -/
inductive Sound (s : Turns) : Prop where
  | engaged {t : Transfer} : s.Engaged t → t.isDone = false → Sound s
  | leaving {t : Transfer} {result : Except Failure Unit} : s.run.isOver = false → s.run.stage = .moving t →
      t.phase = .done result → s.dismissed = true → s.coordinator = .leaving →
      s.forwarder = .listening → Sound s
  | closed : s.run.isOver = true → s.coordinator = .gone → s.forwarder = .gone → Sound s

/-- The run is left alone. Once the coordinator is through nobody's place is changed. -/
structure Aside (s s' : Turns) : Prop where
  run : s'.run = s.run
  dismissed : s'.dismissed = s.dismissed
  busy : s.coordinator.isThrough = false → s'.coordinator.isThrough = false
  through : s.coordinator.isThrough = true →
    s'.coordinator = s.coordinator ∧ s'.forwarder = s.forwarder

/-- The run is taken some steps on, to where all is sound again. -/
structure Follows (s s' : Turns) : Prop where
  leads : Run.Leads s.run s'.run
  sound : s'.Sound

theorem Aside.trans (h : Aside s s') (h' : Aside s' s'') : Aside s s'' where
  run := h'.run.trans h.run
  dismissed := h'.dismissed.trans h.dismissed
  busy := h'.busy ∘ h.busy
  through hs := by
    obtain ⟨hcoordinator, hforwarder⟩ := h.through hs
    obtain ⟨hcoordinator', hforwarder'⟩ := h'.through (hcoordinator ▸ hs)
    exact ⟨hcoordinator'.trans hcoordinator, hforwarder'.trans hforwarder⟩

theorem aside_of_places (hrun : s'.run = s.run) (hdismissed : s'.dismissed = s.dismissed)
    (hcoordinator : s'.coordinator = s.coordinator) (hforwarder : s'.forwarder = s.forwarder) :
    Aside s s' :=
  ⟨hrun, hdismissed, fun hbusy => hcoordinator ▸ hbusy, fun _ => ⟨hcoordinator, hforwarder⟩⟩

theorem aside_of_busy (hbusy : s.coordinator.isThrough = false) (hrun : s'.run = s.run)
    (hdismissed : s'.dismissed = s.dismissed) (hbusy' : s'.coordinator.isThrough = false) :
    Aside s s' :=
  ⟨hrun, hdismissed, fun _ => hbusy', fun hthrough => by cases hbusy.symm.trans hthrough⟩

theorem aside_refl (s : Turns) : Aside s s := aside_of_places rfl rfl rfl rfl

theorem aside_call (a : Act) (s : Turns) : Aside s (s.call a) := aside_of_places rfl rfl rfl rfl

theorem aside_takeBack (p : Act → Bool) (s : Turns) : Aside s (s.takeBack p) :=
  aside_of_places rfl rfl rfl rfl

theorem aside_callForwarder (s : Turns) : Aside s s.callForwarder := by
  unfold callForwarder
  split
  · exact aside_refl s
  · exact aside_of_places rfl rfl rfl rfl

theorem aside_callCoordinator (s : Turns) : Aside s s.callCoordinator := by
  unfold callCoordinator
  split
  · next hwaiting => exact aside_of_busy (by rw [hwaiting]; rfl) rfl rfl rfl
  · exact aside_refl s

theorem aside_reportToCoordinator (a : Act) (s : Turns) : Aside s (s.reportToCoordinator a) := by
  unfold reportToCoordinator
  split
  · exact aside_call a s
  · exact aside_refl s

theorem aside_lookForNews (s : Turns) : Aside s s.lookForNews := by
  unfold lookForNews
  split
  · exact aside_of_places rfl rfl rfl rfl
  · split
    · exact aside_of_places rfl rfl rfl rfl
    · exact aside_of_places rfl rfl rfl rfl

theorem aside_announce (s : Turns) : Aside s s.announce := by
  unfold announce
  split
  · exact aside_of_places rfl rfl rfl rfl
  · exact aside_of_places rfl rfl rfl rfl
  · exact aside_refl s

theorem aside_sendLookouts (s : Turns) : Aside s s.sendLookouts := by
  unfold sendLookouts
  dsimp only
  split <;> split <;> exact aside_of_places rfl rfl rfl rfl

theorem aside_wait (hbusy : s.coordinator.isThrough = false) (t : Transfer) : Aside s (s.wait t) := by
  have hsent : Aside s { s.sendLookouts with
      coordinator := .waiting
      agenda := s.agenda.add (t.alarm.map Int.ofNat) .tick } :=
    aside_of_busy hbusy (aside_sendLookouts s).run (aside_sendLookouts s).dismissed rfl
  refine hsent.trans ?_
  unfold wait
  dsimp only
  split <;> split <;> exact aside_of_places rfl rfl rfl rfl

theorem aside_rest (hbusy : s.coordinator.isThrough = false) : Aside s s.rest := by
  unfold rest
  split
  · exact aside_refl s
  · next t _ =>
    split
    · have hdone : Aside s { s with forwarder := .gone } := aside_of_busy hbusy rfl rfl hbusy
      dsimp only
      split
      · next hleaving =>
        rw [hleaving] at hbusy
        cases hbusy
      · exact hdone.trans (aside_reportToCoordinator _ _)
      · exact hdone
    · split
      · exact aside_of_busy hbusy rfl rfl hbusy
      · exact aside_of_busy hbusy rfl rfl hbusy

theorem aside_giveUpNews (hbusy : s.coordinator.isThrough = false) : Aside s s.giveUpNews := by
  unfold giveUpNews
  dsimp only
  split
  · exact aside_of_busy hbusy rfl rfl hbusy
  · exact aside_of_busy hbusy rfl rfl hbusy

theorem Engaged.aside (h : Engaged s t) (haside : Aside s s') : Engaged s' t where
  live := haside.run ▸ h.live
  stage := haside.run ▸ h.stage
  kept := haside.dismissed.trans h.kept
  busy := haside.busy h.busy

theorem Sound.aside (h : Sound s) (haside : Aside s s') : Sound s' := by
  cases h with
  | engaged hengaged hdone => exact .engaged (hengaged.aside haside) hdone
  | leaving hlive hstage hphase hdismissed hcoordinator hforwarder =>
    obtain ⟨hsame, hsame'⟩ := haside.through (by rw [hcoordinator]; rfl)
    exact .leaving (haside.run ▸ hlive) (haside.run ▸ hstage) hphase
      (haside.dismissed.trans hdismissed) (hsame.trans hcoordinator) (hsame'.trans hforwarder)
  | closed hover hcoordinator hforwarder =>
    obtain ⟨hsame, hsame'⟩ := haside.through (by rw [hcoordinator]; rfl)
    exact .closed (haside.run ▸ hover) (hsame.trans hcoordinator) (hsame'.trans hforwarder)

theorem Sound.follows_aside (h : Sound s) (haside : Aside s s') : Follows s s' where
  leads := haside.run ▸ .refl
  sound := h.aside haside

theorem Follows.aside (h : Follows s s') (haside : Aside s' s'') : Follows s s'' where
  leads := haside.run ▸ h.leads
  sound := h.sound.aside haside

theorem Aside.follows (haside : Aside s s') (h : Follows s' s'') : Follows s s'' where
  leads := by
    rw [← haside.run]
    exact h.leads
  sound := h.sound

theorem run_onTransfer {f : Transfer → Transfer} (hstage : s.run.stage = .moving t) :
    (s.onTransfer f).run = { s.run with stage := .moving (f t) } := by
  unfold onTransfer
  rw [hstage]

theorem Engaged.onTransfer {f : Transfer → Transfer} (h : Engaged s t) :
    Engaged (s.onTransfer f) (f t) where
  live := by
    rw [run_onTransfer h.stage]
    exact h.live
  stage := by rw [run_onTransfer h.stage]
  kept := h.kept
  busy := h.busy

theorem Engaged.moves {f : Transfer → Transfer} (h : Engaged s t) (hdone : t.isDone = false)
    (hf : f t = t ∨ t.Moves (f t)) : Run.Leads s.run (s.onTransfer f).run := by
  rw [run_onTransfer h.stage]
  rcases hf with hsame | hmoves
  · rw [hsame, ← h.stage]
  · exact .single (.move h.live h.stage hdone hmoves)

theorem isDone_of_phase_eq (hphase : u.phase = t.phase) (hdone : t.isDone = false) :
    u.isDone = false := by
  unfold Transfer.isDone at *
  rw [hphase]
  exact hdone

theorem not_isDone_of_coordinate? (h : t.coordinate? = some u) : t.isDone = false := by
  cases hphase : t.phase with
  | done result => simp [Transfer.coordinate?, hphase] at h
  | waiting => simp [Transfer.isDone, hphase]
  | applying => simp [Transfer.isDone, hphase]
  | answered => simp [Transfer.isDone, hphase]

theorem leads_goOn (rounds : Nat) (hlive : r.isOver = false) (hstage : r.stage = .moving t) :
    Run.Leads r { r with stage := .moving (t.goOn rounds) } := by
  have hsame : Run.Leads r { r with stage := .moving t } := by rw [← hstage]
  induction rounds generalizing r t with
  | zero => exact hsame
  | succ rounds ih =>
    unfold Transfer.goOn
    split
    · exact hsame
    · next u hnext =>
      have hstep : r.Step { r with stage := .moving u } :=
        .move hlive hstage (not_isDone_of_coordinate? hnext) (.coordinate hnext)
      split
      · exact .head hstep (ih hlive rfl .refl)
      · exact .single hstep

theorem close_run {result : Except Failure Unit} (hnone : s.run.outcome = none)
    (hstage : s.run.stage = .moving t) (hphase : t.phase = .done result) :
    s.close.run = s.run.finish result Run.allResources := by
  simp [close, settle, hnone, Run.transfer?_of_moving hstage, hphase, Run.finish]

theorem follows_close {result : Except Failure Unit} (hreach : Run.Reachable s.run)
    (hlive : s.run.isOver = false) (hstage : s.run.stage = .moving t)
    (hphase : t.phase = .done result) : Follows s s.close := by
  have hnone : s.run.outcome = none := by
    cases houtcome : s.run.outcome with
    | none => rfl
    | some outcome =>
      have hover := (Run.reachable_standing hreach).over_of_outcome houtcome
      cases hlive.symm.trans hover
  have hfinish : s.run.Step s.close.run := by
    rw [close_run hnone hstage hphase]
    exact .finish hlive hstage hphase
  exact ⟨.single hfinish, .closed rfl rfl rfl⟩

theorem Engaged.dismiss {result : Except Failure Unit} (h : Engaged s t) (hreach : Run.Reachable s.run)
    (hphase : t.phase = .done result) : Follows s s.dismiss := by
  unfold Turns.dismiss
  split
  · next hlistening =>
    have htold : Follows s { s with dismissed := true, coordinator := .leaving } :=
      ⟨.refl, .leaving h.live h.stage hphase rfl rfl hlistening⟩
    exact htold.aside (aside_callForwarder _)
  · exact follows_close hreach h.live h.stage hphase

theorem Engaged.pause (h : Engaged s t) (hreach : Run.Reachable s.run) : Follows s s.pause := by
  have aside {s' : Turns} (haside : Aside s s') (hdone : t.isDone = false) : Follows s s' :=
    ⟨haside.run ▸ .refl, .engaged (h.aside haside) hdone⟩
  unfold Turns.pause
  rw [Run.transfer?_of_moving h.stage]
  dsimp only
  cases hphase : t.phase with
  | waiting watching => exact aside (aside_wait h.busy t) (by simp [Transfer.isDone, hphase])
  | applying f ops due =>
    dsimp only
    split
    · exact aside (aside_of_busy h.busy rfl rfl rfl) (by simp [Transfer.isDone, hphase])
    · exact aside (aside_of_busy h.busy rfl rfl rfl) (by simp [Transfer.isDone, hphase])
  | answered f answer => exact aside (aside_refl s) (by simp [Transfer.isDone, hphase])
  | done result => exact h.dismiss hreach hphase

theorem Engaged.goForward (steps : Nat) (h : Engaged s t) (hdone : t.isDone = false) :
    Follows s (s.goForward steps) := by
  induction steps generalizing s t with
  | zero => exact ⟨.refl, .engaged h hdone⟩
  | succ steps ih =>
    unfold Turns.goForward
    rw [Run.transfer?_of_moving h.stage]
    dsimp only
    split
    · exact (Sound.engaged h hdone).follows_aside (aside_rest h.busy)
    · next u hnext =>
      have hu : u.isDone = false := by
        obtain ⟨oplog, forwarder, events, _, _, rfl⟩ := Transfer.forward?_eq hnext
        exact isDone_of_phase_eq rfl hdone
      have hmoved := h.moves hdone (f := fun _ => u) (.inr (.forward hnext))
      have htold : Aside (s.onTransfer fun _ => u)
          (if t.forwarder.forwarded < u.forwarder.forwarded ∧
              (s.onTransfer fun _ => u).entry = .waiting then
            { s.onTransfer fun _ => u with entry := .called }.call (.look .entry)
          else s.onTransfer fun _ => u) := by
        split
        · exact aside_of_places rfl rfl rfl rfl
        · exact aside_refl _
      have hrest := htold.follows (ih (h.onTransfer.aside htold) hu)
      exact ⟨hmoved.trans hrest.leads, hrest.sound⟩

theorem Sound.through_or_engaged (h : Sound s) :
    s.coordinator.isThrough = true ∨ ∃ t, Engaged s t ∧ t.isDone = false := by
  cases h with
  | engaged hengaged hdone => exact .inr ⟨_, hengaged, hdone⟩
  | leaving _ _ _ _ hcoordinator => exact .inl (by rw [hcoordinator]; rfl)
  | closed _ hcoordinator => exact .inl (by rw [hcoordinator]; rfl)

theorem Sound.coordinate (h : Sound s) (hreach : Run.Reachable s.run) : Follows s s.coordinate := by
  rcases h.through_or_engaged with hthrough | ⟨t, hengaged, hdone⟩
  · have hstays : s.coordinate = s := by
      unfold Turns.coordinate
      cases hcoordinator : s.coordinator <;> simp [hcoordinator, Coordinator.isThrough] at hthrough ⊢
    rw [hstays]
    exact h.follows_aside (aside_refl s)
  · have woken (entry : Duty) : Follows s
        { (s.takeBack Act.isForCoordinator).onTransfer (Transfer.goOn 8) with entry := entry }.pause := by
      have hback := hengaged.aside (aside_takeBack Act.isForCoordinator s)
      have hgone : Engaged { (s.takeBack Act.isForCoordinator).onTransfer (Transfer.goOn 8) with
          entry := entry } (t.goOn 8) :=
        hback.onTransfer.aside (aside_of_places rfl rfl rfl rfl)
      have hleads : Run.Leads s.run
          ((s.takeBack Act.isForCoordinator).onTransfer (Transfer.goOn 8)).run := by
        rw [run_onTransfer hback.stage]
        exact leads_goOn 8 hengaged.live hengaged.stage
      have hpaused := hgone.pause (hreach.leads hleads)
      exact ⟨hleads.trans hpaused.leads, hpaused.sound⟩
    unfold Turns.coordinate
    split
    · have hcalled := aside_call .forward s
      exact hcalled.follows ((hengaged.aside hcalled).pause hreach)
    · exact woken _
    · exact woken _
    · exact h.follows_aside (aside_refl s)

theorem Sound.forward (h : Sound s) (hreach : Run.Reachable s.run)
    (hhears : s.missesDismissal = false) : Follows s s.forward := by
  cases h with
  | @engaged t hengaged hdone =>
    unfold Turns.forward
    have hback := aside_takeBack Act.isForForwarder s
    split
    · exact hengaged.goForward Timed.fuel hdone
    · exact hengaged.goForward Timed.fuel hdone
    · dsimp only
      rw [hengaged.kept]
      split
      · have htold : Aside s { s.takeBack Act.isForForwarder with
            news := .off
            dismissed := false
            agenda := s.agenda.callOff Engagement.isIdle } :=
          aside_of_places rfl hengaged.kept.symm rfl rfl
        exact htold.follows ((hengaged.aside htold).goForward Timed.fuel hdone)
      · exact (Sound.engaged hengaged hdone).follows_aside
          (hback.trans (aside_giveUpNews (hengaged.aside hback).busy))
    · exact hback.follows ((hengaged.aside hback).goForward Timed.fuel hdone)
    · exact (Sound.engaged hengaged hdone).follows_aside (aside_refl s)
  | leaving hlive hstage hphase hdismissed hcoordinator hforwarder =>
    have hnews : s.news ≠ .back := by
      intro hnews
      simp [missesDismissal, hforwarder, hnews, hdismissed] at hhears
    have hclose : s.forward = (s.takeBack Act.isForForwarder).close := by
      simp [Turns.forward, hforwarder, hnews, hdismissed]
    rw [hclose]
    have hback := aside_takeBack Act.isForForwarder s
    exact hback.follows (follows_close (by exact hreach) hlive hstage hphase)
  | closed hover hcoordinator hforwarder =>
    have hstays : s.forward = s := by simp [Turns.forward, hforwarder]
    rw [hstays]
    exact ⟨.refl, .closed hover hcoordinator hforwarder⟩

theorem Sound.lookForRequest (h : Sound s) : Follows s s.lookForRequest := by
  unfold Turns.lookForRequest
  split
  · exact h.follows_aside (aside_refl s)
  · next hbusy =>
    obtain ⟨t, hengaged, hdone⟩ := h.through_or_engaged.resolve_left hbusy
    split
    · have hhears : t.hear?.getD t = t ∨ t.Moves (t.hear?.getD t) := by
        cases hheard : t.hear? with
        | none => exact .inl rfl
        | some u => exact .inr (.hear hheard)
      have hdone' : (t.hear?.getD t).isDone = false := by
        unfold Transfer.hear?
        split
        · exact isDone_of_phase_eq rfl hdone
        · exact hdone
      have hheard : Follows s (s.onTransfer fun t => t.hear?.getD t) :=
        ⟨hengaged.moves hdone hhears, .engaged hengaged.onTransfer hdone'⟩
      have hback : Follows s { s.onTransfer fun t => t.hear?.getD t with request := .back } :=
        hheard.aside (aside_of_places rfl rfl rfl rfl)
      exact hback.aside (aside_reportToCoordinator _ _)
    · exact h.follows_aside (aside_of_places rfl rfl rfl rfl)

theorem Sound.lookForEntry (h : Sound s) : Follows s s.lookForEntry := by
  unfold Turns.lookForEntry
  split
  · exact h.follows_aside (aside_refl s)
  · next hbusy =>
    obtain ⟨t, hengaged, hdone⟩ := h.through_or_engaged.resolve_left hbusy
    rw [Run.transfer?_of_moving hengaged.stage, Option.bind_some]
    split
    · exact h.follows_aside (aside_of_places rfl rfl rfl rfl)
    · next u hfill =>
      have hdone' : u.isDone = false := by
        obtain ⟨e, rest, _, _, rfl⟩ := Transfer.fill?_eq hfill
        exact isDone_of_phase_eq rfl hdone
      have hfilled : Follows s (s.onTransfer fun _ => u) :=
        ⟨hengaged.moves hdone (f := fun _ => u) (.inr (.fill hfill)), .engaged hengaged.onTransfer hdone'⟩
      have hback : Follows s { s.onTransfer fun _ => u with entry := .back } :=
        hfilled.aside (aside_of_places rfl rfl rfl rfl)
      refine Follows.aside ?_ (aside_reportToCoordinator _ _)
      split
      · exact hback.aside (aside_callForwarder _)
      · exact hback

theorem Sound.loseHope (h : Sound s) : Follows s s.loseHope := by
  unfold Turns.loseHope
  split
  · next hlistening =>
    split
    · exact h.follows_aside (aside_refl s)
    · next hhopes =>
      cases h with
      | @engaged t hengaged hdone =>
        have hexpires : t.expire?.getD t = t ∨ t.Moves (t.expire?.getD t) := by
          cases hexpired : t.expire? with
          | none => exact .inl rfl
          | some u => exact .inr (.expire hexpired)
        have hdone' : (t.expire?.getD t).isDone = false := by
          cases hexpired : t.expire? with
          | none => exact hdone
          | some u =>
            obtain ⟨forwarder, _, rfl⟩ := Option.map_eq_some_iff.mp hexpired
            exact isDone_of_phase_eq rfl hdone
        exact ⟨hengaged.moves hdone hexpires, .engaged hengaged.onTransfer hdone'⟩
      | leaving _ _ _ hdismissed => simp [hdismissed] at hhopes
      | closed _ _ hforwarder => cases hforwarder.symm.trans hlistening
  · exact h.follows_aside (aside_refl s)

theorem Sound.meets (h : Sound s) (hstep : s.run.Step r) (htouches : s.run.Touches r) :
    Follows s { s with run := r } := by
  refine ⟨.single hstep, ?_⟩
  have hover (b : Bool) (hb : s.run.isOver = b) : r.isOver = b := by
    rw [Run.isOver, htouches.endedAt]
    exact hb
  cases h with
  | engaged hengaged hdone =>
    obtain ⟨u, hu, hbeside, _⟩ := htouches.moving _ hengaged.stage
    exact .engaged ⟨hover _ hengaged.live, hu, hengaged.kept, hengaged.busy⟩
      (isDone_of_phase_eq hbeside.phase hdone)
  | leaving hlive hstage hphase hdismissed hcoordinator hforwarder =>
    obtain ⟨u, hu, hbeside, _⟩ := htouches.moving _ hstage
    exact .leaving (hover _ hlive) hu (hbeside.phase.trans hphase) hdismissed hcoordinator hforwarder
  | closed hclosed hcoordinator hforwarder =>
    exact .closed (hover _ hclosed) hcoordinator hforwarder

theorem Sound.acts (h : Sound s) {a : Run.Action} (ha : ∀ span, a ≠ .advance span) :
    Follows s { s with run := s.run.act a } :=
  h.meets (.meet a ha) (Run.touches_act ha)

theorem Sound.meet (h : Sound s) (i : Incident) : Follows s (s.meet i) := by
  cases i with
  | signal number =>
    unfold Turns.meet
    dsimp only
    split
    · have hasked := h.acts (a := .requestShutdown) (by simp)
      have htold : Aside { s with run := s.run.requestShutdown }
          { s with signals := s.signals ++ [number], run := s.run.requestShutdown } :=
        aside_of_places rfl rfl rfl rfl
      split
      · exact (hasked.aside htold).aside (aside_of_places rfl rfl rfl rfl)
      · exact hasked.aside htold
    · exact h.follows_aside (aside_refl s)
  | append docs => exact (h.acts (a := .append docs) (by simp)).aside (aside_announce _)
  | inject f => exact (h.acts (a := .inject f) (by simp)).aside (aside_announce _)
  | reject message => exact h.acts (a := .reject message) (by simp)

theorem Sound.keep (h : Sound s) (e : Engagement) : Follows s (s.keep e) := by
  cases e with
  | incident i => exact h.meet i
  | tick => exact h.follows_aside (aside_callCoordinator s)
  | idle => exact h.loseHope.aside (aside_callForwarder _)
  | answer => exact h.follows_aside (aside_call _ s)

/-- Each act takes the run some steps on. -/
theorem Sound.act (h : Sound s) (hreach : Run.Reachable s.run) (hhears : s.overhearsIn a = false) :
    Follows s (s.act a) := by
  cases a with
  | coordinate => exact h.coordinate hreach
  | forward => exact h.forward hreach hhears
  | look l =>
    cases l with
    | request => exact h.lookForRequest
    | entry => exact h.lookForEntry
    | news => exact h.follows_aside (aside_lookForNews s)
  | report l =>
    cases l with
    | request => exact h.follows_aside (aside_callCoordinator s)
    | entry => exact h.follows_aside (aside_callCoordinator s)
    | news => exact h.follows_aside (aside_callForwarder s)
  | reportEnd => exact h.follows_aside (aside_callCoordinator s)
  | keep e => exact h.keep e

/-- In a new turn those act who were called, and after them what has fallen due, in the order of the moments.
Time passes only where nobody was called, up to the earliest appointment. -/
structure Turned (s s' : Turns) : Prop where
  acting : ∃ taken, s'.acting = s.calls ++ taken.map (fun item => .keep item.what) ∧
    Agenda.Takes s'.run.world.now s.agenda taken s'.agenda
  calls : s'.calls = []
  called : s.calls ≠ [] → s'.run.world.now = s.run.world.now
  waited : s.calls = [] → ∃ first ∈ s.agenda.pending, ∃ moment, first.due = some moment ∧
    s'.run.world.now = max s.run.world.now moment.toNat ∧
    ∀ item ∈ s.agenda.pending, Appointment.NotAfter first.due item.due

theorem turned_of_turn? (h : s.turn? = some s') : Turned s s' := by
  obtain ⟨moment, hmoment, rfl⟩ := Option.map_eq_some_iff.mp h
  have hnow : (Timed.moveTo (max s.run.world.now moment.toNat) s.run : Run).world.now =
      max s.run.world.now moment.toNat := Run.now_moveTo _ _
  refine ⟨?_, rfl, fun hcalls => ?_, fun hcalls => ?_⟩
  · obtain ⟨taken, hwhat, htakes⟩ :=
      Agenda.takeDue_takes (max s.run.world.now moment.toNat) (Nat.le_refl s.agenda.tidy.items.size)
    refine ⟨taken, ?_, hnow.symm ▸ htakes.of_tidy⟩
    show s.calls ++ List.map _ (Agenda.takeDue _ _ _).1 = _
    rw [hwhat, List.map_map]
    rfl
  · rw [if_neg (by simpa using hcalls)] at hmoment
    cases hmoment
    rw [hnow]
    exact Nat.max_self _
  · rw [if_pos (by simp [hcalls])] at hmoment
    rcases s.agenda.next?_tidy with ⟨_, hnone⟩ | ⟨first, hfirst, hnext, hearliest⟩
    · cases hnone.symm.trans hmoment
    · exact ⟨first, hfirst, moment, hnext.symm.trans hmoment, hnow, hearliest⟩

theorem Sound.turn? (h : Sound s) (hturn : s.turn? = some s') : Follows s s' := by
  obtain ⟨moment, _, rfl⟩ := Option.map_eq_some_iff.mp hturn
  have hpass := h.meets (.pass (max s.run.world.now moment.toNat) (Nat.le_max_left _ _))
    (Run.touches_pass s.run _)
  exact hpass.aside (aside_of_places rfl rfl rfl rfl)

theorem Sound.step? (h : Sound s) (hreach : Run.Reachable s.run) (hstep : s.step? = some s')
    (hhears : s.acting.head?.any s.overhearsIn = false) : Follows s s' := by
  unfold Turns.step? at hstep
  split at hstep
  · next a others hacting =>
    cases hstep
    rw [hacting] at hhears
    have haside : Aside s { s with acting := others } := aside_of_places rfl rfl rfl rfl
    exact haside.follows ((h.aside haside).act hreach hhears)
  · split at hstep
    · cases hstep
    · exact h.turn? hstep

theorem Sound.play (steps : Nat) (h : Sound s) (hreach : Run.Reachable s.run)
    (hhears : s.overhears steps = false) : Follows s (s.play steps) := by
  induction steps generalizing s with
  | zero => exact ⟨.refl, h⟩
  | succ steps ih =>
    obtain ⟨hnow, hlater⟩ := Bool.or_eq_false_iff.mp hhears
    unfold Turns.play
    split
    · next s' hstep =>
      have hfollows := h.step? hreach hstep hnow
      rw [hstep, Option.any_some] at hlater
      have hrest := ih hfollows.sound (hreach.leads hfollows.leads) hlater
      exact ⟨hfollows.leads.trans hrest.leads, hrest.sound⟩
    · exact ⟨.refl, h⟩

theorem sound_ofStarted (hq : Run.Reachable q) (hstart : q.start? = .ok r) (hlive : r.isOver = false)
    (incidents : List (Span × Incident)) : Sound (ofStarted r incidents) := by
  obtain ⟨w, hstage, _⟩ := (Run.reachable_standing hq).before_of_start? hstart
  obtain ⟨_, rfl⟩ := Run.begun_of_start? hstart
  rcases Run.begun_cases hstage with ⟨e, _, hbegun⟩ | hopens
  · rw [hbegun] at hlive
    cases hlive
  · generalize q.begun = r at *
    cases hopens with
    | barred _ _ _ _ _ _ hended => cases hlive.symm.trans hended.closed
    | untimed _ _ _ _ _ _ _ _ _ hended => cases hlive.symm.trans hended.closed
    | streams => exact .engaged ⟨hlive, rfl, rfl, rfl⟩ rfl

/-- A run that is played in turns is an execution, up to where a forwarder overhears its dismissal. -/
theorem leads_play (hq : Run.Reachable q) (hstart : q.start? = .ok r)
    (incidents : List (Span × Incident)) (steps : Nat)
    (hhears : (ofStarted r incidents).overhears steps = false) :
    Run.Leads q ((ofStarted r incidents).play steps).run := by
  have hfirst : q.Step r := .start hstart
  refine .head hfirst ?_
  cases hover : r.isOver with
  | false =>
    exact ((sound_ofStarted hq hstart hover incidents).play steps (hq.step hfirst) hhears).leads
  | true =>
    have hnone : (ofStarted r incidents).step? = none := by
      show (if r.isOver then none else _) = none
      rw [if_pos hover]
    cases steps with
    | zero => exact .refl
    | succ steps =>
      rw [Turns.play, hnone]
      exact .refl

end Turns

namespace Program

variable {q : Run} {settings : Settings} {s : Surroundings} {incidents : List (Span × Incident)}

theorem make?_of_servers {draft plan : Run.Plan} {maxBatch : Int} {flush : Quantity}
    (h : draft.make? maxBatch flush = .ok plan) (opening : Opening) (source destination : Endpoint) :
    { draft with opening := opening, source := source, destination := destination }.make? maxBatch
        flush =
      .ok { plan with opening := opening, source := source, destination := destination } := by
  unfold Run.Plan.make? at *
  split at h
  · cases h
  · next hflush =>
    rw [if_neg hflush]
    split at h
    · cases h
    · next batch hbatch =>
      cases h
      rfl

theorem made_of_prepare (hnew : s.world.IsNew) (h : prepare settings s = .ok q) : Run.Made q := by
  unfold prepare at h
  cases hblueprint : Blueprint.ofSettings? settings with
  | error e =>
    rw [hblueprint] at h
    cases h
  | ok blueprint =>
    simp only [hblueprint, bind, Except.bind] at h
    split at h
    · cases h
    · next plan hplan =>
      cases h
      exact .planned false hnew (make?_of_servers hplan _ _ _)

theorem launch_eq (h : prepare settings s = .ok q) (hfresh : q.started = false) :
    launch settings s incidents =
      conclude settings ((Turns.ofStarted q.begun incidents).play Timed.fuel) := by
  unfold launch
  rw [h]
  dsimp only
  rw [Run.start?_eq_begun hfresh]

theorem run_conclude (settings : Settings) (t : Turns) : (conclude settings t).run = some t.run := by
  unfold conclude
  dsimp only
  split
  · rfl
  · split <;> rfl
  · rfl

theorem outcome_of_conclude {settings : Settings} {t : Turns}
    (h : (conclude settings t).ending = .exit 0) : ∃ stats, t.run.outcome = some (.ok stats) := by
  unfold conclude at h
  dsimp only at h
  split at h
  · next stats hok => exact ⟨stats, hok⟩
  · split at h <;> cases h
  · cases h

/-- A launched program leaves a run that is an execution, unless a forwarder overhears its dismissal. What the
run has applied by then is the beginning of what was to be relayed; and if the program ends without a failure,
the run has stopped. -/
theorem launch_leads (hnew : s.world.IsNew) (h : prepare settings s = .ok q)
    (hhears : (Turns.ofStarted q.begun incidents).overhears Timed.fuel = false) :
    ∃ last, (launch settings s incidents).run = some last ∧ Run.Leads q last ∧
      last.world.destination.appliedEntries <+: last.handedOut.map Value.document ∧
      ((launch settings s incidents).ending = .exit 0 → last.lifecycle = .stopped) := by
  have hmade := made_of_prepare hnew h
  have hfresh : q.started = false := by
    cases hmade
    rfl
  have hleads := Turns.leads_play (.made hmade) (Run.start?_eq_begun hfresh) incidents _ hhears
  have hreach := (Run.Reachable.made hmade).leads hleads
  rw [launch_eq h hfresh]
  refine ⟨_, run_conclude settings _, hleads, Run.applied_prefix hreach, fun hending => ?_⟩
  obtain ⟨stats, hok⟩ := outcome_of_conclude hending
  obtain ⟨_, _, _, hended⟩ := (Run.reachable_standing hreach).done_of_ok hok
  exact hended.lifecycle

end Program

end OplogRelay
