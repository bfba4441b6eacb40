import OplogRelay.Proofs.Transfer.Chunking
import OplogRelay.Proofs.Transfer.Goings
/-!
What becomes of a request to shut down. A round that sees it tells so, and ends or sends its last batch. But
the answer to a batch that was full leads on in the round that sent it, with what that round had seen; and
after the batch of the end of the stream nothing is looked at. While one of these is under way the end of the
stream can come before a request.
-/
namespace OplogRelay.Transfer

def Told (t : Transfer) : Prop := .shutdownSeen ∈ t.journal.map Prod.snd

/-- The coordinator goes on after the batch without a look at what was asked for since it was sent. -/
def Flush.isDeaf (f : Flush) : Bool :=
  match f.trigger with
  | .size => !f.shutdownSeen
  | .endOfStream => true
  | .timer | .shutdown => false

/-- What a round comes to that has seen a request, or has not. -/
inductive Hearkens (seen : Bool) (u : Transfer) : Prop where
  | fills {f} : u.phase.flush? = some f → f.trigger = .size → f.shutdownSeen = seen → Hearkens seen u
  | heeds : seen = true → u.Told →
      (u.phase = .done (.ok ()) ∨ ∃ f, u.phase.flush? = some f ∧ f.trigger = .shutdown) → Hearkens seen u
  | waits {watching} : seen = false → u.phase = .waiting watching → Hearkens seen u
  | ticks {f} : seen = false → u.phase.flush? = some f → f.trigger = .timer → Hearkens seen u
  | drains {f} : seen = false → u.phase.flush? = some f → f.trigger = .endOfStream → Hearkens seen u
  | ends : seen = false → u.isDone = true → u.drained = true →
      (u.phase = .done (.ok ()) → u.forwarder.ending = some .exhausted) → Hearkens seen u

/-- What a step of the coordinator comes to for one who has made a request. -/
inductive Responds (t u : Transfer) : Prop where
  | waited {watching} : t.phase = .waiting watching → Hearkens t.heard u → Responds t u
  | heard {f} : t.phase.flush? = some f → u.phase.flush? = some f → Responds t u
  | refused {f answer} : t.phase.flush? = some f → u.phase = .done (.error (Answer.failure answer)) →
      u.destination.batches.length ≠ u.flushes.length → Responds t u
  | counted {f} : t.phase.flush? = some f → f.trigger = .size → Hearkens f.shutdownSeen u → Responds t u
  | resumed {f watching} : t.phase.flush? = some f → f.trigger = .timer →
      u.phase = .waiting watching → Responds t u
  | stopped {f} : t.phase.flush? = some f → f.trigger = .shutdown → u.phase = .done (.ok ()) →
      Responds t u
  | concluded {f} : t.phase.flush? = some f → f.trigger = .endOfStream → u.isDone = true →
      u.drained = true → (u.phase = .done (.ok ()) → u.forwarder.ending = some .exhausted) →
      Responds t u

variable {t u v : Transfer} {f : Flush} {seen : Bool} {events : List Event} {threshold : Timestamp}

theorem Adds.told (h : t.Adds events u) (htold : t.Told ∨ .shutdownSeen ∈ events) : u.Told := by
  unfold Told
  rw [h.journal, Journal.note, List.map_append, List.mem_append]
  rcases htold with hbefore | hnow
  · exact .inl hbefore
  · refine .inr ?_
    simpa using hnow

theorem flush?_flush (f : Flush) (hb : t.batch.entries ≠ []) :
    (t.flush f).phase.flush? = some f :=
  flush?_of_sends (flush_sends f hb)

/-- Only a stream that was read to its end has a clean end. -/
theorem exhausted_of_conclude (hended : t.forwarder.ending ≠ none)
    (h : t.conclude.phase = .done (.ok ())) : t.conclude.forwarder.ending = some .exhausted := by
  rw [t.conclude_ends.1.forwarder]
  unfold conclude at h
  split at h
  · cases h
  · cases h
  · cases h
  · next hexhausted => exact hexhausted
  · next hnone => exact absurd hnone hended

theorem hearkens_proceed (t : Transfer) (seen : Bool) : Hearkens seen (t.proceed seen) := by
  have hproceeds := t.proceeds seen
  generalize t.proceed seen = u at hproceeds
  have htold : (t.note [.shutdownSeen]).Told := (t.adds_note [.shutdownSeen]).told (.inr (by simp))
  cases hproceeds with
  | stops => exact .heeds rfl htold (.inl rfl)
  | closes hb =>
    have hadds := (adds_flush (t := t.note [.shutdownSeen]) { trigger := .shutdown } hb).1
    exact .heeds rfl (hadds.told (.inl htold)) (.inr ⟨_, flush?_flush _ hb, rfl⟩)
  | concludes hd =>
    exact .ends rfl t.isDone_conclude (t.conclude_ends.1.drained.trans hd)
      (exhausted_of_conclude (ended_of_drained hd))
  | drains _ hb => exact .drains rfl (flush?_flush _ hb) rfl
  | ticks => exact .waits rfl rfl
  | sends _ _ hb => exact .ticks rfl (flush?_flush (t := t.reset) _ hb) rfl
  | waits => exact .waits rfl rfl

theorem hearkens_receive (e : Entry) (seen : Bool) (hroom : t.batch.size < t.batch.capacity) :
    Hearkens seen (t.receive e seen) := by
  rw [receive_eq seen hroom]
  split
  · have hb : (t.join e).batch.entries ≠ [] := by simp [join]
    exact .fills (flush?_flush _ hb) rfl rfl
  · exact hearkens_proceed _ _

theorem responds_resume (hanswered : t.phase.flush? = some f)
    (hdrained : f.trigger = .endOfStream → v.drained = true) (hu : u = v.resume f) :
    t.Responds u := by
  subst hu
  unfold resume
  split
  · next htrigger => exact .counted hanswered htrigger (hearkens_proceed _ _)
  · next htrigger => exact .resumed hanswered htrigger rfl
  · next htrigger => exact .stopped hanswered htrigger rfl
  · next htrigger =>
    have hd := hdrained htrigger
    exact .concluded hanswered htrigger v.isDone_conclude (v.conclude_ends.1.drained.trans hd)
      (exhausted_of_conclude (ended_of_drained hd))

theorem responds_refused {answer : Answer} (h : t.Invariant threshold)
    (hphase : t.phase = .answered f answer) (hrefused : answer.isAccepted = false)
    (hu : t.Refuses answer u) : t.Responds u := by
  cases h.standing_at hphase with
  | answered hflushes _ _ happlied =>
    refine .refused (by rw [hphase]; rfl) hu.phase ?_
    rw [hrefused] at happlied
    rw [hu.destination, happlied.batches, hu.flushes, hflushes]
    simp

theorem Invariant.responds (h : t.Invariant threshold) (hstep : t.coordinate? = some u) :
    t.Responds u := by
  cases coordinates_of_coordinate? hstep with
  | goes hphase => exact .waited hphase (hearkens_proceed t t.heard)
  | receives hphase =>
    exact .waited hphase (hearkens_receive _ t.heard (h.room_of_waiting hphase))
  | hears hphase => exact .heard (by rw [hphase]; rfl) rfl
  | @settles f answer hphase =>
    cases h.standing_at hphase with
    | answered _ hb _ _ hwarrant =>
      by_cases haccepted : answer.isAccepted = true
      · obtain ⟨last, moment, _, hsettle⟩ := settle_accepts f hb h.batch_moments haccepted
        exact responds_resume (v := t.count last moment) (by rw [hphase]; rfl) hwarrant.drained hsettle
      · have hrefused : answer.isAccepted = false := by simpa using haccepted
        exact responds_refused h hphase hrefused (settle_refuses f hb hrefused)

theorem Goes.told (hgoes : t.Goes u) (h : t.Invariant threshold) (htold : t.Told) : u.Told := by
  cases hgoes with
  | moves hmoves =>
    obtain ⟨events, hadds, _⟩ := h.adds_of_moves hmoves
    exact hadds.told (.inl htold)
  | ends events _ _ =>
    have hadds : t.Adds events (note { t with forwarder := t.forwarder.cancel } events) :=
      ⟨rfl, rfl, rfl⟩
    exact hadds.told (.inl htold)
  | passes _ => exact htold
  | @meets w f counts hnow hjournal _ _ =>
    have hadds : t.Adds (counts.map .appended) { t with toWorld := w, forwarder := f } :=
      ⟨hjournal, hnow, rfl⟩
    exact hadds.told (.inl htold)

/-- A transfer tells of a request before its last batch and before it ends, unless its stream is read to
the end. -/
structure Accounts (t : Transfer) : Prop where
  sent : ∀ f, t.phase.flush? = some f → f.trigger = .shutdown → t.Told
  ended : t.phase = .done (.ok ()) → t.Told ∨ t.drained = true ∧ t.forwarder.ending = some .exhausted

theorem accounts_start {w : World} {tail : Tail} {capacity : Nat} {interval : Span} :
    (Transfer.start w tail capacity interval).Accounts := by
  constructor
  · intro f hf
    cases hf
  · intro hphase
    cases hphase

theorem accounts_of_waiting {watching : Bool} (hphase : u.phase = .waiting watching) :
    u.Accounts := by
  constructor
  · intro f hf
    simp [hphase, Phase.flush?] at hf
  · intro hdone
    cases hphase.symm.trans hdone

theorem accounts_of_flush (hflush : u.phase.flush? = some f)
    (h : f.trigger = .shutdown → u.Told) : u.Accounts := by
  constructor
  · intro g hg
    cases hflush.symm.trans hg
    exact h
  · intro hdone
    simp [hdone, Phase.flush?] at hflush

theorem accounts_of_done (hdone : u.isDone = true)
    (h : u.phase = .done (.ok ()) → u.Told ∨ u.drained = true ∧ u.forwarder.ending = some .exhausted) :
    u.Accounts := by
  constructor
  · intro f hf
    rw [flush?_of_done hdone] at hf
    cases hf
  · exact h

theorem isDone_of_phase {outcome : Except Failure Unit} (h : u.phase = .done outcome) :
    u.isDone = true := by
  simp [isDone, h]

theorem Hearkens.accounts (h : Hearkens seen u) : u.Accounts := by
  cases h with
  | fills hflush hsize =>
    apply accounts_of_flush hflush
    intro hshutdown
    cases hsize.symm.trans hshutdown
  | heeds _ htold hends =>
    rcases hends with hdone | ⟨f, hflush, _⟩
    · exact accounts_of_done (isDone_of_phase hdone) fun _ => .inl htold
    · exact accounts_of_flush hflush fun _ => htold
  | waits _ hphase => exact accounts_of_waiting hphase
  | ticks _ hflush htimer =>
    apply accounts_of_flush hflush
    intro hshutdown
    cases htimer.symm.trans hshutdown
  | drains _ hflush hdrains =>
    apply accounts_of_flush hflush
    intro hshutdown
    cases hdrains.symm.trans hshutdown
  | ends _ hdone hdrained hexhausted =>
    exact accounts_of_done hdone fun hok => .inr ⟨hdrained, hexhausted hok⟩

theorem Accounts.goes (h : t.Accounts) (hinv : t.Invariant threshold) (hgoes : t.Goes u) :
    u.Accounts := by
  have hkept := hgoes.told hinv
  rcases hgoes.aside_or_coordinate hinv with haside | hcoordinate
  · constructor
    · intro f hf htrigger
      rw [haside.phase] at hf
      exact hkept (h.sent f hf htrigger)
    · intro hphase
      rw [haside.phase] at hphase
      rcases h.ended hphase with htold | ⟨hdrained, hexhausted⟩
      · exact .inl (hkept htold)
      · obtain ⟨hdrained', hsame⟩ := haside.drained hdrained
        exact .inr ⟨hdrained', hsame.trans hexhausted⟩
  · cases hinv.responds hcoordinate with
    | waited _ hhearkens => exact hhearkens.accounts
    | heard hbefore hflush => exact accounts_of_flush hflush fun hf => hkept (h.sent _ hbefore hf)
    | refused _ hphase =>
      apply accounts_of_done (isDone_of_phase hphase)
      intro hok
      cases hphase.symm.trans hok
    | counted _ _ hhearkens => exact hhearkens.accounts
    | resumed _ _ hphase => exact accounts_of_waiting hphase
    | stopped hbefore htrigger hphase =>
      exact accounts_of_done (isDone_of_phase hphase) fun _ => .inl (hkept (h.sent _ hbefore htrigger))
    | concluded _ _ hdone hdrained hexhausted =>
      exact accounts_of_done hdone fun hok => .inr ⟨hdrained, hexhausted hok⟩

/-- A transfer that has heard a request to shut down, and will end for no other reason unless a batch is
refused. -/
structure Heeds (t : Transfer) : Prop where
  heard : t.heard = true
  hears : ∀ f, t.phase.flush? = some f → f.isDeaf = false
  ends : t.isDone = true → t.destination.batches.length = t.flushes.length →
    t.Told ∧ t.phase = .done (.ok ())

theorem heeds_of_waiting {watching : Bool} (hheard : u.heard = true)
    (hphase : u.phase = .waiting watching) : u.Heeds := by
  refine ⟨hheard, ?_, ?_⟩
  · intro f hf
    simp [hphase, Phase.flush?] at hf
  · intro hdone
    simp [isDone, hphase] at hdone

theorem heeds_of_flush (hheard : u.heard = true) (hflush : u.phase.flush? = some f)
    (h : f.isDeaf = false) : u.Heeds := by
  refine ⟨hheard, ?_, ?_⟩
  · intro g hg
    cases hflush.symm.trans hg
    exact h
  · intro hdone _
    rw [flush?_of_done hdone] at hflush
    cases hflush

theorem heeds_of_done (hheard : u.heard = true) (hdone : u.isDone = true)
    (h : u.destination.batches.length = u.flushes.length → u.Told ∧ u.phase = .done (.ok ())) :
    u.Heeds := by
  refine ⟨hheard, ?_, fun _ => h⟩
  intro f hf
  rw [flush?_of_done hdone] at hf
  cases hf

theorem Hearkens.heeded (h : Hearkens true u) (hheard : u.heard = true) : u.Heeds := by
  cases h with
  | fills hflush hsize hseen => exact heeds_of_flush hheard hflush (by simp [Flush.isDeaf, hsize, hseen])
  | heeds _ htold hends =>
    rcases hends with hdone | ⟨f, hflush, htrigger⟩
    · exact heeds_of_done hheard (isDone_of_phase hdone) fun _ => ⟨htold, hdone⟩
    · exact heeds_of_flush hheard hflush (by simp [Flush.isDeaf, htrigger])
  | waits hseen => cases hseen
  | ticks hseen => cases hseen
  | drains hseen => cases hseen
  | ends hseen => cases hseen

theorem Heeds.coordinate? (h : t.Heeds) (haccounts : t.Accounts) (hinv : t.Invariant threshold)
    (hstep : t.coordinate? = some u) : u.Heeds := by
  have hheard : u.heard = true := (listens_of_coordinate? hstep).kept h.heard
  cases hinv.responds hstep with
  | waited _ hhearkens =>
    rw [h.heard] at hhearkens
    exact hhearkens.heeded hheard
  | heard hbefore hflush => exact heeds_of_flush hheard hflush (h.hears _ hbefore)
  | refused _ hphase hless => exact heeds_of_done hheard (isDone_of_phase hphase) fun hall => absurd hall hless
  | counted hbefore hsize hhearkens =>
    have hseen := h.hears _ hbefore
    simp only [Flush.isDeaf, hsize, Bool.not_eq_false'] at hseen
    rw [hseen] at hhearkens
    exact hhearkens.heeded hheard
  | resumed _ _ hphase => exact heeds_of_waiting hheard hphase
  | stopped hbefore htrigger hphase =>
    have htold := (Goes.moves (.coordinate hstep)).told hinv (haccounts.sent _ hbefore htrigger)
    exact heeds_of_done hheard (isDone_of_phase hphase) fun _ => ⟨htold, hphase⟩
  | concluded hbefore htrigger =>
    have hdeaf := h.hears _ hbefore
    simp [Flush.isDeaf, htrigger] at hdeaf

theorem Heeds.goes (h : t.Heeds) (haccounts : t.Accounts) (hinv : t.Invariant threshold)
    (hgoes : t.Goes u) : u.Heeds := by
  rcases hgoes.aside_or_coordinate hinv with haside | hcoordinate
  · refine ⟨haside.kept h.heard, ?_, ?_⟩
    · rw [haside.phase]
      exact h.hears
    · rw [haside.toBeside.isDone, haside.phase, haside.batches, haside.flushes]
      intro hdone hall
      obtain ⟨htold, hok⟩ := h.ends hdone hall
      exact ⟨hgoes.told hinv htold, hok⟩
  · exact h.coordinate? haccounts hinv hcoordinate

end OplogRelay.Transfer
