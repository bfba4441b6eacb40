import OplogRelay.Proofs.Transfer.Patience
/-!
Reading to the end. Where no fault waits in a log, every document can be read and the wait for another
one can be timed, reading does not fail.
-/
namespace OplogRelay

namespace Tail

variable {threshold : Timestamp} {o o' : Oplog} {t t' : Tail} {now : Nat} {outcome : Outcome}
variable {events : List Event}

/-- A log that a tail can read to the end. -/
structure Reads (threshold : Timestamp) (o : Oplog) (t : Tail) : Prop where
  faultless : o.fault = none
  readable : ∀ d ∈ o.documents, d.IsReadable threshold
  timed : ∃ span, t.idle.wait? = .ok span

theorem Reads.of_idle (h : t.Reads threshold o) (hidle : t'.idle = t.idle) :
    t'.Reads threshold o := by
  refine ⟨h.faultless, h.readable, ?_⟩
  rw [hidle]
  exact h.timed

theorem GivesUp.reads (h : t.GivesUp now outcome t' events) (e : Failure) :
    outcome ≠ .failed e := by
  cases h <;> exact fun hfailed => by cases hfailed

/-- A look at such a log finds an entry, or it leads to a wait or to the end. -/
theorem Reads.step? (h : t.Reads threshold o) (hp : t.Placed threshold o.documents)
    (hl : t.Live o.documents) (hstep : t.step? now o = some (outcome, o', t', events)) :
    o' = o ∧ t'.Reads threshold o ∧ ∀ e, outcome ≠ .failed e := by
  have hworks := works_of_step? hstep
  have hreads := h.of_idle hworks.idle
  have hthreshold := hp.threshold
  rcases hworks with ⟨_, hsees, hlook⟩ | ⟨_, hgives⟩
  case lapses => exact ⟨rfl, hreads, hgives.reads⟩
  cases hsees with
  | ended halive => exact absurd (halive.symm.trans hl.alive) (by decide)
  | fault _ hfault => cases h.faultless.symm.trans hfault
  | nothing =>
    refine ⟨rfl, hreads, ?_⟩
    cases hlook with
    | fruitless _ hgives => exact hgives.reads
    | untimed _ hwait =>
      obtain ⟨span, hspan⟩ := h.timed
      obtain ⟨e, he, _⟩ := wait?_eq_error (by exact hp.await) hwait
      cases he.symm.trans hspan
    | waits => exact fun e hfailed => by cases hfailed
  | @document below d above _ hlog _ hreach =>
    rw [hthreshold] at hreach
    have hmem : d ∈ o.documents := by
      apply List.mem_of_mem_drop
      rw [hlog]
      simp
    have hfrom := Cursor.isFrom_of_reaches hreach
    obtain ⟨entry, hentry⟩ := Entry.ofDocument?_of_isReadable (h.readable d hmem) hfrom
    refine ⟨rfl, hreads, ?_⟩
    cases hlook with
    | entry => exact fun e hfailed => by cases hfailed
    | malformed he => cases he.symm.trans hentry
  | @unreadable below d above e _ hlog _ hreach =>
    rw [hthreshold] at hreach
    have hmem : d ∈ o.documents := by
      apply List.mem_of_mem_drop
      rw [hlog]
      simp
    obtain ⟨ts, hts, _⟩ := h.readable d hmem
    cases (Cursor.reaches_timestamp hts threshold).symm.trans hreach

theorem Reads.expire? (h : t.Reads threshold o) (hexpire : t.expire? now = some t') :
    t'.Reads threshold o := by
  obtain ⟨_, _, _, rfl⟩ := expire?_eq_some hexpire
  exact h.of_idle rfl

end Tail

namespace Forwarder

variable {threshold : Timestamp} {o o' : Oplog} {f f' : Forwarder} {taken : List Entry} {now : Nat}
variable {events : List Event}

theorem not_hasFailed_onOutcome {outcome : Tail.Outcome} (hlive : f.ending = none)
    (hnot : ∀ e, outcome ≠ .failed e) : (f.onOutcome outcome).1.hasFailed = false := by
  have hsame {g : Forwarder} (hending : g.ending = f.ending) : g.hasFailed = false := by
    simp [hasFailed, hending, hlive]
  cases outcome with
  | pending => exact hsame rfl
  | entry e =>
    simp only [onOutcome, accept]
    split
    · exact hsame rfl
    · split <;> exact hsame rfl
  | ended => rfl
  | failed e => exact absurd rfl (hnot e)

theorem reads_onOutcome {tail : Tail} {outcome : Tail.Outcome} (h : tail.Reads threshold o) :
    ({ f with tail := tail }.onOutcome outcome).1.tail.Reads threshold o := by
  rcases tail_onOutcome { f with tail := tail } outcome with hsame | hresumed
  · rw [hsame]
    exact h
  · rw [hresumed]
    exact h.of_idle tail.resume_idle

theorem reads_of_step? (h : f.tail.Reads threshold o) (hsound : f.Sound threshold o.documents taken)
    (hstep : f.step? now o = some (o', f', events)) :
    o' = o ∧ f'.tail.Reads threshold o ∧ f'.hasFailed = false := by
  obtain ⟨hlive, ⟨e, _, _, rfl, rfl, _⟩ | ⟨_, outcome, tail, told, htail, rfl, _⟩⟩ :=
    step?_cases hstep
  · refine ⟨rfl, h.of_idle f.tail.resume_idle, ?_⟩
    simp [hasFailed, put, hlive]
  · obtain ⟨hsame, hreads, hnot⟩ := h.step? hsound.placed (hsound.live hlive) htail
    exact ⟨hsame, reads_onOutcome hreads, not_hasFailed_onOutcome (by exact hlive) hnot⟩

theorem reads_of_expire? (h : f.tail.Reads threshold o) (hexpire : f.expire? now = some f') :
    f'.tail.Reads threshold o ∧ f'.hasFailed = false := by
  obtain ⟨hlive, tail, htail, rfl⟩ := expire?_cases hexpire
  exact ⟨h.expire? htail, by simp [hasFailed, hlive]⟩

end Forwarder

end OplogRelay
