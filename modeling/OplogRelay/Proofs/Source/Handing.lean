import Mathlib.Logic.Relation
import OplogRelay.Proofs.Source.Forwarding
import OplogRelay.Source.Handoff
/-!
A hand-off together with what befell it: the entries that its tail gave, one by one, and what put an end to
its work. Whoever takes entries, and whenever, whatever the log meets with and at whatever moment the work is
cancelled, every entry that was given is taken, on the queue, held, or a no-op that was counted.
-/
namespace OplogRelay

namespace Handoff

variable {threshold : Timestamp} {h s : Handoff}

/-- What the next piece of work brings from the tail; an entry that is held goes before the tail. -/
def brings (h : Handoff) : Tail.Outcome :=
  match h.forwarder.held with
  | some _ => .pending
  | none =>
    match h.forwarder.tail.step? h.now h.oplog with
    | some (outcome, _) => outcome
    | none => .pending

/-- What a piece of work does: it puts the held entry on the queue, or passes a stretch of the log. -/
inductive Works (threshold : Timestamp) (h s : Handoff) : Prop where
  | puts {e} : h.forwarder.held = some e → h.forwarder.hasRoom = true → h.brings = .pending →
      s.forwarder = (h.forwarder.put e).1 → Works threshold h s
  | reads {tail stretch events} : h.forwarder.held = none →
      h.forwarder.tail.Passes threshold h.oplog.documents stretch h.brings tail events →
      s.forwarder = ({ h.forwarder with tail := tail }.onOutcome h.brings).1 → Works threshold h s

theorem works_of_step? (hsound : h.forwarder.Sound threshold h.oplog.documents h.taken)
    (hs : h.step? = some s) :
    h.forwarder.ending = none ∧ s.now = h.now ∧ s.taken = h.taken ∧
      s.oplog.documents = h.oplog.documents ∧ h.Works threshold s := by
  unfold step? at hs
  split at hs
  · next oplog forwarder events hwork =>
    cases hs
    obtain ⟨hlive, ⟨e, hheld, hroom, rfl, rfl, _⟩ | ⟨hheld, outcome, tail, told, htail, rfl, _⟩⟩ :=
      Forwarder.step?_cases hwork
    · exact ⟨hlive, rfl, rfl, rfl, .puts hheld hroom (by simp [brings, hheld]) rfl⟩
    · have hbrings : h.brings = outcome := by simp [brings, hheld, htail]
      obtain ⟨hdocs, stretch, hpasses⟩ :=
        Tail.passes_of_step? hsound.placed (hsound.live hlive) htail
      exact ⟨hlive, rfl, rfl, hdocs, .reads hheld (hbrings ▸ hpasses) (by rw [hbrings]; rfl)⟩
  · next hrest =>
    obtain ⟨forwarder, hexpire, rfl⟩ := Option.map_eq_some_iff.mp hs
    have hheld := hsound.unheld_of_expire? hexpire
    obtain ⟨hlive, tail, htail, rfl⟩ := Forwarder.expire?_cases hexpire
    have hlook := Forwarder.tail_rests_of_step? hlive hheld hrest
    have hbrings : h.brings = .pending := by simp [brings, hheld, hlook]
    have hpasses := Tail.passes_of_expire? hsound.placed (hsound.live hlive) htail
    exact ⟨hlive, rfl, rfl, rfl, .reads hheld (hbrings ▸ hpasses) (by rw [hbrings]; rfl)⟩

theorem forwarder_rests (hrest : h.step? = none) : h.forwarder.step? h.now h.oplog = none := by
  unfold step? at hrest
  split at hrest
  · cases hrest
  · next hwork => exact hwork

theorem lt_due {moment : Nat} (hrest : h.step? = none) (hdue : h.forwarder.due? = some moment) :
    h.now < moment := by
  unfold step? at hrest
  split at hrest
  · cases hrest
  · exact Forwarder.lt_due (Option.map_eq_none_iff.mp hrest) hdue

end Handoff

/-- What put an end to the work. -/
inductive Conclusion where
  | exhausted
  | raised (e : Failure)
  | cancelled

def Conclusion.ending : Conclusion → Forwarder.Ending
  | .exhausted => .exhausted
  | .raised (.stream e) => .failed e
  | .raised e => .escaped e
  | .cancelled => .cancelled

theorem Conclusion.ending_eq_failed {c : Conclusion} {e : StreamError} :
    c.ending = .failed e ↔ c = .raised (.stream e) := by
  cases c with
  | raised failure => cases failure <;> simp [ending]
  | _ => simp [ending]

theorem Conclusion.ending_eq_cancelled {c : Conclusion} : c.ending = .cancelled ↔ c = .cancelled := by
  cases c with
  | raised failure => cases failure <;> simp [ending]
  | _ => simp [ending]

/-- A hand-off, the entries that its tail gave so far, and what put an end to its work. -/
structure Handing where
  handoff : Handoff
  read : List Entry := []
  concluded : Option Conclusion := none

namespace Handing

def hear (h : Handing) : Tail.Outcome → Handing
  | .pending => h
  | .entry e => { h with read := h.read ++ [e] }
  | .ended => { h with concluded := some .exhausted }
  | .failed e => { h with concluded := some (.raised e) }

def work (h : Handing) (s : Handoff) : Handing := { h.hear h.handoff.brings with handoff := s }

def cancel (h : Handing) : Handing where
  handoff := h.handoff.act .cancel
  read := h.read
  concluded := h.concluded.or (some .cancelled)

inductive Step (h : Handing) : Handing → Prop where
  | work {s} : h.handoff.step? = some s → Step h (h.work s)
  | append (docs : List Document) : Step h { h with handoff := h.handoff.act (.append docs) }
  | inject (f : Fault) : Step h { h with handoff := h.handoff.act (.inject f) }
  | take (n : Nat) : Step h { h with handoff := h.handoff.act (.take n) }
  | cancel : Step h h.cancel
  | pass (moment : Nat) : h.handoff.now ≤ moment →
      Step h { h with handoff := { h.handoff with now := moment } }

abbrev Leads : Handing → Handing → Prop := Relation.ReflTransGen Step

/-- What can become of a hand-off with this threshold and this bound on its queue. -/
inductive Reachable (threshold : Timestamp) (k : Nat) : Handing → Prop where
  | opened {nsText docs opening idle h} : Handoff.open? nsText docs opening idle k = .ok h →
      Window.threshold? opening.lookback opening.clock = .ok threshold →
      Reachable threshold k { handoff := h }
  | step {h s} : Reachable threshold k h → Step h s → Reachable threshold k s

variable {threshold : Timestamp} {k : Nat} {h s u : Handing}

/-- The forwarder accounts for what was read, and remembers what put an end to its work. -/
structure Sound (threshold : Timestamp) (k : Nat) (h : Handing) : Prop where
  forwarder : h.handoff.forwarder.Sound threshold h.handoff.oplog.documents h.handoff.taken
  capacity : h.handoff.forwarder.capacity = k
  read : h.read = Entry.handedOut threshold
    (h.handoff.oplog.documents.take h.handoff.forwarder.tail.cursor.position)
  ending : h.handoff.forwarder.ending = h.concluded.map Conclusion.ending

theorem sound_opened {nsText : String} {docs : List Document} {opening : Opening} {idle : Quantity}
    {h : Handoff} (hopen : Handoff.open? nsText docs opening idle k = .ok h)
    (hthreshold : Window.threshold? opening.lookback opening.clock = .ok threshold) :
    Sound threshold k { handoff := h } := by
  unfold Handoff.open? at hopen
  split at hopen
  · cases hopen
  · next ns _ =>
    cases hopens : opening.tail ns idle 0 with
    | mk events outcome =>
      simp only [hopens] at hopen
      split at hopen
      · cases hopen
      · next tail =>
        obtain ⟨threshold', hthreshold', rfl⟩ := Opening.tail_eq_ok (congrArg Prod.snd hopens)
        obtain rfl : threshold = threshold' := Except.ok.inj (hthreshold.symm.trans hthreshold')
        unfold Forwarder.make? at hopen
        split at hopen
        · next hbad =>
          split at hbad
          · cases hopen
          · cases hbad
        · next forwarder hmade =>
          split at hmade
          · cases hmade
          · cases hmade
            cases hopen
            exact ⟨Forwarder.sound_start docs _ rfl rfl rfl rfl rfl rfl, rfl, rfl, rfl⟩

theorem read_hear {docs stretch : List Document} {tail : Tail} {outcome : Tail.Outcome}
    (htells : outcome.Tells threshold docs stretch tail) :
    (h.hear outcome).read = h.read ++ Entry.handedOut threshold stretch := by
  cases outcome with
  | entry e => rw [htells.1]; rfl
  | _ => rw [htells.1, List.append_nil]; rfl

theorem ending_onOutcome {f : Forwarder} {outcome : Tail.Outcome} (hlive : f.ending = none)
    (hconcluded : h.concluded = none) :
    (f.onOutcome outcome).1.ending = (h.hear outcome).concluded.map Conclusion.ending := by
  cases outcome with
  | pending => rw [hear, hconcluded]; exact hlive
  | entry e =>
    rw [hear, hconcluded]
    simp only [Forwarder.onOutcome, Forwarder.accept]
    split
    · exact hlive
    · split <;> exact hlive
  | ended => rfl
  | failed e => cases e <;> rfl

theorem Sound.ending_eq_none_iff (hsound : h.Sound threshold k) :
    h.handoff.forwarder.ending = none ↔ h.concluded = none := by
  rw [hsound.ending, Option.map_eq_none_iff]

theorem Sound.work {s : Handoff} (hsound : h.Sound threshold k) (hs : h.handoff.step? = some s) :
    (h.work s).Sound threshold k := by
  obtain ⟨hlive, _, htaken, hdocs, hworks⟩ := Handoff.works_of_step? hsound.forwarder hs
  have hconcluded := hsound.ending_eq_none_iff.mp hlive
  cases hworks with
  | puts hheld hroom hbrings hforwarder =>
    have hhear : h.hear h.handoff.brings = h := by rw [hbrings]; rfl
    refine ⟨?_, ?_, ?_, ?_⟩
    · show s.forwarder.Sound threshold s.oplog.documents s.taken
      rw [hforwarder, hdocs, htaken]
      exact hsound.forwarder.put hlive hheld hroom
    · show s.forwarder.capacity = k
      rw [hforwarder]
      exact hsound.capacity
    · show (h.hear h.handoff.brings).read = _
      rw [hhear, Handing.work, hforwarder, hdocs, Forwarder.cursor_put]
      exact hsound.read
    · show s.forwarder.ending = (h.hear h.handoff.brings).concluded.map Conclusion.ending
      rw [hhear, hforwarder]
      exact hsound.ending
  | reads hheld hpasses hforwarder =>
    refine ⟨?_, ?_, ?_, ?_⟩
    · show s.forwarder.Sound threshold s.oplog.documents s.taken
      rw [hforwarder, hdocs, htaken]
      exact (hsound.forwarder.passes hlive hheld hpasses).1
    · show s.forwarder.capacity = k
      rw [hforwarder, Forwarder.capacity_onOutcome]
      exact hsound.capacity
    · show (h.hear h.handoff.brings).read = _
      rw [read_hear hpasses.tells, Handing.work, hforwarder, hdocs, Forwarder.cursor_onOutcome,
        hpasses.passed, Entry.handedOut_append, hsound.read]
    · show s.forwarder.ending = (h.hear h.handoff.brings).concluded.map Conclusion.ending
      rw [hforwarder]
      exact ending_onOutcome hlive hconcluded

theorem Sound.grows {s : Handoff} {more : List Document} (hsound : h.Sound threshold k)
    (hforwarder : s.forwarder = h.handoff.forwarder.wake) (htaken : s.taken = h.handoff.taken)
    (hdocs : s.oplog.documents = h.handoff.oplog.documents ++ more) :
    ({ h with handoff := s } : Handing).Sound threshold k := by
  have hplace : h.handoff.forwarder.wake.tail.cursor.position =
      h.handoff.forwarder.tail.cursor.position := by rw [Forwarder.wake, Tail.wake_cursor]
  refine ⟨?_, ?_, ?_, ?_⟩
  · show s.forwarder.Sound threshold s.oplog.documents s.taken
    rw [hforwarder, htaken, hdocs]
    exact hsound.forwarder.append more
  · show s.forwarder.capacity = k
    rw [hforwarder]
    exact hsound.capacity
  · show h.read = Entry.handedOut threshold (s.oplog.documents.take s.forwarder.tail.cursor.position)
    rw [hforwarder, hdocs, hplace, List.take_append_of_le_length hsound.forwarder.placed.within]
    exact hsound.read
  · show s.forwarder.ending = h.concluded.map Conclusion.ending
    rw [hforwarder]
    exact hsound.ending

theorem Sound.take (hsound : h.Sound threshold k) (n : Nat) :
    ({ h with handoff := h.handoff.act (.take n) } : Handing).Sound threshold k :=
  ⟨hsound.forwarder.takeUpTo n, hsound.capacity, hsound.read, hsound.ending⟩

theorem Sound.cancel (hsound : h.Sound threshold k) : h.cancel.Sound threshold k := by
  refine ⟨hsound.forwarder.cancel, ?_, ?_, ?_⟩
  · exact h.handoff.forwarder.capacity_cancel.trans hsound.capacity
  · show h.read = Entry.handedOut threshold
      (h.handoff.oplog.documents.take h.handoff.forwarder.cancel.tail.cursor.position)
    rw [Forwarder.tail_cancel]
    exact hsound.read
  · show h.handoff.forwarder.cancel.ending = (h.concluded.or (some .cancelled)).map Conclusion.ending
    have hending := hsound.ending
    unfold Forwarder.cancel Forwarder.finished
    cases hconcluded : h.concluded with
    | none => simp [hending, hconcluded, Forwarder.finish, Conclusion.ending]
    | some c => simp [hending, hconcluded]

theorem Sound.step (hsound : h.Sound threshold k) (hs : h.Step s) : s.Sound threshold k := by
  cases hs with
  | work hwork => exact hsound.work hwork
  | append docs => exact hsound.grows rfl rfl (Oplog.documents_append _ docs)
  | inject f => exact hsound.grows rfl rfl (Oplog.documents_append (h.handoff.oplog.inject f) [])
  | take n => exact hsound.take n
  | cancel => exact hsound.cancel
  | pass moment _ => exact ⟨hsound.forwarder, hsound.capacity, hsound.read, hsound.ending⟩

theorem reachable_sound (hr : Reachable threshold k h) : h.Sound threshold k := by
  induction hr with
  | opened hopen hthreshold => exact sound_opened hopen hthreshold
  | step _ hs ih => exact ih.step hs

/-- Nothing more was read or forwarded: what was there to take is what can be taken. -/
structure Still (h s : Handing) : Prop where
  read : s.read = h.read
  held : s.handoff.forwarder.held = h.handoff.forwarder.held
  offered : s.handoff.taken ++ s.handoff.forwarder.queue = h.handoff.taken ++ h.handoff.forwarder.queue
  forwarded : s.handoff.forwarder.forwarded = h.handoff.forwarder.forwarded
  skipped : s.handoff.forwarder.skipped = h.handoff.forwarder.skipped

theorem Still.refl (h : Handing) : h.Still h := ⟨rfl, rfl, rfl, rfl, rfl⟩

theorem Still.trans (hs : h.Still s) (hu : s.Still u) : h.Still u :=
  ⟨hu.read.trans hs.read, hu.held.trans hs.held, hu.offered.trans hs.offered,
    hu.forwarded.trans hs.forwarded, hu.skipped.trans hs.skipped⟩

theorem still_take (h : Handing) (n : Nat) : h.Still { h with handoff := h.handoff.act (.take n) } := by
  refine ⟨rfl, rfl, ?_, rfl, rfl⟩
  show h.handoff.taken ++ h.handoff.forwarder.queue.take n ++ h.handoff.forwarder.queue.drop n = _
  rw [List.append_assoc, List.take_append_drop]

theorem still_cancel (h : Handing) : h.Still h.cancel := by
  have hspared : h.cancel.handoff.forwarder =
      { h.handoff.forwarder with ending := h.cancel.handoff.forwarder.ending } := by
    show h.handoff.forwarder.cancel = { h.handoff.forwarder with ending := h.handoff.forwarder.cancel.ending }
    unfold Forwarder.cancel
    split <;> rfl
  constructor
  · rfl
  · rw [hspared]
  · rw [hspared]
    rfl
  · rw [hspared]
  · rw [hspared]

theorem cancel_concluded (h : Handing) : h.cancel.concluded ≠ none := by
  cases hconcluded : h.concluded <;> simp [cancel, hconcluded]

theorem Sound.still (hsound : h.Sound threshold k) (hended : h.concluded ≠ none) (hs : h.Step s) :
    s.concluded = h.concluded ∧ h.Still s := by
  cases hs with
  | work hwork =>
    have hlive := (Handoff.works_of_step? hsound.forwarder hwork).1
    exact absurd (hsound.ending_eq_none_iff.mp hlive) hended
  | append | inject | pass => exact ⟨rfl, rfl, rfl, rfl, rfl, rfl⟩
  | take n => exact ⟨rfl, h.still_take n⟩
  | cancel =>
    obtain ⟨c, hc⟩ := Option.ne_none_iff_exists'.mp hended
    exact ⟨by simp [Handing.cancel, hc], h.still_cancel⟩

theorem Sound.still_of_leads (hsound : h.Sound threshold k) (hended : h.concluded ≠ none)
    (hs : h.Leads s) : s.concluded = h.concluded ∧ h.Still s := by
  have hkept : s.Sound threshold k ∧ s.concluded = h.concluded ∧ h.Still s := by
    induction hs with
    | refl => exact ⟨hsound, rfl, .refl h⟩
    | tail _ hstep ih =>
      obtain ⟨hmid, hsame, hstill⟩ := ih
      obtain ⟨hsame', hstill'⟩ := hmid.still (hsame ▸ hended) hstep
      exact ⟨hmid.step hstep, hsame'.trans hsame, hstill.trans hstill'⟩
  exact hkept.2

def Explains (threshold : Timestamp) (k : Nat) (s : Handoff) : Prop :=
  ∃ h : Handing, h.handoff = s ∧ Reachable threshold k h

theorem keeps_explains (threshold : Timestamp) (k : Nat) : Timed.Keeps (Explains threshold k) where
  work {s s'} hs hwork := by
    obtain ⟨h, rfl, hr⟩ := hs
    exact ⟨⟨h.work s', rfl, .step hr (.work hwork)⟩,
      (Handoff.works_of_step? (reachable_sound hr).forwarder hwork).2.1⟩
  ahead _ hrest hdue := Handoff.lt_due hrest hdue
  pass hs hle := by
    obtain ⟨h, rfl, hr⟩ := hs
    exact ⟨⟨_, rfl, .step hr (.pass _ hle)⟩, rfl⟩

theorem Explains.perform {s : Handoff} (hs : Explains threshold k s) (a : Handoff.Action) :
    Explains threshold k (s.perform a) := by
  apply (keeps_explains threshold k).settle
  cases a with
  | advance span => exact (keeps_explains threshold k).advanceTo hs (span.le_arrival s.now)
  | append docs =>
    obtain ⟨h, rfl, hr⟩ := hs
    exact ⟨_, rfl, .step hr (.append docs)⟩
  | inject f =>
    obtain ⟨h, rfl, hr⟩ := hs
    exact ⟨_, rfl, .step hr (.inject f)⟩
  | take n =>
    obtain ⟨h, rfl, hr⟩ := hs
    exact ⟨_, rfl, .step hr (.take n)⟩
  | cancel =>
    obtain ⟨h, rfl, hr⟩ := hs
    exact ⟨_, rfl, .step hr .cancel⟩

theorem Explains.actions {s : Handoff} (hs : Explains threshold k s) (actions : List Handoff.Action) :
    Explains threshold k (actions.foldl Handoff.perform s) := by
  induction actions generalizing s with
  | nil => exact hs
  | cons a rest ih => exact ih (hs.perform a)

/-- A hand-off that was opened is accounted for after any actions, and when all its work is done. -/
theorem explains_of_open {nsText : String} {docs : List Document} {opening : Opening} {idle : Quantity}
    {s : Handoff} (hopen : Handoff.open? nsText docs opening idle k = .ok s)
    (hthreshold : Window.threshold? opening.lookback opening.clock = .ok threshold)
    (actions : List Handoff.Action) :
    Explains threshold k (actions.foldl Handoff.perform (Timed.settle s)) ∧
      Explains threshold k (Timed.finish (actions.foldl Handoff.perform (Timed.settle s))) := by
  have hstart : Explains threshold k s := ⟨_, rfl, .opened hopen hthreshold⟩
  have hran := ((keeps_explains threshold k).settle hstart).actions actions
  exact ⟨hran, (keeps_explains threshold k).finish hran⟩

/-- What is true of a hand-off at every moment, and of one that has no work to do. -/
structure Accounted (threshold : Timestamp) (k : Nat) (h : Handing) : Prop where
  parts : h.handoff.taken ++ h.handoff.forwarder.queue ++ h.handoff.forwarder.held.toList =
    h.read.filter fun e => !e.isNoop
  read : h.read = Entry.handedOut threshold
    (h.handoff.oplog.documents.take h.handoff.forwarder.tail.cursor.position)
  bounded : h.handoff.forwarder.queue.length ≤ k
  forwarded : h.handoff.forwarder.forwarded =
    h.handoff.taken.length + h.handoff.forwarder.queue.length
  skipped : h.handoff.forwarder.skipped = h.read.countP Entry.isNoop
  finished : h.handoff.forwarder.finished = true ↔ h.concluded ≠ none
  error : ∀ e, h.handoff.forwarder.error? = some e ↔ h.concluded = some (.raised (.stream e))
  lost : h.handoff.forwarder.held ≠ none → h.concluded = none ∨ h.concluded = some .cancelled
  suspended : h.handoff.step? = none → h.concluded = none →
    h.handoff.forwarder.held ≠ none ∧ h.handoff.forwarder.queue.length = k ∨
      h.handoff.forwarder.held = none ∧
        h.read = Entry.handedOut threshold h.handoff.oplog.documents ∧
        ∃ until?, h.handoff.forwarder.tail.phase = .waiting until? false

theorem Sound.accounted (hsound : h.Sound threshold k) : h.Accounted threshold k where
  parts := by
    rw [hsound.read]
    exact hsound.forwarder.content
  read := hsound.read
  bounded := hsound.capacity ▸ hsound.forwarder.room
  forwarded := hsound.forwarder.counted
  skipped := by
    rw [hsound.read]
    exact hsound.forwarder.skipped
  finished := by rw [Forwarder.finished_iff, ne_eq, hsound.ending_eq_none_iff]
  error e := by
    have hending := hsound.ending
    unfold Forwarder.error?
    cases hconcluded : h.concluded with
    | none => simp [hending, hconcluded]
    | some c =>
      rw [hending, hconcluded, Option.map_some, Option.some_inj, ← Conclusion.ending_eq_failed]
      cases c.ending <;> simp
  lost hheld := by
    rcases hsound.forwarder.lost (Option.isSome_iff_ne_none.mpr hheld) with hlive | hcancelled
    · exact .inl (hsound.ending_eq_none_iff.mp hlive)
    · obtain ⟨c, hc, hends⟩ := Option.map_eq_some_iff.mp (hsound.ending.symm.trans hcancelled)
      rw [hc, Conclusion.ending_eq_cancelled.mp hends]
      exact .inr rfl
  suspended hrest hconcluded := by
    have hlive := hsound.ending_eq_none_iff.mpr hconcluded
    rcases hsound.forwarder.suspended hlive (Handoff.forwarder_rests hrest) with
      ⟨hheld, hfull⟩ | ⟨hheld, hend, hwaits⟩
    · exact .inl ⟨Option.isSome_iff_ne_none.mp hheld, hfull.trans hsound.capacity⟩
    · refine .inr ⟨hheld, ?_, hwaits⟩
      rw [hsound.read, hend, List.take_length]

/-- However a hand-off is used, what was read of the log in its order is what was taken, what is on the
queue and the one entry that may be held, no-ops apart, which are counted; the queue keeps to its bound, an
entry is held before a full queue only, and the end of the work is remembered with its cause. After the end
nothing moves any more, and a cancellation costs the held entry and no other. -/
theorem loses_nothing (hr : Reachable threshold k h) :
    h.Accounted threshold k ∧
      (h.concluded ≠ none → ∀ s, h.Leads s → s.concluded = h.concluded ∧ h.Still s) ∧
      h.cancel.handoff.taken = h.handoff.taken ∧
      h.cancel.handoff.forwarder.queue = h.handoff.forwarder.queue ∧
      h.cancel.concluded ≠ none ∧ ∀ s, h.cancel.Leads s → h.Still s := by
  have hsound := reachable_sound hr
  have hspared := h.still_cancel
  refine ⟨hsound.accounted, fun hended s hs => hsound.still_of_leads hended hs, rfl,
    List.append_cancel_left hspared.offered, h.cancel_concluded, fun s hs => ?_⟩
  exact hspared.trans (hsound.cancel.still_of_leads h.cancel_concluded hs).2

def smallLog : List Document := [
  [("ts", .timestamp (.ofWords 20 2)), ("op", .text "i")],
  [("ts", .timestamp (.ofWords 20 3)), ("op", .text "n")],
  [("ts", .timestamp (.ofWords 30 1)), ("op", .text "u")],
  [("ts", .timestamp (.ofWords 40 1)), ("op", .text "d")]]

def small : Handoff where
  oplog := { documents := smallLog }
  forwarder := {
    tail := .start ⟨"local", "oplog"⟩ (.ofWords 20 0) (.whole 5) 0
    capacity := 1 }
  journal := Journal.note [] 0 [.appended 4,
    .tailing ⟨"local", "oplog"⟩ (.ofWords 20 0) (.whole 5), .requested .cursor]

theorem open_small : Handoff.open? "local.oplog" smallLog { lookback := 100, clock := .whole 120 }
    (.whole 5) (1 : Nat) = .ok small := rfl

theorem threshold_small : Window.threshold? 100 (.whole 120) = .ok (.ofWords 20 0) := rfl

def cut : Handoff := [.take 1, .cancel, .take 5].foldl Handoff.perform (Timed.settle small)

theorem cut_eq : cut.taken.length = 2 ∧ cut.forwarder.queue.length = 0 ∧
    cut.forwarder.held.toList.length = 1 ∧ cut.forwarder.skipped = 1 ∧
    cut.forwarder.finished = true := by
  decide +kernel

theorem loses_nothing_cut : ∃ h : Handing, h.handoff = cut ∧
    Reachable (.ofWords 20 0) 1 h ∧ h.read.length = 4 ∧ h.handoff.taken.length = 2 ∧
    h.concluded = some .cancelled ∧ ∀ s, h.Leads s → s.handoff.forwarder.forwarded = 2 := by
  obtain ⟨⟨h, hcut, hr⟩, _⟩ := explains_of_open open_small threshold_small [.take 1, .cancel, .take 5]
  replace hcut : h.handoff = cut := hcut
  obtain ⟨hacc, hstill, _⟩ := loses_nothing hr
  obtain ⟨htaken, hqueue, hheld, hskipped, hfinished⟩ := cut_eq
  have hended : h.concluded ≠ none := by
    rw [← hacc.finished, hcut]
    exact hfinished
  have hcancelled : h.concluded = some .cancelled := by
    refine (hacc.lost ?_).resolve_left hended
    rw [hcut]
    intro hnone
    simp [hnone] at hheld
  have hread : h.read.length = 4 := by
    have hparts := congrArg List.length hacc.parts
    have hnoops := hacc.skipped
    rw [hcut] at hparts hnoops
    simp only [List.length_append, htaken, hqueue, hheld, ← List.countP_eq_length_filter] at hparts
    have hall := List.length_eq_countP_add_countP Entry.isNoop (l := h.read)
    simp only [Bool.not_eq_true, Bool.decide_eq_false] at hall
    omega
  have hforwarded : h.handoff.forwarder.forwarded = 2 := by
    rw [hacc.forwarded, hcut, htaken, hqueue]
  exact ⟨h, hcut, hr, hread, hcut ▸ htaken, hcancelled,
    fun s hs => (hstill hended s hs).2.forwarded.trans hforwarded⟩

end Handing

end OplogRelay
