import OplogRelay.Proofs.Source.Looking
import OplogRelay.Source.Forwarder
/-!
A forwarder loses nothing of what it reads: at every moment the entries taken off its queue, those
on the queue and the one that it holds are the entries of the stretch of the log that its cursor
has passed. One lemma says what a piece of work at the tail comes to, one what the forwarder makes
of it.
-/
namespace OplogRelay

namespace Tail

/-- Why reading can end with a failure that is none of the stream's: a document that cannot be
compared, an idle wait that no clock can be set to, or a fault of another kind. -/
inductive Escape (threshold : Timestamp) (idle : Quantity) (docs : List Document) :
    Failure → Prop where
  | unreadable {d e} : d ∈ docs → Cursor.reaches (.timestamp threshold) d = .error e →
      Escape threshold idle docs (.unreadable e)
  | clock {e} : idle.wait? = .error e → Escape threshold idle docs (.conversion e)
  | fault {f : Fault} : f.isDriver = false → f.isDecoding = false →
      Escape threshold idle docs (.ofFault f)

theorem Escape.mono {threshold : Timestamp} {idle : Quantity} {docs more : List Document}
    {e : Failure} (h : Escape threshold idle docs e) (hsub : ∀ d ∈ docs, d ∈ more) :
    Escape threshold idle more e := by
  cases h with
  | unreadable hd he => exact .unreadable (hsub _ hd) he
  | clock he => exact .clock he
  | fault hf hg => exact .fault hf hg

structure Placed (threshold : Timestamp) (docs : List Document) (t : Tail) : Prop where
  threshold : t.cursor.threshold = .timestamp threshold
  await : t.cursor.await = .number t.idle
  within : t.cursor.position ≤ docs.length

/-- A tail that has not ended. Where it waits and was not woken there is nothing left to look at. -/
structure Live (docs : List Document) (t : Tail) : Prop where
  alive : t.cursor.alive = true
  opened : t.closed = false
  running : t.phase ≠ .over
  caught_up : ∀ until?, t.phase = .waiting until? false → t.cursor.position = docs.length

def Outcome.Tells (threshold : Timestamp) (docs stretch : List Document) (t : Tail) :
    Outcome → Prop
  | .entry e => Entry.handedOut threshold stretch = [e] ∧
      (∀ d ∈ stretch, d.IsReadable threshold) ∧ t.Live docs ∧ t.phase = .resting
  | .pending => Entry.handedOut threshold stretch = [] ∧
      (∀ d ∈ stretch, d.IsReadable threshold) ∧ t.Live docs ∧ t.phase ≠ .resting
  | .ended => Entry.handedOut threshold stretch = [] ∧ ∀ d ∈ stretch, d.IsReadable threshold
  | .failed e => Entry.handedOut threshold stretch = [] ∧
      ((∃ s, e = .stream s) ∨ Escape threshold t.idle docs e)

variable {threshold : Timestamp} {docs : List Document} {t t' : Tail} {now : Nat}
variable {outcome : Outcome} {events : List Event}

@[simp]
theorem wake_cursor (t : Tail) : t.wake.cursor = t.cursor := by
  unfold wake
  split <;> rfl

@[simp]
theorem wake_idle (t : Tail) : t.wake.idle = t.idle := by
  unfold wake
  split <;> rfl

theorem wake_lastSeen (t : Tail) : t.wake.lastSeen = t.lastSeen := by
  unfold wake
  split <;> rfl

theorem waits_of_wake {until? : Option Nat} {woken : Bool} (h : t.wake.phase = .waiting until? woken) :
    ∃ before, t.phase = .waiting until? before := by
  unfold wake at h
  split at h
  · next before hphase =>
    cases h
    exact ⟨before, hphase⟩
  · exact ⟨woken, h⟩

theorem lapsed_of_wake (h : t.wake.phase = .lapsed) : t.phase = .lapsed := by
  unfold wake at h
  split at h
  · cases h
  · exact h

theorem resume_of_not_resting (h : t.phase ≠ .resting) : t.resume = t := by
  unfold resume
  split
  · next hrest => exact absurd hrest h
  · rfl

@[simp]
theorem resume_cursor (t : Tail) : t.resume.cursor = t.cursor := by
  unfold resume
  split <;> rfl

@[simp]
theorem resume_idle (t : Tail) : t.resume.idle = t.idle := by
  unfold resume
  split <;> rfl

theorem Placed.append (h : t.Placed threshold docs) (more : List Document) :
    t.wake.Placed threshold (docs ++ more) := by
  constructor
  · rw [wake_cursor]
    exact h.threshold
  · rw [wake_cursor, wake_idle]
    exact h.await
  · rw [wake_cursor, List.length_append]
    exact Nat.le_add_right_of_le h.within

theorem Live.append (h : t.Live docs) (more : List Document) : t.wake.Live (docs ++ more) := by
  cases hp : t.phase with
  | waiting u w =>
    have hw : t.wake = { t with phase := .waiting u true } := by simp [wake, hp]
    rw [hw]
    exact ⟨h.alive, h.opened, by simp, by simp⟩
  | _ =>
    have hw : t.wake = t := by simp [wake, hp]
    rw [hw]
    exact ⟨h.alive, h.opened, h.running, by simp [hp]⟩

theorem readable_of_below {below : List Document}
    (h : ∀ d ∈ below, Cursor.reaches (.timestamp threshold) d = .ok false) :
    ∀ d ∈ below, d.IsReadable threshold := by
  intro d hd
  obtain ⟨ts, hts, hle⟩ := Cursor.reaches_eq_ok_iff.mp (h d hd)
  exact ⟨ts, hts, fun hn => absurd hn (by simpa using hle)⟩

theorem Outcome.Tells.extend {stretch : List Document} (h : outcome.Tells threshold docs [] t)
    (hnone : Entry.handedOut threshold stretch = [])
    (hread : ∀ d ∈ stretch, d.IsReadable threshold) : outcome.Tells threshold docs stretch t := by
  cases outcome with
  | entry e => exact absurd h.1 (by simp [Entry.handedOut])
  | pending => exact ⟨hnone, hread, h.2.2⟩
  | ended => exact ⟨hnone, hread⟩
  | failed e => exact ⟨hnone, h.2⟩

/-- A piece of work at a tail: the stretch of the log that it passes, what it tells of it, and the
tail that it leaves. -/
structure Passes (threshold : Timestamp) (docs stretch : List Document) (t : Tail)
    (outcome : Outcome) (t' : Tail) (events : List Event) : Prop where
  placed : t'.Placed threshold docs
  idle : t'.idle = t.idle
  idled : ∀ e ∈ events, e = .idled t.ns t.idle
  passed : docs.take t'.cursor.position = docs.take t.cursor.position ++ stretch
  tells : outcome.Tells threshold docs stretch t'

theorem Passes.seen {cursor : Cursor} {stretch : List Document}
    (h : ({ t with cursor := cursor } : Tail).Passes threshold docs [] outcome t' events)
    (hlog : docs.take cursor.position = docs.take t.cursor.position ++ stretch)
    (hnone : Entry.handedOut threshold stretch = [])
    (hread : ∀ d ∈ stretch, d.IsReadable threshold) :
    t.Passes threshold docs stretch outcome t' events where
  placed := h.placed
  idle := h.idle
  idled := h.idled
  passed := by
    rw [h.passed, List.append_nil]
    exact hlog
  tells := h.tells.extend hnone hread

theorem GivesUp.passes (h : t.GivesUp now outcome t' events) (hp : t.Placed threshold docs)
    (halive : t.cursor.alive = true) (hopen : t.closed = false) :
    t.Passes threshold docs [] outcome t' events := by
  have hplaced {phase : Phase} : ({ t with phase := phase } : Tail).Placed threshold docs :=
    ⟨hp.threshold, hp.await, hp.within⟩
  cases h with
  | idled => exact ⟨hplaced, rfl, by simp, by simp, rfl, by simp⟩
  | shut => exact ⟨hplaced, rfl, by simp, by simp, rfl, by simp⟩
  | anew =>
    exact ⟨hplaced, rfl, by simp, by simp, rfl, by simp, ⟨halive, hopen, by simp, by simp⟩, by simp⟩

theorem Follows.passes_nothing {again : Bool}
    (h : t.Follows now again .nothing outcome t' events) (hp : t.Placed threshold docs)
    (halive : t.cursor.alive = true) (hopen : t.closed = false)
    (hend : t.cursor.position = docs.length) : t.Passes threshold docs [] outcome t' events := by
  have hplaced {phase : Phase} : ({ t with phase := phase } : Tail).Placed threshold docs :=
    ⟨hp.threshold, hp.await, hp.within⟩
  cases h with
  | fruitless _ hgives => exact hgives.passes hp halive hopen
  | untimed _ hwait =>
    obtain ⟨e, he, rfl⟩ := wait?_eq_error hp.await hwait
    exact ⟨hplaced, rfl, by simp, by simp, rfl, .inr (.clock he)⟩
  | waits =>
    exact ⟨hplaced, rfl, by simp, by simp, rfl, by simp, ⟨halive, hopen, by simp, fun _ _ => hend⟩,
      by simp⟩

theorem Follows.passes_document {again : Bool} {below above : List Document} {d : Document}
    (h : ({ t with cursor :=
        { t.cursor with position := t.cursor.position + (below.length + 1) } } : Tail).Follows
      now again (.document d) outcome t' events)
    (hp : t.Placed threshold docs) (hl : t.Live docs)
    (hlog : docs.drop t.cursor.position = below ++ d :: above)
    (hbelow : ∀ b ∈ below, Cursor.reaches (.timestamp threshold) b = .ok false)
    (hreach : Cursor.reaches (.timestamp threshold) d = .ok true) :
    t.Passes threshold docs (below ++ [d]) outcome t' events := by
  have hwithin := position_within hlog hp.within
  have hnone := Entry.handedOut_below hbelow
  cases h with
  | @malformed _ e he =>
    refine ⟨⟨hp.threshold, hp.await, hwithin⟩, rfl, by simp, take_past hlog, ?_, ?_⟩
    · rw [Entry.handedOut_append, hnone, Entry.handedOut_refused (.inr ⟨e, he⟩), List.nil_append]
    · cases e
      exact .inl ⟨_, rfl⟩
  | entry he =>
    refine ⟨⟨hp.threshold, hp.await, hwithin⟩, rfl, by simp, take_past hlog, ?_, ?_,
      ⟨hl.alive, hl.opened, by simp, by simp⟩, rfl⟩
    · rw [Entry.handedOut_append, hnone, Entry.handedOut_entry hreach he, List.nil_append]
    · intro x hx
      rcases List.mem_append.mp hx with hx | hx
      · exact readable_of_below hbelow x hx
      · obtain ⟨ts, hts, _⟩ := Cursor.reaches_eq_ok_iff.mp hreach
        rw [List.mem_singleton.mp hx]
        exact ⟨ts, hts, fun _ => ⟨_, Entry.operation_of_ofDocument? he⟩⟩

theorem ofReadFault_cases (f : Fault) :
    (∃ s, Failure.ofReadFault f = .stream s) ∨
      f.isDriver = false ∧ f.isDecoding = false ∧ Failure.ofReadFault f = .ofFault f := by
  unfold Failure.ofReadFault
  by_cases h : (f.isDriver || f.isDecoding) = true
  · exact .inl ⟨_, if_pos h⟩
  · rw [if_neg h]
    simp only [Bool.not_eq_true, Bool.or_eq_false_iff] at h
    exact .inr ⟨h.1, h.2, rfl⟩

/-- A step of a live tail passes a stretch of the log and tells what became of it. -/
theorem passes_of_step? {o o' : Oplog} (hp : t.Placed threshold o.documents)
    (hl : t.Live o.documents) (h : t.step? now o = some (outcome, o', t', events)) :
    o'.documents = o.documents ∧
      ∃ stretch, t.Passes threshold o.documents stretch outcome t' events := by
  have hthreshold := hp.threshold
  rcases works_of_step? h with ⟨_, hsees, hlook⟩ | ⟨_, hgives⟩
  case lapses => exact ⟨rfl, [], hgives.passes hp hl.alive hl.opened⟩
  cases hsees with
  | ended ha => exact absurd (ha.symm.trans hl.alive) (by decide)
  | @fault f _ hf =>
    cases hlook
    refine ⟨rfl, [], ⟨hthreshold, hp.await, hp.within⟩, rfl, by simp, by simp, rfl, ?_⟩
    rcases ofReadFault_cases f with hs | ⟨hd, hc, he⟩
    · exact .inl hs
    · exact .inr (he ▸ .fault hd hc)
  | nothing _ hbelow =>
    rw [hthreshold] at hbelow
    have hend : t.cursor.position + (o.documents.drop t.cursor.position).length =
        o.documents.length := by
      rw [List.length_drop]
      exact Nat.add_sub_cancel' hp.within
    refine ⟨rfl, o.documents.drop t.cursor.position, ?_⟩
    have hpasses := hlook.passes_nothing ⟨hthreshold, hp.await, Nat.le_of_eq hend⟩ hl.alive
      hl.opened hend
    refine hpasses.seen ?_ (Entry.handedOut_below hbelow) (readable_of_below hbelow)
    rw [hend, List.take_length, List.take_append_drop]
  | document _ hlog hbelow hreach =>
    rw [hthreshold] at hbelow hreach
    exact ⟨rfl, _, hlook.passes_document hp hl hlog hbelow hreach⟩
  | @unreadable below d above e _ hlog hbelow hreach =>
    rw [hthreshold] at hbelow hreach
    cases hlook
    have hmem : d ∈ o.documents := by
      apply List.mem_of_mem_drop
      rw [hlog]
      simp
    refine ⟨rfl, below ++ [d], ⟨hthreshold, hp.await, position_within hlog hp.within⟩, rfl,
      by simp, take_past hlog, ?_, .inr (.unreadable hmem hreach)⟩
    rw [Entry.handedOut_append, Entry.handedOut_below hbelow,
      Entry.handedOut_refused (.inl ⟨e, hreach⟩), List.nil_append]

theorem all_read_of_step? {o o' : Oplog} (hp : t.Placed threshold o.documents)
    (hl : t.Live o.documents) (h : t.step? now o = some (.ended, o', t', events)) :
    t.phase = .lapsed ∧ t'.cursor = t.cursor ∨ t'.cursor.position = o.documents.length := by
  rcases works_of_step? h with ⟨_, hsees, hlook⟩ | ⟨hlapsed, hgives⟩
  case lapses => exact .inl ⟨hlapsed, by cases hgives <;> rfl⟩
  refine .inr ?_
  cases hsees with
  | ended ha => exact absurd (ha.symm.trans hl.alive) (by decide)
  | fault => cases hlook
  | document => cases hlook
  | unreadable => cases hlook
  | nothing =>
    have hend : t.cursor.position + (o.documents.drop t.cursor.position).length =
        o.documents.length := by
      rw [List.length_drop]
      exact Nat.add_sub_cancel' hp.within
    cases hlook with
    | fruitless _ hgives => cases hgives <;> exact hend

theorem passes_of_expire? (hp : t.Placed threshold docs) (hl : t.Live docs)
    (h : t.expire? now = some t') : t.Passes threshold docs [] .pending t' [] := by
  obtain ⟨_, _, _, rfl⟩ := expire?_eq_some h
  exact ⟨⟨hp.threshold, hp.await, hp.within⟩, rfl, by simp, by simp, rfl, by simp,
    ⟨hl.alive, hl.opened, by simp, by simp⟩, by simp⟩

theorem waits_of_expire? (h : t.expire? now = some t') : t.phase ≠ .resting := by
  obtain ⟨due, hphase, _⟩ := expire?_eq_some h
  simp [hphase]

end Tail

def Event.IsOfReading : Event → Prop
  | .skipped _ | .forwarded _ _ | .idled _ _ | .readFailed _ | .readDone _ => True
  | _ => False

namespace Forwarder

def hasFailed (f : Forwarder) : Bool :=
  match f.ending with
  | some (.failed _) | some (.escaped _) => true
  | _ => false

/-- Where everything is that was read of a log, if `taken` was taken off the queue so far. -/
structure Sound (threshold : Timestamp) (docs : List Document) (taken : List Entry)
    (f : Forwarder) : Prop where
  placed : f.tail.Placed threshold docs
  live : f.ending = none → f.tail.Live docs
  resting : f.ending = none → (f.held.isSome = true ↔ f.tail.phase = .resting)
  content : taken ++ f.queue ++ f.held.toList =
    Entry.forwardable threshold (docs.take f.tail.cursor.position)
  counted : f.forwarded = taken.length + f.queue.length
  skipped : f.skipped =
    (Entry.handedOut threshold (docs.take f.tail.cursor.position)).countP Entry.isNoop
  room : f.queue.length ≤ f.capacity
  readable : f.hasFailed = false →
    ∀ d ∈ docs.take f.tail.cursor.position, d.IsReadable threshold
  selected : (Entry.forwardable threshold (docs.take f.tail.cursor.position)).map Entry.raw <+:
    Document.relayable threshold docs
  escape : ∀ e, f.ending = some (.escaped e) →
    Tail.Escape threshold f.tail.idle docs e ∧ ∀ s, e ≠ .stream s
  lost : f.held.isSome = true → f.ending = none ∨ f.ending = some .cancelled

variable {threshold : Timestamp} {docs : List Document} {taken : List Entry} {f f' : Forwarder}
variable {now : Nat} {events : List Event}

theorem sound_start {tail : Tail} (docs : List Document) (capacity : Nat)
    (hthreshold : tail.cursor.threshold = .timestamp threshold)
    (hawait : tail.cursor.await = .number tail.idle) (hplace : tail.cursor.position = 0)
    (halive : tail.cursor.alive = true) (hopen : tail.closed = false)
    (hphase : tail.phase = .looking) :
    Sound threshold docs [] { tail := tail, capacity := capacity } where
  placed := ⟨hthreshold, hawait, by simp [hplace]⟩
  live _ := ⟨halive, hopen, by simp [hphase], by simp [hphase]⟩
  resting _ := by simp [hphase]
  content := by simp [hplace, Entry.forwardable, Entry.handedOut]
  counted := rfl
  skipped := by simp [hplace, Entry.handedOut]
  room := Nat.zero_le _
  readable _ := by simp [hplace]
  selected := by simp [hplace, Entry.forwardable, Entry.handedOut]
  escape e he := by simp at he
  lost h := by simp at h

theorem Sound.append (h : f.Sound threshold docs taken) (more : List Document) :
    f.wake.Sound threshold (docs ++ more) taken := by
  have hplaced := h.placed.append more
  have hplace : f.wake.tail.cursor.position = f.tail.cursor.position := by
    rw [wake, Tail.wake_cursor]
  have hidle : f.wake.tail.idle = f.tail.idle := f.tail.wake_idle
  have htake : (docs ++ more).take f.wake.tail.cursor.position =
      docs.take f.tail.cursor.position := by
    rw [hplace, List.take_append_of_le_length h.placed.within]
  have hphase : f.wake.tail.phase = .resting ↔ f.tail.phase = .resting := by
    unfold wake Tail.wake
    split <;> simp_all
  constructor
  · exact hplaced
  · exact fun he => (h.live he).append more
  · exact fun he => (h.resting he).trans hphase.symm
  · rw [htake]
    exact h.content
  · exact h.counted
  · rw [htake]
    exact h.skipped
  · exact h.room
  · rw [htake]
    exact h.readable
  · rw [htake]
    exact h.selected.trans ((List.prefix_append docs more).filter _)
  · intro e he
    rw [hidle]
    obtain ⟨hescape, hapart⟩ := h.escape e he
    exact ⟨hescape.mono fun d hd => List.mem_append_left more hd, hapart⟩
  · exact h.lost

theorem Sound.take {e : Entry} {rest : List Entry} (h : f.Sound threshold docs taken)
    (hq : f.queue = e :: rest) :
    Sound threshold docs (taken ++ [e]) { f with queue := rest } := by
  have hcontent := h.content
  have hcounted := h.counted
  have hroom := h.room
  rw [hq] at hcontent hcounted hroom
  constructor
  · exact h.placed
  · exact h.live
  · exact h.resting
  · simpa using hcontent
  · simp only [List.length_append, List.length_cons, List.length_nil] at hcounted ⊢
    omega
  · exact h.skipped
  · simp only [List.length_cons] at hroom ⊢
    omega
  · exact h.readable
  · exact h.selected
  · exact h.escape
  · exact h.lost

theorem Sound.takeUpTo (h : f.Sound threshold docs taken) (n : Nat) :
    (f.takeUpTo n).2.Sound threshold docs (taken ++ (f.takeUpTo n).1) := by
  induction n generalizing f taken with
  | zero => simpa [Forwarder.takeUpTo] using h
  | succ n ih =>
    cases hq : f.queue with
    | nil =>
      have hsame : { f with queue := [] } = f := by rw [← hq]
      simpa [Forwarder.takeUpTo, hq, hsame] using h
    | cons e rest => simpa [Forwarder.takeUpTo, hq] using ih (h.take hq)

theorem Sound.cancel (h : f.Sound threshold docs taken) : f.cancel.Sound threshold docs taken := by
  unfold Forwarder.cancel finished
  split
  · exact h
  · next hlive =>
    have hnone : f.ending = none := by simpa using hlive
    exact {
      placed := h.placed
      live := by simp [finish]
      resting := by simp [finish]
      content := h.content
      counted := h.counted
      skipped := h.skipped
      room := h.room
      readable := fun _ => h.readable (by simp [hasFailed, hnone])
      selected := h.selected
      escape := by simp [finish]
      lost := fun _ => .inr rfl }

theorem resume_of_resting {t : Tail} (h : t.phase = .resting) :
    t.resume = { t with phase := .looking } := by
  simp [Tail.resume, h]

theorem resume_live {t : Tail} (h : t.Live docs) (hr : t.phase = .resting) :
    t.resume.Live docs ∧ t.resume.phase = .looking ∧ t.resume.cursor = t.cursor ∧
      t.resume.idle = t.idle := by
  rw [resume_of_resting hr]
  exact ⟨⟨h.alive, h.opened, by simp, by simp⟩, rfl, rfl, rfl⟩

theorem Sound.resumed {tail : Tail} (hp : tail.Placed threshold docs) (hl : tail.Live docs)
    (hr : tail.phase = .resting) : tail.resume.Placed threshold docs := by
  obtain ⟨_, _, hcursor, hidle⟩ := resume_live hl hr
  exact ⟨hcursor ▸ hp.threshold, by rw [hcursor, hidle]; exact hp.await, hcursor ▸ hp.within⟩

theorem Sound.put {e : Entry} (h : f.Sound threshold docs taken) (hlive : f.ending = none)
    (hheld : f.held = some e) (hroom : f.hasRoom = true) :
    ((f.put e).1).Sound threshold docs taken := by
  have htail := h.live hlive
  have hrest := (h.resting hlive).mp (by simp [hheld])
  obtain ⟨hrlive, hrphase, hrcursor, hridle⟩ := resume_live htail hrest
  have hcontent := h.content
  have hselected := h.selected
  have hreadable := h.readable (by simp [hasFailed, hlive])
  rw [hheld] at hcontent
  have hlt : f.queue.length < f.capacity := by simpa [hasRoom] using hroom
  exact {
    placed := Sound.resumed h.placed htail hrest
    live := fun _ => hrlive
    resting := fun _ => by simp [Forwarder.put, hrphase]
    content := by simpa [Forwarder.put, hrcursor] using hcontent
    counted := by
      have hcounted := h.counted
      simp only [Forwarder.put, List.length_append, List.length_cons, List.length_nil]
      omega
    skipped := by simpa [Forwarder.put, hrcursor] using h.skipped
    room := by
      simp only [Forwarder.put, List.length_append, List.length_cons, List.length_nil]
      omega
    readable := fun _ => by simpa [Forwarder.put, hrcursor] using hreadable
    selected := by simpa [Forwarder.put, hrcursor] using hselected
    escape := by simp [Forwarder.put, hlive]
    lost := by simp [Forwarder.put] }

theorem Sound.content_after {tail : Tail} {stretch : List Document} {es : List Entry}
    (h : f.Sound threshold docs taken) (hheld : f.held = none)
    (hlog : docs.take tail.cursor.position = docs.take f.tail.cursor.position ++ stretch)
    (hes : Entry.handedOut threshold stretch = es) :
    Entry.forwardable threshold (docs.take tail.cursor.position) =
        taken ++ f.queue ++ es.filter (fun e => !e.isNoop) ∧
      (Entry.handedOut threshold (docs.take tail.cursor.position)).countP Entry.isNoop =
        f.skipped + es.countP Entry.isNoop := by
  have hcontent := h.content
  rw [hheld, Option.toList_none, List.append_nil] at hcontent
  rw [hlog, Entry.forwardable_append, Entry.handedOut_append, ← hcontent,
    Entry.forwardable_of_handedOut hes, List.countP_append, ← h.skipped, hes]
  exact ⟨rfl, rfl⟩

theorem Sound.readable_after {tail : Tail} {stretch : List Document}
    (h : f.Sound threshold docs taken) (hlive : f.ending = none)
    (hlog : docs.take tail.cursor.position = docs.take f.tail.cursor.position ++ stretch)
    (hread : ∀ d ∈ stretch, d.IsReadable threshold) :
    ∀ d ∈ docs.take tail.cursor.position, d.IsReadable threshold := by
  rw [hlog]
  intro d hd
  rcases List.mem_append.mp hd with hd | hd
  · exact h.readable (by simp [hasFailed, hlive]) d hd
  · exact hread d hd

section Outcomes

variable {tail : Tail} {stretch : List Document}
variable (h : f.Sound threshold docs taken) (hlive : f.ending = none) (hheld : f.held = none)
variable (hplaced : tail.Placed threshold docs)
variable (hlog : docs.take tail.cursor.position = docs.take f.tail.cursor.position ++ stretch)

include h hlive hheld hplaced hlog

theorem Sound.accept {e : Entry}
    (htells : (Tail.Outcome.entry e).Tells threshold docs stretch tail) :
    (({ f with tail := tail }.accept e).1).Sound threshold docs taken ∧
      ∀ ev ∈ ({ f with tail := tail }.accept e).2, ev.IsOfReading := by
  obtain ⟨hes, hread, htail, hrest⟩ := htells
  obtain ⟨hcontent, hskipped⟩ := h.content_after hheld hlog hes
  have hreadable := h.readable_after hlive hlog hread
  have hselected := Entry.raw_forwardable_take hreadable
  by_cases hn : e.isNoop = true
  · obtain ⟨hrlive, hrphase, hrcursor, _⟩ := resume_live htail hrest
    simp only [List.filter_cons, hn, Bool.not_true, Bool.false_eq_true, if_false, List.filter_nil,
      List.append_nil] at hcontent
    simp only [List.countP_cons, hn, if_true, List.countP_nil] at hskipped
    rw [Forwarder.accept, if_pos hn]
    refine ⟨?_, by simp [Event.IsOfReading]⟩
    exact {
      placed := Sound.resumed hplaced htail hrest
      live := fun _ => hrlive
      resting := fun _ => by simp [hheld, hrphase]
      content := by simp [hheld, hcontent]
      counted := h.counted
      skipped := by simp only [hrcursor, hskipped]
      room := h.room
      readable := fun _ => hrcursor ▸ hreadable
      selected := hrcursor ▸ hselected
      escape := by simp [hlive]
      lost := by simp [hheld] }
  · simp only [List.filter_cons, hn, Bool.not_false, if_true, List.filter_nil] at hcontent
    simp only [List.countP_cons, hn, List.countP_nil] at hskipped
    have hhold : Sound threshold docs taken { f with tail := tail, held := some e } := {
      placed := hplaced
      live := fun _ => htail
      resting := fun _ => by simp [hrest]
      content := by simpa using hcontent.symm
      counted := h.counted
      skipped := by simpa using hskipped.symm
      room := h.room
      readable := fun _ => hreadable
      selected := hselected
      escape := by simp [hlive]
      lost := fun _ => .inl hlive }
    rw [Forwarder.accept, if_neg hn]
    split
    · next hroom => exact ⟨hhold.put hlive rfl hroom, by simp [Forwarder.put, Event.IsOfReading]⟩
    · exact ⟨hhold, by simp⟩

theorem Sound.idle {ending : Option Ending} (hes : Entry.handedOut threshold stretch = [])
    (hread : ∀ d ∈ stretch, d.IsReadable threshold)
    (htail : ending = none → tail.Live docs ∧ tail.phase ≠ .resting)
    (hend : ending = none ∨ ending = some .exhausted) :
    Sound threshold docs taken { f with tail := tail, ending := ending } := by
  obtain ⟨hcontent, hskipped⟩ := h.content_after hheld hlog hes
  have hreadable := h.readable_after hlive hlog hread
  exact {
    placed := hplaced
    live := fun he => (htail he).1
    resting := fun he => by simp [hheld, (htail he).2]
    content := by simpa [hheld] using hcontent.symm
    counted := h.counted
    skipped := by simpa using hskipped.symm
    room := h.room
    readable := fun _ => hreadable
    selected := Entry.raw_forwardable_take hreadable
    escape := by rcases hend with rfl | rfl <;> simp
    lost := by simp [hheld] }

omit hlive in
theorem Sound.fail {ending : Ending} (hes : Entry.handedOut threshold stretch = [])
    (hfail : hasFailed { f with ending := some ending } = true)
    (hescape : ∀ e, ending = .escaped e →
      Tail.Escape threshold tail.idle docs e ∧ ∀ s, e ≠ .stream s) :
    Sound threshold docs taken { f with tail := tail, ending := some ending } := by
  obtain ⟨hcontent, hskipped⟩ := h.content_after hheld hlog hes
  have hsame : Entry.forwardable threshold (docs.take tail.cursor.position) =
      Entry.forwardable threshold (docs.take f.tail.cursor.position) := by
    rw [hcontent, ← h.content, hheld]
    rfl
  exact {
    placed := hplaced
    live := by simp
    resting := by simp
    content := by simpa [hheld] using hcontent.symm
    counted := h.counted
    skipped := by simpa using hskipped.symm
    room := h.room
    readable := fun hn => absurd (hfail.symm.trans hn) (by decide)
    selected := by
      rw [hsame]
      exact h.selected
    escape := fun e he => hescape e (Option.some.inj he)
    lost := by simp [hheld] }

theorem Sound.onOutcome {outcome : Tail.Outcome}
    (htells : outcome.Tells threshold docs stretch tail) :
    (({ f with tail := tail }.onOutcome outcome).1).Sound threshold docs taken ∧
      ∀ ev ∈ ({ f with tail := tail }.onOutcome outcome).2, ev.IsOfReading := by
  cases outcome with
  | pending =>
    obtain ⟨hes, hread, htail⟩ := htells
    have hsound : Sound threshold docs taken { f with tail := tail, ending := none } :=
      h.idle hlive hheld hplaced hlog hes hread (fun _ => htail) (.inl rfl)
    rw [← hlive] at hsound
    exact ⟨hsound, by simp [Forwarder.onOutcome]⟩
  | entry e => exact h.accept hlive hheld hplaced hlog htells
  | ended =>
    obtain ⟨hes, hread⟩ := htells
    exact ⟨h.idle hlive hheld hplaced hlog hes hread (by simp) (.inr rfl),
      by simp [Forwarder.onOutcome, Event.IsOfReading]⟩
  | failed e =>
    obtain ⟨hes, hcause⟩ := htells
    cases e with
    | stream s =>
      exact ⟨h.fail hheld hplaced hlog hes rfl (by simp),
        by simp [Forwarder.onOutcome, Event.IsOfReading]⟩
    | _ =>
      refine ⟨h.fail hheld hplaced hlog hes rfl ?_, by simp [Forwarder.onOutcome]⟩
      rintro e ⟨⟩
      exact ⟨hcause.resolve_left (by simp), by simp⟩

end Outcomes

theorem finished_iff (f : Forwarder) : f.finished = true ↔ f.ending ≠ none := by
  rw [finished, Option.isSome_iff_ne_none]

theorem live_of_not_finished (h : ¬ f.finished = true) : f.ending = none := by
  by_contra hended
  exact h (f.finished_iff.mpr hended)

theorem step?_cases {o o' : Oplog} (h : f.step? now o = some (o', f', events)) :
    f.ending = none ∧
      ((∃ e, f.held = some e ∧ f.hasRoom = true ∧ o' = o ∧ f' = (f.put e).1 ∧
          events = (f.put e).2) ∨
        f.held = none ∧ ∃ outcome tail told, f.tail.step? now o = some (outcome, o', tail, told) ∧
          f' = ({ f with tail := tail }.onOutcome outcome).1 ∧
          events = told ++ ({ f with tail := tail }.onOutcome outcome).2) := by
  unfold Forwarder.step? at h
  split at h
  · cases h
  · next hfin =>
    refine ⟨live_of_not_finished hfin, ?_⟩
    split at h
    · next e hheld =>
      split at h
      · next hroom =>
        cases h
        exact .inl ⟨e, hheld, hroom, rfl, rfl, rfl⟩
      · cases h
    · next hheld =>
      split at h
      · cases h
      · next outcome o₁ tail told htail =>
        cases h
        exact .inr ⟨hheld, outcome, tail, told, htail, rfl, rfl⟩

theorem tail_rests_of_step? {o : Oplog} (hlive : f.ending = none) (hheld : f.held = none)
    (hrest : f.step? now o = none) : f.tail.step? now o = none := by
  cases htail : f.tail.step? now o with
  | none => rfl
  | some given => simp [Forwarder.step?, finished, hlive, hheld, htail] at hrest

theorem expire?_cases (h : f.expire? now = some f') :
    f.ending = none ∧ ∃ tail, f.tail.expire? now = some tail ∧ f' = { f with tail := tail } := by
  unfold Forwarder.expire? at h
  split at h
  · cases h
  · next hfin =>
    obtain ⟨tail, htail, rfl⟩ := Option.map_eq_some_iff.mp h
    exact ⟨live_of_not_finished hfin, tail, htail, rfl⟩

theorem Sound.passes {tail : Tail} {stretch : List Document} {outcome : Tail.Outcome}
    {told : List Event} (h : f.Sound threshold docs taken) (hlive : f.ending = none)
    (hheld : f.held = none)
    (hpasses : f.tail.Passes threshold docs stretch outcome tail told) :
    (({ f with tail := tail }.onOutcome outcome).1).Sound threshold docs taken ∧
      ∀ ev ∈ told ++ ({ f with tail := tail }.onOutcome outcome).2, ev.IsOfReading := by
  obtain ⟨hsound, hevents⟩ := h.onOutcome hlive hheld hpasses.placed hpasses.passed hpasses.tells
  refine ⟨hsound, ?_⟩
  intro ev hev
  rcases List.mem_append.mp hev with hev | hev
  · rw [hpasses.idled ev hev]
    exact trivial
  · exact hevents ev hev

/-- One piece of work keeps account of all that was read. -/
theorem Sound.step? {o o' : Oplog} (h : f.Sound threshold o.documents taken)
    (hstep : f.step? now o = some (o', f', events)) :
    o'.documents = o.documents ∧ f'.Sound threshold o.documents taken ∧
      ∀ ev ∈ events, ev.IsOfReading := by
  obtain ⟨hlive, ⟨e, hheld, hroom, rfl, rfl, rfl⟩ |
    ⟨hheld, outcome, tail, told, htail, rfl, rfl⟩⟩ := step?_cases hstep
  · exact ⟨rfl, h.put hlive hheld hroom, by simp [Forwarder.put, Event.IsOfReading]⟩
  · obtain ⟨hdocs, stretch, hpasses⟩ := Tail.passes_of_step? h.placed (h.live hlive) htail
    exact ⟨hdocs, h.passes hlive hheld hpasses⟩

theorem Sound.unheld_of_expire? (h : f.Sound threshold docs taken) (hstep : f.expire? now = some f') :
    f.held = none := by
  obtain ⟨hlive, tail, htail, _⟩ := expire?_cases hstep
  by_contra hheld
  have hresting := (h.resting hlive).mp (Option.isSome_iff_ne_none.mpr hheld)
  exact Tail.waits_of_expire? htail hresting

theorem Sound.expire? (h : f.Sound threshold docs taken) (hstep : f.expire? now = some f') :
    f'.Sound threshold docs taken := by
  have hheld := h.unheld_of_expire? hstep
  obtain ⟨hlive, tail, htail, rfl⟩ := expire?_cases hstep
  exact (h.passes hlive hheld (Tail.passes_of_expire? h.placed (h.live hlive) htail)).1

theorem expire?_tail (hlive : f.ending = none) (h : f.expire? now = none) :
    f.tail.expire? now = none := by
  cases htail : f.tail.expire? now with
  | none => rfl
  | some given => simp [Forwarder.expire?, finished, hlive, htail] at h

theorem lt_due {moment : Nat} (h : f.expire? now = none) (hdue : f.due? = some moment) :
    now < moment := by
  unfold Forwarder.due? at hdue
  split at hdue
  · cases hdue
  · next hfin => exact Tail.lt_due (expire?_tail (live_of_not_finished hfin) h) hdue

theorem tail_onOutcome (f : Forwarder) (outcome : Tail.Outcome) :
    (f.onOutcome outcome).1.tail = f.tail ∨ (f.onOutcome outcome).1.tail = f.tail.resume := by
  cases outcome with
  | pending => exact .inl rfl
  | entry e =>
    simp only [onOutcome, accept]
    split
    · exact .inr rfl
    · split
      · exact .inr rfl
      · exact .inl rfl
  | ended => exact .inl rfl
  | failed e => cases e <;> exact .inl rfl

theorem cursor_put (f : Forwarder) (e : Entry) : (f.put e).1.tail.cursor = f.tail.cursor :=
  f.tail.resume_cursor

theorem cursor_onOutcome (f : Forwarder) (outcome : Tail.Outcome) :
    (f.onOutcome outcome).1.tail.cursor = f.tail.cursor := by
  rcases f.tail_onOutcome outcome with hsame | hresumed
  · rw [hsame]
  · rw [hresumed, Tail.resume_cursor]

theorem capacity_accept (f : Forwarder) (e : Entry) : (f.accept e).1.capacity = f.capacity := by
  unfold Forwarder.accept
  split
  · rfl
  · split <;> rfl

theorem capacity_onOutcome (f : Forwarder) (outcome : Tail.Outcome) :
    (f.onOutcome outcome).1.capacity = f.capacity := by
  cases outcome with
  | entry e => exact f.capacity_accept e
  | failed e => cases e <;> rfl
  | _ => rfl

theorem capacity_of_step? {o o' : Oplog} (h : f.step? now o = some (o', f', events)) :
    f'.capacity = f.capacity := by
  obtain ⟨_, ⟨e, _, _, _, rfl, _⟩ | ⟨_, outcome, tail, _, _, rfl, _⟩⟩ := step?_cases h
  · rfl
  · exact capacity_onOutcome _ outcome

theorem Sound.not_lapsed_of_step? {o o' : Oplog} (h : f.Sound threshold o.documents taken)
    (hstep : f.step? now o = some (o', f', events)) : f'.tail.phase ≠ .lapsed := by
  have hresume {t : Tail} (ht : t.phase ≠ .lapsed) : t.resume.phase ≠ .lapsed := by
    unfold Tail.resume
    split
    · simp
    · exact ht
  obtain ⟨hlive, ⟨e, hheld, _, _, rfl, _⟩ | ⟨_, outcome, tail, _, htail, rfl, _⟩⟩ := step?_cases hstep
  · have hresting := (h.resting hlive).mp (by rw [hheld]; rfl)
    exact hresume (by simp [hresting])
  · have hnot := (Tail.works_of_step? htail).not_lapsed
    rcases tail_onOutcome { f with tail := tail } outcome with hsame | hresumed
    · rw [hsame]
      exact hnot
    · rw [hresumed]
      exact hresume hnot

theorem live_of_expire? (h : f.expire? now = some f') : f.ending = none ∧ f'.ending = none := by
  obtain ⟨hlive, _, _, rfl⟩ := expire?_cases h
  exact ⟨hlive, hlive⟩

theorem capacity_of_expire? (h : f.expire? now = some f') : f'.capacity = f.capacity := by
  obtain ⟨_, _, _, rfl⟩ := expire?_cases h
  rfl

theorem tail_cancel (f : Forwarder) : f.cancel.tail = f.tail := by
  unfold Forwarder.cancel
  split <;> rfl

theorem capacity_cancel (f : Forwarder) : f.cancel.capacity = f.capacity := by
  unfold Forwarder.cancel
  split <;> rfl

/-- A forwarder that goes no further holds an entry before a full queue, or waits at the end of the log. -/
theorem Sound.suspended {o : Oplog} (h : f.Sound threshold o.documents taken) (hlive : f.ending = none)
    (hrest : f.step? now o = none) :
    (f.held.isSome = true ∧ f.queue.length = f.capacity) ∨
      (f.held = none ∧ f.tail.cursor.position = o.documents.length ∧
        ∃ until?, f.tail.phase = .waiting until? false) := by
  have hunfinished : ¬ f.finished = true := by simp [finished, hlive]
  cases hheld : f.held with
  | some e =>
    have hfull : f.hasRoom = false := by
      by_contra hroom
      simp [Forwarder.step?, hunfinished, hheld, hroom] at hrest
    have hbound := h.room
    simp only [hasRoom, decide_eq_false_iff_not] at hfull
    exact .inl ⟨rfl, by omega⟩
  | none =>
    have hlook := tail_rests_of_step? hlive hheld hrest
    have htail := h.live hlive
    cases hphase : f.tail.phase with
    | resting =>
      have hholds := (h.resting hlive).mpr hphase
      simp [hheld] at hholds
    | looking => simp [Tail.step?, hphase] at hlook
    | waiting until? woken =>
      cases woken with
      | true => simp [Tail.step?, hphase] at hlook
      | false => exact .inr ⟨rfl, htail.caught_up until? hphase, until?, rfl⟩
    | lapsed => simp [Tail.step?, hphase] at hlook
    | _ => exact absurd hphase htail.running

theorem onOutcome_ends {ending : Ending} {outcome : Tail.Outcome} (hlive : f.ending = none)
    (hend : (f.onOutcome outcome).1.ending = some ending) :
    (f.onOutcome outcome).1.queue = f.queue ∧ (f.onOutcome outcome).1.held = f.held ∧
      (f.onOutcome outcome).1.tail = f.tail ∧
      (outcome = .ended ∧ ending = .exhausted ∨
        ∃ e, outcome = .failed e ∧ hasFailed (f.onOutcome outcome).1 = true) := by
  cases outcome with
  | pending => exact absurd (hlive.symm.trans hend) (by simp)
  | entry e =>
    have hsame : (f.onOutcome (.entry e)).1.ending = f.ending := by
      simp only [onOutcome, Forwarder.accept]
      split
      · rfl
      · split <;> rfl
    exact absurd (hlive.symm.trans (hsame.symm.trans hend)) (by simp)
  | ended => exact ⟨rfl, rfl, rfl, .inl ⟨rfl, (Option.some.inj hend).symm⟩⟩
  | failed e => cases e <;> exact ⟨rfl, rfl, rfl, .inr ⟨_, rfl, rfl⟩⟩

/-- What the last piece of work leaves: the queue as it was, nothing held, and at the end of the
log nothing unread, unless a wait has run out. -/
structure Ends (docs : List Document) (f f' : Forwarder) (ending : Ending) : Prop where
  queue : f'.queue = f.queue
  unheld : f'.held = none
  idle : f.held = none
  all_read : ending = .exhausted → f.tail.phase = .lapsed ∧ f'.tail.cursor = f.tail.cursor ∨
    f'.tail.cursor.position = docs.length
  failed : ending ≠ .exhausted → f'.hasFailed = true

theorem Sound.step?_ends {o o' : Oplog} {ending : Ending}
    (h : f.Sound threshold o.documents taken) (hstep : f.step? now o = some (o', f', events))
    (hend : f'.ending = some ending) : Ends o.documents f f' ending := by
  obtain ⟨hlive, ⟨e, hheld, _, _, rfl, _⟩ | ⟨hheld, outcome, tail, told, htail, rfl, _⟩⟩ :=
    step?_cases hstep
  · cases hlive.symm.trans hend
  obtain ⟨hqueue, hheld', hsame, hhow⟩ := onOutcome_ends (f := { f with tail := tail }) hlive hend
  refine ⟨hqueue, hheld'.trans hheld, hheld, ?_, ?_⟩
  · intro he
    rcases hhow with ⟨rfl, _⟩ | ⟨e, _, hfail⟩
    · rw [hsame]
      exact Tail.all_read_of_step? h.placed (h.live hlive) htail
    · simp [hasFailed, hend, he] at hfail
  · intro hne
    rcases hhow with ⟨_, he⟩ | ⟨_, _, hfail⟩
    · exact absurd he hne
    · exact hfail

theorem not_cancelled_of_ends (h : ∀ ending, f'.ending = some ending → Ends docs f f' ending) :
    f'.ending ≠ some .cancelled := by
  intro hc
  have hfail := (h _ hc).failed (by simp)
  simp [hasFailed, hc] at hfail

theorem Sound.uncancelled_of_step? {o o' : Oplog} (h : f.Sound threshold o.documents taken)
    (hstep : f.step? now o = some (o', f', events)) : f'.ending ≠ some .cancelled :=
  not_cancelled_of_ends fun _ he => h.step?_ends hstep he

theorem step?_of_ended {o : Oplog} (h : f.ending ≠ none) : f.step? now o = none := by
  rw [Forwarder.step?, if_pos (f.finished_iff.mpr h)]

end Forwarder

end OplogRelay
