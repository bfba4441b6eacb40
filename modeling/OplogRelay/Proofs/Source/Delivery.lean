import Mathlib.Logic.Relation
import OplogRelay.Proofs.Source.Tailing
/-!
Delivery: a tail, the log below it, and a consumer that asks for an entry whenever it likes. Whatever happens
to them, and in whatever order, the consumer is given the documents from the threshold on, one after the
other and none twice; nothing more once the tail is closed or has ended; and all of them if the tail ends by
itself, which it does only when nothing was there to read for as long as it was to wait.
-/
namespace OplogRelay

/-- What a consumer was given of a log, when, and how it ended. -/
structure Delivery where
  now : Nat
  oplog : Oplog
  tail : Tail
  begun : Nat
  yielded : List (Nat × Entry) := []
  ending : Option (Except Failure Unit) := none

namespace Delivery

def start (ns : Namespace) (threshold : Timestamp) (idle : Quantity) (now : Nat) (oplog : Oplog) :
    Delivery where
  now := now
  oplog := oplog
  tail := .start ns threshold idle now
  begun := now

def onOutcome (d : Delivery) : Tail.Outcome → Delivery
  | .pending => d
  | .entry e => { d with yielded := d.yielded ++ [(d.now, e)] }
  | .ended => { d with ending := some (.ok ()) }
  | .failed e => { d with ending := some (.error e) }

/-- A piece of work at the tail, a look or the end of a wait that has run out. -/
def look? (d : Delivery) : Option Delivery :=
  match d.tail.step? d.now d.oplog with
  | none => none
  | some (outcome, oplog, tail, _) => some ({ d with oplog := oplog, tail := tail }.onOutcome outcome)

def expire? (d : Delivery) : Option Delivery :=
  (d.tail.expire? d.now).map fun tail => { d with tail := tail }

def ask (d : Delivery) : Delivery := { d with tail := d.tail.resume }

def append (d : Delivery) (docs : List Document) : Delivery :=
  { d with oplog := d.oplog.append docs, tail := d.tail.wake }

def inject (d : Delivery) (f : Fault) : Delivery :=
  { d with oplog := d.oplog.inject f }.append []

def close (d : Delivery) : Delivery := { d with tail := d.tail.close }

inductive Step (d : Delivery) : Delivery → Prop where
  | look {s} : d.look? = some s → Step d s
  | expire {s} : d.expire? = some s → Step d s
  | ask : Step d d.ask
  | append (docs : List Document) : Step d (d.append docs)
  | inject (f : Fault) : Step d (d.inject f)
  | close : Step d d.close
  | pass (moment : Nat) : d.now ≤ moment → Step d { d with now := moment }

abbrev Leads : Delivery → Delivery → Prop := Relation.ReflTransGen Step

/-- What can become of a tail with this threshold, which waits for so many seconds. -/
inductive Reachable (threshold : Timestamp) (idle : Quantity) : Delivery → Prop where
  | start (ns : Namespace) (now : Nat) (oplog : Oplog) :
      Reachable threshold idle (.start ns threshold idle now oplog)
  | step {d s} : Reachable threshold idle d → Step d s → Reachable threshold idle s

/-- A wait ran out over these documents, and nothing has been looked at since. -/
inductive RanOut (threshold : Timestamp) (idle : Quantity) (docs : List Document) : Delivery → Prop where
  | expire {d s} : Reachable threshold idle d → d.oplog.documents = docs → d.expire? = some s →
      RanOut threshold idle docs s
  | step {d s} : RanOut threshold idle docs d → d.Step s → s.tail.phase = .lapsed →
      RanOut threshold idle docs s

theorem Reachable.leads {threshold : Timestamp} {idle : Quantity} {d s : Delivery}
    (h : Reachable threshold idle d) (hs : Leads d s) : Reachable threshold idle s := by
  induction hs with
  | refl => exact h
  | tail _ hstep ih => exact .step ih hstep

def entries (d : Delivery) : List Entry := d.yielded.map Prod.snd

/-- When the last document was read, or else when the iteration began. -/
def lastRead (d : Delivery) : Nat := (d.yielded.getLast?.map Prod.fst).getD d.begun

def IsOver (d : Delivery) : Prop := d.tail.closed = true ∨ d.ending ≠ none

variable {threshold : Timestamp} {docs : List Document} {entries : List Entry} {n : Nat}

/-- The entries are those of the first `n` documents of a log, which can all be read. -/
structure Covers (threshold : Timestamp) (docs : List Document) (n : Nat) (entries : List Entry) :
    Prop where
  within : n ≤ docs.length
  readable : ∀ d ∈ docs.take n, d.IsReadable threshold
  entries : entries = Entry.handedOut threshold (docs.take n)

theorem Covers.append (h : Covers threshold docs n entries) (more : List Document) :
    Covers threshold (docs ++ more) n entries := by
  have htake : (docs ++ more).take n = docs.take n := List.take_append_of_le_length h.within
  refine ⟨?_, ?_, ?_⟩
  · rw [List.length_append]
    exact Nat.le_add_right_of_le h.within
  · rw [htake]
    exact h.readable
  · rw [htake]
    exact h.entries

theorem Covers.extend {m : Nat} {stretch : List Document} {es : List Entry}
    (h : Covers threshold docs n entries) (hwithin : m ≤ docs.length)
    (hpassed : docs.take m = docs.take n ++ stretch) (hes : Entry.handedOut threshold stretch = es)
    (hread : ∀ d ∈ stretch, d.IsReadable threshold) : Covers threshold docs m (entries ++ es) := by
  refine ⟨hwithin, ?_, ?_⟩
  · rw [hpassed]
    exact List.forall_mem_append.mpr ⟨h.readable, hread⟩
  · rw [hpassed, Entry.handedOut_append, hes, h.entries]

theorem Covers.raw (h : Covers threshold docs n entries) :
    entries.map Entry.raw = Document.window threshold (docs.take n) := by
  rw [h.entries, Entry.raw_handedOut h.readable]

theorem Covers.isPrefix (h : Covers threshold docs n entries) :
    entries.map Entry.raw <+: Document.window threshold docs := by
  rw [h.raw]
  exact (List.take_prefix n docs).filter _

theorem Covers.window_drop (h : Covers threshold docs n entries) :
    Document.window threshold docs = entries.map Entry.raw ++ Document.window threshold (docs.drop n) := by
  rw [h.raw, Document.window, Document.window, Document.window, ← List.filter_append,
    List.take_append_drop]

theorem Covers.rest_below (h : Covers threshold docs n entries)
    (hread : ∀ x ∈ docs, x.IsReadable threshold)
    (hall : entries.map Entry.raw = Document.window threshold docs) :
    ∀ x ∈ docs.drop n, x.isBelow threshold = true := by
  intro x hx
  have hnone : Document.window threshold (docs.drop n) = [] := by
    have hsplit := h.window_drop
    rwa [hall, List.self_eq_append_right] at hsplit
  rw [(hread x (List.mem_of_mem_drop hx)).isBelow]
  simpa using List.filter_eq_nil_iff.mp hnone x hx

theorem Covers.next (h : Covers threshold docs n entries) (hread : ∀ x ∈ docs, x.IsReadable threshold)
    (hmore : entries.map Entry.raw ≠ Document.window threshold docs) :
    ∃ below x above, docs.drop n = below ++ x :: above ∧
      (∀ b ∈ below, b.isBelow threshold = true) ∧ x.isFrom threshold = true := by
  cases hfind : (docs.drop n).find? (Document.isFrom threshold) with
  | none =>
    have hnone : Document.window threshold (docs.drop n) = [] :=
      List.filter_eq_nil_iff.mpr (List.find?_eq_none.mp hfind)
    rw [h.window_drop, hnone, List.append_nil] at hmore
    exact absurd rfl hmore
  | some x =>
    obtain ⟨hfrom, below, above, hlog, hnot⟩ := List.find?_eq_some_iff_append.mp hfind
    refine ⟨below, x, above, hlog, fun b hb => ?_, hfrom⟩
    have hmem : b ∈ docs := List.mem_of_mem_drop (hlog ▸ List.mem_append_left _ hb)
    rw [(hread b hmem).isBelow]
    exact hnot b hb

/-- What was given is what a first part of the log comes to: the part that was read, as long as the tail has
not ended. A tail that waits has no fault before it. -/
structure Sound (threshold : Timestamp) (idle : Quantity) (d : Delivery) : Prop where
  idle : d.tail.idle = idle
  placed : d.tail.Placed threshold d.oplog.documents
  live : d.ending = none → d.tail.closed = false → d.tail.Live d.oplog.documents
  dead : d.tail.closed = true → d.tail.cursor.alive = false
  finished : d.ending ≠ none → d.tail.phase = .over
  covers : ∃ n, Covers threshold d.oplog.documents n d.entries ∧
    (d.ending = none → n = d.tail.cursor.position)
  seen : d.ending = none → d.tail.lastSeen = d.lastRead
  alert : ∀ until?, d.tail.phase = .waiting until? false → d.oplog.fault = none

variable {d s : Delivery} {idle : Quantity} {events : List Event} {outcome : Tail.Outcome}

theorem sound_start (ns : Namespace) (now : Nat) (oplog : Oplog) :
    (start ns threshold idle now oplog).Sound threshold idle where
  idle := rfl
  placed := ⟨rfl, rfl, Nat.zero_le _⟩
  live _ _ := ⟨rfl, rfl, by simp [start, Tail.start], by simp [start, Tail.start]⟩
  dead hclosed := by cases hclosed
  finished hended := absurd rfl hended
  covers := ⟨0, ⟨Nat.zero_le _, by simp, rfl⟩, fun _ => rfl⟩
  seen _ := rfl
  alert _ hwaits := by cases hwaits

theorem Sound.live_of_step? {o' : Oplog} {tail : Tail} (h : d.Sound threshold idle)
    (hstep : d.tail.step? d.now d.oplog = some (outcome, o', tail, events)) : d.ending = none := by
  by_contra hended
  cases (Tail.step?_over (h.finished hended)).symm.trans hstep

theorem Sound.live_of_expire? {tail : Tail} (h : d.Sound threshold idle)
    (hexpire : d.tail.expire? d.now = some tail) : d.ending = none := by
  by_contra hended
  cases (Tail.expire?_over (h.finished hended)).symm.trans hexpire

theorem look?_of_step? {o' : Oplog} {tail : Tail}
    (h : d.tail.step? d.now d.oplog = some (outcome, o', tail, events)) :
    d.look? = some ({ d with oplog := o', tail := tail }.onOutcome outcome) := by
  rw [Delivery.look?, h]

theorem look?_eq_some (h : d.look? = some s) : ∃ outcome o' tail events,
    d.tail.step? d.now d.oplog = some (outcome, o', tail, events) ∧
      s = { d with oplog := o', tail := tail }.onOutcome outcome := by
  unfold Delivery.look? at h
  split at h
  · cases h
  · next outcome o' tail events hstep =>
    cases h
    exact ⟨outcome, o', tail, events, hstep, rfl⟩

theorem expire?_eq_some (h : d.expire? = some s) : ∃ tail,
    d.tail.expire? d.now = some tail ∧ s = { d with tail := tail } := by
  obtain ⟨tail, hexpire, rfl⟩ := Option.map_eq_some_iff.mp h
  exact ⟨tail, hexpire, rfl⟩

/-- Work at an open tail: what is read of the log is given to the consumer. -/
theorem Sound.reads {o' : Oplog} {tail : Tail} {stretch : List Document} (h : d.Sound threshold idle)
    (hlive : d.ending = none) (hopen : d.tail.closed = false)
    (ho : o'.documents = d.oplog.documents)
    (hpasses : d.tail.Passes threshold d.oplog.documents stretch outcome tail events)
    (hleaves : tail.closed = d.tail.closed ∧ outcome.Leaves d.now d.tail tail)
    (halert : ∀ until?, tail.phase = .waiting until? false → o'.fault = none) :
    ({ d with oplog := o', tail := tail }.onOutcome outcome).Sound threshold idle := by
  obtain ⟨hclosed, hleaves⟩ := hleaves
  obtain ⟨n, hcovers, hn⟩ := h.covers
  obtain rfl := hn hlive
  have hidle : tail.idle = idle := hpasses.idle.trans h.idle
  have hplaced : tail.Placed threshold o'.documents := ho ▸ hpasses.placed
  have hdead : tail.closed = true → tail.cursor.alive = false := by
    intro hshut
    cases (hclosed.trans hopen).symm.trans hshut
  have hextend {es : List Entry} (hes : Entry.handedOut threshold stretch = es)
      (hread : ∀ x ∈ stretch, x.IsReadable threshold) :
      Covers threshold o'.documents tail.cursor.position (d.entries ++ es) := by
    rw [ho]
    exact hcovers.extend hpasses.placed.within hpasses.passed hes hread
  have htells := hpasses.tells
  rw [← ho] at htells hcovers
  cases outcome with
  | entry e =>
    obtain ⟨hes, hread, hgoes, _⟩ := htells
    refine ⟨hidle, hplaced, fun _ _ => hgoes, hdead, fun hended => absurd hlive hended, ?_, ?_, halert⟩
    · refine ⟨_, ?_, fun _ => rfl⟩
      have hentries : Delivery.entries ({ d with oplog := o', tail := tail }.onOutcome (.entry e)) =
          d.entries ++ [e] := by simp [Delivery.entries, onOutcome]
      rw [hentries]
      exact hextend hes hread
    · intro _
      show tail.lastSeen = _
      rw [hleaves.1]
      simp [lastRead, onOutcome]
  | pending =>
    obtain ⟨hes, hread, hgoes, _⟩ := htells
    refine ⟨hidle, hplaced, fun _ _ => hgoes, hdead, fun hended => absurd hlive hended, ?_, ?_, halert⟩
    · exact ⟨_, List.append_nil d.entries ▸ hextend hes hread, fun _ => rfl⟩
    · exact fun _ => hleaves.1.trans (h.seen hlive)
  | ended =>
    obtain ⟨hes, hread⟩ := htells
    refine ⟨hidle, hplaced, ?_, hdead, fun _ => hleaves.2, ?_, ?_, halert⟩
    · intro hrunning
      cases hrunning
    · exact ⟨_, List.append_nil d.entries ▸ hextend hes hread, fun _ => rfl⟩
    · intro hrunning
      cases hrunning
  | failed e =>
    refine ⟨hidle, hplaced, ?_, hdead, fun _ => hleaves, ⟨_, hcovers, ?_⟩, ?_, halert⟩
    · intro hrunning
      cases hrunning
    · intro hrunning
      cases hrunning
    · intro hrunning
      cases hrunning

theorem Sound.stops (h : d.Sound threshold idle) :
    ({ d with tail := { d.tail with phase := .over } }.onOutcome .ended).Sound threshold idle := by
  obtain ⟨n, hcovers, _⟩ := h.covers
  refine ⟨h.idle, ⟨h.placed.threshold, h.placed.await, h.placed.within⟩, ?_, h.dead, fun _ => rfl,
    ⟨n, hcovers, ?_⟩, ?_, ?_⟩
  · intro hrunning
    cases hrunning
  · intro hrunning
    cases hrunning
  · intro hrunning
    cases hrunning
  · intro until? hwaits
    cases hwaits

theorem Sound.look? (h : d.Sound threshold idle) (hs : d.look? = some s) :
    s.Sound threshold idle := by
  obtain ⟨outcome, o', tail, events, hstep, rfl⟩ := look?_eq_some hs
  have hlive := h.live_of_step? hstep
  by_cases hclosed : d.tail.closed = true
  · obtain ⟨rfl, rfl, rfl⟩ := Tail.step?_dead (h.dead hclosed) hstep
    exact h.stops
  · have hopen : d.tail.closed = false := by simpa using hclosed
    obtain ⟨ho, stretch, hpasses⟩ := Tail.passes_of_step? h.placed (h.live hlive hopen) hstep
    exact h.reads hlive hopen ho hpasses (Tail.leaves_of_step? hstep)
      fun _ hwaits => Tail.faultless_of_step? hstep hwaits

theorem Sound.expire? (h : d.Sound threshold idle) (hs : d.expire? = some s) :
    s.Sound threshold idle := by
  obtain ⟨tail, hexpire, rfl⟩ := expire?_eq_some hs
  have hlive := h.live_of_expire? hexpire
  obtain ⟨_, _, _, rfl⟩ := Tail.expire?_eq_some hexpire
  refine ⟨h.idle, ⟨h.placed.threshold, h.placed.await, h.placed.within⟩, fun _ hopen => ?_, h.dead,
    fun hended => absurd hlive hended, h.covers, h.seen, fun _ hwaits => by cases hwaits⟩
  have hgoes := h.live hlive hopen
  exact ⟨hgoes.alive, hgoes.opened, by simp, by simp⟩

theorem Sound.ask (h : d.Sound threshold idle) : d.ask.Sound threshold idle := by
  obtain ⟨n, hcovers, hn⟩ := h.covers
  refine ⟨d.tail.resume_idle.trans h.idle, h.placed.resume, ?_, ?_, ?_, ⟨n, hcovers, ?_⟩, ?_, ?_⟩
  · intro hlive hopen
    exact (h.live hlive (d.tail.resume_closed.symm.trans hopen)).resume
  · intro hclosed
    show d.tail.resume.cursor.alive = false
    rw [Tail.resume_cursor]
    exact h.dead (d.tail.resume_closed.symm.trans hclosed)
  · exact fun hended => Tail.resume_over (h.finished hended)
  · intro hlive
    show n = d.tail.resume.cursor.position
    rw [Tail.resume_cursor]
    exact hn hlive
  · exact fun hlive => d.tail.resume_lastSeen.trans (h.seen hlive)
  · exact fun until? hwaits => h.alert until? (Tail.resume_waiting hwaits)

theorem Sound.grows (h : d.Sound threshold idle) {o' : Oplog} {more : List Document}
    (ho : o'.documents = d.oplog.documents ++ more) :
    ({ d with oplog := o', tail := d.tail.wake } : Delivery).Sound threshold idle := by
  obtain ⟨n, hcovers, hn⟩ := h.covers
  refine ⟨d.tail.wake_idle.trans h.idle, ?_, ?_, ?_, ?_, ⟨n, ?_, ?_⟩, ?_, ?_⟩
  · show d.tail.wake.Placed threshold o'.documents
    rw [ho]
    exact h.placed.append more
  · intro hlive hopen
    show d.tail.wake.Live o'.documents
    rw [ho]
    exact (h.live hlive (d.tail.wake_closed.symm.trans hopen)).append more
  · intro hclosed
    show d.tail.wake.cursor.alive = false
    rw [Tail.wake_cursor]
    exact h.dead (d.tail.wake_closed.symm.trans hclosed)
  · exact fun hended => Tail.wake_over (h.finished hended)
  · show Covers threshold o'.documents n d.entries
    rw [ho]
    exact hcovers.append more
  · intro hlive
    show n = d.tail.wake.cursor.position
    rw [Tail.wake_cursor]
    exact hn hlive
  · exact fun hlive => d.tail.wake_lastSeen.trans (h.seen hlive)
  · exact fun until? hwaits => absurd hwaits (d.tail.wake_waiting until?)

theorem Sound.append (h : d.Sound threshold idle) (docs : List Document) :
    (d.append docs).Sound threshold idle :=
  h.grows (d.oplog.documents_append docs)

theorem Sound.inject (h : d.Sound threshold idle) (f : Fault) : (d.inject f).Sound threshold idle :=
  h.grows (Oplog.documents_append (d.oplog.inject f) [])

theorem Sound.close (h : d.Sound threshold idle) : d.close.Sound threshold idle := by
  refine ⟨h.idle, ⟨h.placed.threshold, h.placed.await, h.placed.within⟩, ?_, fun _ => rfl, h.finished,
    h.covers, h.seen, h.alert⟩
  intro _ hopen
  cases hopen

theorem Sound.pass (h : d.Sound threshold idle) (moment : Nat) :
    ({ d with now := moment } : Delivery).Sound threshold idle :=
  ⟨h.idle, h.placed, h.live, h.dead, h.finished, h.covers, h.seen, h.alert⟩

theorem Sound.step (h : d.Sound threshold idle) (hs : d.Step s) : s.Sound threshold idle := by
  cases hs with
  | look hlook => exact h.look? hlook
  | expire hexpire => exact h.expire? hexpire
  | ask => exact h.ask
  | append docs => exact h.append docs
  | inject f => exact h.inject f
  | close => exact h.close
  | pass moment _ => exact h.pass moment

theorem reachable_sound (h : Reachable threshold idle d) : d.Sound threshold idle := by
  induction h with
  | start ns now oplog => exact sound_start ns now oplog
  | step _ hs ih => exact ih.step hs

theorem Sound.silent (h : d.Sound threshold idle) (hover : d.IsOver) (hs : d.Step s) :
    s.yielded = d.yielded ∧ s.IsOver := by
  cases hs with
  | look hlook =>
    obtain ⟨outcome, o', tail, events, hstep, rfl⟩ := look?_eq_some hlook
    have hclosed := hover.resolve_right fun hended => hended (h.live_of_step? hstep)
    obtain ⟨_, rfl, _⟩ := Tail.step?_dead (h.dead hclosed) hstep
    exact ⟨rfl, .inr (by simp [onOutcome])⟩
  | expire hends =>
    obtain ⟨tail, hexpire, rfl⟩ := expire?_eq_some hends
    obtain ⟨hclosed, _⟩ := Tail.leaves_of_expire? hexpire
    exact ⟨rfl, hover.imp_left hclosed.trans⟩
  | ask => exact ⟨rfl, hover.imp_left d.tail.resume_closed.trans⟩
  | append docs => exact ⟨rfl, hover.imp_left d.tail.wake_closed.trans⟩
  | inject f => exact ⟨rfl, hover.imp_left d.tail.wake_closed.trans⟩
  | close => exact ⟨rfl, .inl rfl⟩
  | pass => exact ⟨rfl, hover⟩

def HasNext (d : Delivery) : Prop :=
  d.oplog.fault ≠ none ∨ d.oplog.documents.drop d.tail.cursor.position ≠ []

theorem Sound.ready (h : d.Sound threshold idle) (hlive : d.ending = none)
    (hopen : d.tail.closed = false) (hgoes : d.tail.phase ≠ .lapsed) (hnext : d.HasNext) :
    d.tail.resume.IsReady := by
  have hrunning := h.live hlive hopen
  cases hphase : d.tail.phase with
  | resting => exact .inl (by simp [Tail.resume, hphase])
  | looking => exact .inl (by simp [Tail.resume, hphase])
  | waiting until? woken =>
    cases woken with
    | true => exact .inr ⟨until?, by simp [Tail.resume, hphase]⟩
    | false =>
      rcases hnext with hfault | hunread
      · exact absurd (h.alert until? hphase) hfault
      · rw [hrunning.caught_up until? hphase, List.drop_length] at hunread
        exact absurd rfl hunread
  | lapsed => exact absurd hphase hgoes
  | _ => exact absurd hphase hrunning.running

theorem Sound.unexpired (h : d.Sound threshold idle) (hlive : d.ending = none)
    (hopen : d.tail.closed = false) (hgoes : d.tail.phase ≠ .lapsed) (hnext : d.HasNext) :
    d.expire? = none := by
  rw [Delivery.expire?, Tail.expire?_ready (h.ready hlive hopen hgoes hnext), Option.map_none]

theorem Sound.asked_alive (h : d.Sound threshold idle) (hlive : d.ending = none)
    (hopen : d.tail.closed = false) : d.ask.tail.cursor.alive = true :=
  (h.ask.live hlive (d.tail.resume_closed.trans hopen)).alive

/-- As long as a log that can be read has more than was given, a consumer that asks is given more. -/
theorem Sound.gives (h : d.Sound threshold idle) (hlive : d.ending = none)
    (hopen : d.tail.closed = false) (hgoes : d.tail.phase ≠ .lapsed) (hfault : d.oplog.fault = none)
    (hread : ∀ x ∈ d.oplog.documents, x.IsReadable threshold)
    (hmore : d.entries.map Entry.raw ≠ Document.window threshold d.oplog.documents) :
    d.expire? = none ∧ ∃ s e, d.ask.look? = some s ∧ s.yielded = d.yielded ++ [(d.now, e)] := by
  obtain ⟨n, hcovers, hn⟩ := h.covers
  obtain rfl := hn hlive
  obtain ⟨below, x, above, hlog, hbelow, hfrom⟩ := hcovers.next hread hmore
  have hnext : d.HasNext := .inr (by simp [hlog])
  have hmem : x ∈ d.oplog.documents := by
    apply List.mem_of_mem_drop
    rw [hlog]
    simp
  obtain ⟨e, he⟩ := Entry.ofDocument?_of_isReadable (hread x hmem) hfrom
  refine ⟨h.unexpired hlive hopen hgoes hnext, ?_⟩
  rw [← congrArg Cursor.position d.tail.resume_cursor] at hlog
  obtain ⟨tail, hstep⟩ := Tail.step?_entry d.ask.now (h.ready hlive hopen hgoes hnext)
    (h.asked_alive hlive hopen) hfault h.ask.placed.threshold hlog hbelow hfrom he
  exact ⟨_, e, look?_of_step? hstep, rfl⟩

theorem RanOut.lapsed (h : RanOut threshold idle docs d) : d.tail.phase = .lapsed := by
  cases h with
  | expire _ _ hexpire =>
    obtain ⟨tail, htail, rfl⟩ := expire?_eq_some hexpire
    exact (Tail.leaves_of_expire? htail).2.2.2.2
  | step _ _ hphase => exact hphase

theorem Step.lapsed (hs : d.Step s) (hphase : s.tail.phase = .lapsed) :
    d.expire? = some s ∨ d.tail.phase = .lapsed := by
  cases hs with
  | look hlook =>
    obtain ⟨outcome, o', tail, events, hstep, rfl⟩ := look?_eq_some hlook
    refine absurd ?_ (Tail.works_of_step? hstep).not_lapsed
    cases outcome <;> exact hphase
  | expire hexpire => exact .inl hexpire
  | ask =>
    refine .inr ?_
    have hresumed : d.tail.resume.phase = .lapsed := hphase
    unfold Tail.resume at hresumed
    split at hresumed
    · cases hresumed
    · exact hresumed
  | append docs => exact .inr (Tail.lapsed_of_wake hphase)
  | inject f => exact .inr (Tail.lapsed_of_wake hphase)
  | close => exact .inr hphase
  | pass => exact .inr hphase

theorem ranOut_of_reachable (h : Reachable threshold idle d) (hphase : d.tail.phase = .lapsed) :
    ∃ docs, RanOut threshold idle docs d := by
  induction h with
  | start ns now oplog => cases hphase
  | step hd hs ih =>
    rcases hs.lapsed hphase with hexpire | hbefore
    · exact ⟨_, .expire hd rfl hexpire⟩
    · obtain ⟨docs, hran⟩ := ih hbefore
      exact ⟨docs, .step hran hs hphase⟩

theorem RanOut.place (h : RanOut threshold idle docs d) (hopen : d.tail.closed = false) :
    d.tail.cursor.position = docs.length ∧ docs <+: d.oplog.documents := by
  induction h with
  | expire hd hdocs hexpire =>
    have hsound := reachable_sound hd
    obtain ⟨tail, htail, rfl⟩ := expire?_eq_some hexpire
    obtain ⟨hclosed, hcursor, _⟩ := Tail.leaves_of_expire? htail
    obtain ⟨due, hwaits, _⟩ := Tail.expire?_eq_some htail
    have hgoes := hsound.live (hsound.live_of_expire? htail) (hclosed.symm.trans hopen)
    refine ⟨?_, hdocs ▸ List.prefix_refl _⟩
    rw [hcursor, hgoes.caught_up _ hwaits, hdocs]
  | @step d s hran hs hphase ih =>
    have hbefore := hran.lapsed
    cases hs with
    | look hlook =>
      obtain ⟨outcome, o', tail, events, hstep, rfl⟩ := look?_eq_some hlook
      refine absurd ?_ (Tail.works_of_step? hstep).not_lapsed
      cases outcome <;> exact hphase
    | expire hexpire =>
      obtain ⟨tail, htail, rfl⟩ := expire?_eq_some hexpire
      obtain ⟨due, hwaits, _⟩ := Tail.expire?_eq_some htail
      cases hbefore.symm.trans hwaits
    | ask =>
      show d.tail.resume.cursor.position = docs.length ∧ docs <+: d.oplog.documents
      rw [Tail.resume_cursor]
      exact ih (d.tail.resume_closed.symm.trans hopen)
    | append more =>
      obtain ⟨hplace, hwithin⟩ := ih (d.tail.wake_closed.symm.trans hopen)
      exact ⟨(congrArg Cursor.position d.tail.wake_cursor).trans hplace,
        hwithin.trans (List.prefix_append _ _)⟩
    | inject f =>
      obtain ⟨hplace, hwithin⟩ := ih (d.tail.wake_closed.symm.trans hopen)
      exact ⟨(congrArg Cursor.position d.tail.wake_cursor).trans hplace,
        hwithin.trans (List.prefix_append _ _)⟩
    | close => cases hopen
    | pass => exact ih hopen

/-- What a tail has given that ends by itself: the window of the log as it is, or as it was when the
last wait ran out. -/
theorem Sound.whole {o' : Oplog} {tail : Tail} (h : d.Sound threshold idle)
    (hr : Reachable threshold idle d) (hlive : d.ending = none) (hopen : d.tail.closed = false)
    (hstep : d.tail.step? d.now d.oplog = some (.ended, o', tail, events)) :
    ∃ docs, (docs = d.oplog.documents ∨ RanOut threshold idle docs d) ∧ docs <+: d.oplog.documents ∧
      d.entries.map Entry.raw = Document.window threshold docs := by
  obtain ⟨n, hcovers, hn⟩ := h.covers
  obtain rfl := hn hlive
  have hgoes := h.live hlive hopen
  rcases Tail.all_read_of_step? h.placed hgoes hstep with ⟨hlapsed, _⟩ | hend
  · obtain ⟨docs, hran⟩ := ranOut_of_reachable hr hlapsed
    obtain ⟨hplace, hwithin⟩ := hran.place hopen
    refine ⟨docs, .inr hran, hwithin, ?_⟩
    rw [hcovers.raw, hplace, ← List.prefix_iff_eq_take.mp hwithin]
  · obtain ⟨_, stretch, hpasses⟩ := Tail.passes_of_step? h.placed hgoes hstep
    obtain ⟨hnone, hread⟩ := hpasses.tells
    have hall := (hcovers.extend hpasses.placed.within hpasses.passed hnone hread).raw
    rw [List.append_nil, hend, List.take_length] at hall
    exact ⟨_, .inl rfl, List.prefix_refl _, hall⟩

theorem ended_of_onOutcome (hlive : d.ending = none)
    (h : (d.onOutcome outcome).ending = some (.ok ())) : outcome = .ended := by
  cases outcome with
  | pending => cases hlive.symm.trans h
  | entry e => cases hlive.symm.trans h
  | ended => rfl
  | failed e => cases h

theorem Sound.exhausts (h : d.Sound threshold idle) (hr : Reachable threshold idle d) (hs : d.Step s)
    (hlive : d.ending = none) (hended : s.ending = some (.ok ())) (hopen : s.tail.closed = false) :
    (∃ docs, (docs = s.oplog.documents ∨ RanOut threshold idle docs d) ∧ docs <+: s.oplog.documents ∧
      s.entries.map Entry.raw = Document.window threshold docs) ∧
      idle.span.elapsed s.lastRead s.now = true := by
  cases hs with
  | look hlook =>
    obtain ⟨outcome, o', tail, events, hstep, rfl⟩ := look?_eq_some hlook
    obtain rfl := ended_of_onOutcome (d := { d with oplog := o', tail := tail }) hlive hended
    have hopen' : d.tail.closed = false := (Tail.leaves_of_step? hstep).1.symm.trans hopen
    have hgoes := h.live hlive hopen'
    obtain ⟨ho, _, _⟩ := Tail.passes_of_step? h.placed hgoes hstep
    constructor
    · show ∃ docs, (docs = o'.documents ∨ _) ∧ docs <+: o'.documents ∧ d.entries.map Entry.raw = _
      rw [ho]
      exact h.whole hr hlive hopen' hstep
    · have helapsed := Tail.step?_elapsed hgoes.alive hopen' hstep
      rwa [h.idle, h.seen hlive] at helapsed
  | expire hends =>
    obtain ⟨tail, _, rfl⟩ := expire?_eq_some hends
    cases hlive.symm.trans hended
  | ask => cases hlive.symm.trans hended
  | append => cases hlive.symm.trans hended
  | inject => cases hlive.symm.trans hended
  | close => cases hlive.symm.trans hended
  | pass => cases hlive.symm.trans hended

def earliest : Timestamp := { seconds := 20, counter := 2 }

def small : Delivery :=
  .start ⟨"app", "users"⟩ earliest (.whole 2) 0 { documents := [
    [("ts", .timestamp { seconds := 10, counter := 2 }), ("op", .text "i")],
    [("ts", .timestamp { seconds := 20, counter := 2 }), ("op", .text "i")],
    [("ts", .timestamp { seconds := 30, counter := 2 }), ("op", .text "u")]] }

def asked (d : Delivery) : Delivery := d.ask.look?.getD d.ask

def drained : Delivery := small.asked.asked.asked

theorem Reachable.asked (h : Reachable threshold idle d) : Reachable threshold idle d.asked := by
  unfold Delivery.asked
  have hask : Reachable threshold idle d.ask := .step h .ask
  cases hlook : d.ask.look? with
  | none => exact hask
  | some s => exact .step hask (.look hlook)

def lapsed : Delivery :=
  let later := { drained with now := (Span.seconds 2).arrival 0 }
  later.expire?.getD later

end Delivery

end OplogRelay
