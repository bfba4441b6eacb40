import OplogRelay.Proofs.Source.Forwarding
/-!
What a piece of work at a tail makes of the tail itself. It takes note of the moment at which it reads a
document, and ends for good without a failure where nothing was read for long enough, or where the tail was
closed. A fault, or a document that is no entry, is met by the first look that comes to it.
-/
namespace OplogRelay

namespace Cursor

theorem scan_first {threshold : Value} {below above : List Document} {d : Document}
    (hbelow : ∀ b ∈ below, reaches threshold b = .ok false) (hreach : reaches threshold d = .ok true) :
    scan threshold (below ++ d :: above) = (below.length + 1, .document d) := by
  induction below with
  | nil => simp [scan, hreach]
  | cons b below ih =>
    have hrest := ih fun x hx => hbelow x (List.mem_cons_of_mem b hx)
    simp [scan, hbelow b List.mem_cons_self, hrest]

theorem look_fault {o : Oplog} {c : Cursor} {f : Fault} (halive : c.alive = true)
    (hf : o.fault = some f) : c.look o = (.fault f, o.takeFault.2, { c with alive := false }) := by
  simp [look, halive, hf]

end Cursor

namespace Tail

def Outcome.Leaves (now : Nat) (t t' : Tail) : Outcome → Prop
  | .entry _ => t'.lastSeen = now ∧ t'.phase = .resting
  | .pending => t'.lastSeen = t.lastSeen ∧ t'.phase ≠ .over
  | .ended => t'.lastSeen = t.lastSeen ∧ t'.phase = .over
  | .failed _ => t'.phase = .over

def IsReady (t : Tail) : Prop := t.phase = .looking ∨ ∃ due, t.phase = .waiting due true

variable {t t' : Tail} {now : Nat} {outcome : Outcome} {events : List Event} {o o' : Oplog}

@[simp]
theorem resume_closed (t : Tail) : t.resume.closed = t.closed := by
  unfold resume
  split <;> rfl

@[simp]
theorem resume_lastSeen (t : Tail) : t.resume.lastSeen = t.lastSeen := by
  unfold resume
  split <;> rfl

@[simp]
theorem wake_closed (t : Tail) : t.wake.closed = t.closed := by
  unfold wake
  split <;> rfl

theorem Placed.resume {threshold : Timestamp} {docs : List Document} (h : t.Placed threshold docs) :
    t.resume.Placed threshold docs := by
  refine ⟨?_, ?_, ?_⟩
  · rw [resume_cursor]
    exact h.threshold
  · rw [resume_cursor, resume_idle]
    exact h.await
  · rw [resume_cursor]
    exact h.within

theorem resume_waiting {until? : Option Nat} {woken : Bool}
    (h : t.resume.phase = .waiting until? woken) : t.phase = .waiting until? woken := by
  unfold resume at h
  split at h
  · cases h
  · exact h

theorem Live.resume {docs : List Document} (h : t.Live docs) : t.resume.Live docs := by
  refine ⟨?_, ?_, ?_, ?_⟩
  · rw [resume_cursor]
    exact h.alive
  · rw [resume_closed]
    exact h.opened
  · unfold Tail.resume
    split
    · simp
    · exact h.running
  · rw [resume_cursor]
    exact fun until? hwaits => h.caught_up until? (resume_waiting hwaits)

theorem wake_waiting (t : Tail) (until? : Option Nat) : t.wake.phase ≠ .waiting until? false := by
  unfold wake
  split
  · simp
  · next hnot => exact fun hwaits => hnot until? false hwaits

theorem wake_over (h : t.phase = .over) : t.wake.phase = .over := by
  simp [wake, h]

theorem resume_over (h : t.phase = .over) : t.resume.phase = .over := by
  simp [resume, h]

theorem GivesUp.leaves (h : t.GivesUp now outcome t' events) :
    t'.closed = t.closed ∧ outcome.Leaves now t t' := by
  cases h with
  | idled => exact ⟨rfl, rfl, rfl⟩
  | anew => exact ⟨rfl, rfl, by simp⟩
  | shut => exact ⟨rfl, rfl, rfl⟩

theorem Follows.leaves {again : Bool} {seen : Look} (h : t.Follows now again seen outcome t' events) :
    t'.closed = t.closed ∧ outcome.Leaves now t t' := by
  cases h with
  | entry => exact ⟨rfl, rfl, rfl⟩
  | malformed => exact ⟨rfl, rfl⟩
  | fault => exact ⟨rfl, rfl⟩
  | unreadable => exact ⟨rfl, rfl⟩
  | ended hgives => exact hgives.leaves
  | fruitless _ hgives => exact hgives.leaves
  | untimed => exact ⟨rfl, rfl⟩
  | waits => exact ⟨rfl, rfl, by simp⟩

theorem leaves_of_step? (h : t.step? now o = some (outcome, o', t', events)) :
    t'.closed = t.closed ∧ outcome.Leaves now t t' := by
  rcases works_of_step? h with ⟨_, _, hlook⟩ | ⟨_, hgives⟩
  case lapses => exact hgives.leaves
  obtain ⟨hclosed, hleaves⟩ := hlook.leaves
  refine ⟨hclosed, ?_⟩
  cases outcome <;> exact hleaves

theorem leaves_of_expire? (h : t.expire? now = some t') :
    t'.closed = t.closed ∧ t'.cursor = t.cursor ∧ t'.lastSeen = t.lastSeen ∧ t'.idle = t.idle ∧
      t'.phase = .lapsed := by
  obtain ⟨_, _, _, rfl⟩ := expire?_eq_some h
  exact ⟨rfl, rfl, rfl, rfl, rfl⟩

theorem GivesUp.dead (h : t.GivesUp now outcome t' events) (hdead : t.cursor.alive = false) :
    outcome = .ended ∧ t' = { t with phase := .over } := by
  cases h with
  | idled => exact ⟨rfl, rfl⟩
  | anew _ halive => cases hdead.symm.trans halive
  | shut => exact ⟨rfl, rfl⟩

theorem step?_dead (hdead : t.cursor.alive = false) (h : t.step? now o = some (outcome, o', t', events)) :
    o' = o ∧ outcome = .ended ∧ t' = { t with phase := .over } := by
  rcases works_of_step? h with ⟨_, hsees, hlook⟩ | ⟨_, hgives⟩
  case lapses => exact ⟨rfl, hgives.dead hdead⟩
  cases hsees with
  | ended =>
    cases hlook with
    | ended hgives => exact ⟨rfl, hgives.dead hdead⟩
  | fault halive => cases hdead.symm.trans halive
  | nothing halive => cases hdead.symm.trans halive
  | document halive => cases hdead.symm.trans halive
  | unreadable halive => cases hdead.symm.trans halive

theorem GivesUp.elapsed (h : t.GivesUp now .ended t' events) (halive : t.cursor.alive = true)
    (hopen : t.closed = false) : t.idle.span.elapsed t.lastSeen now = true := by
  cases h with
  | idled helapsed => exact helapsed
  | shut hshut =>
    rcases hshut with hdead | hclosed
    · cases hdead.symm.trans halive
    · cases hopen.symm.trans hclosed

theorem step?_elapsed (halive : t.cursor.alive = true) (hopen : t.closed = false)
    (h : t.step? now o = some (.ended, o', t', events)) :
    t.idle.span.elapsed t.lastSeen now = true := by
  rcases works_of_step? h with ⟨_, hsees, hlook⟩ | ⟨_, hgives⟩
  case lapses => exact hgives.elapsed halive hopen
  cases hsees with
  | ended hdead => cases hdead.symm.trans halive
  | fault => cases hlook
  | unreadable => cases hlook
  | document => cases hlook
  | nothing =>
    cases hlook with
    | fruitless _ hgives => exact hgives.elapsed halive hopen

theorem step?_over (h : t.phase = .over) : t.step? now o = none := by
  simp [step?, h]

theorem expire?_over (h : t.phase = .over) : t.expire? now = none := by
  simp [expire?, h]

theorem waited_of_step?_ended (halive : t.cursor.alive = true)
    (h : t.step? now o = some (.ended, o', t', events)) :
    t.phase = .lapsed ∨ ∃ until?, t.phase = .waiting until? true := by
  rcases works_of_step? h with ⟨hready, hsees, hlook⟩ | ⟨hlapsed, _⟩
  case lapses => exact .inl hlapsed
  refine .inr ?_
  cases hsees with
  | ended hdead => cases hdead.symm.trans halive
  | fault => cases hlook
  | unreadable => cases hlook
  | document => cases hlook
  | nothing =>
    cases hlook with
    | fruitless hagain =>
      rcases hready with ⟨hfirst, _⟩ | ⟨_, hwoken⟩
      · cases hfirst.symm.trans hagain
      · exact hwoken

theorem oplog_of_step? (hready : t.phase ≠ .lapsed)
    (h : t.step? now o = some (outcome, o', t', events)) : o' = (t.cursor.look o).2.1 := by
  unfold step? at h
  cases hp : t.phase with
  | looking =>
    simp only [hp] at h
    cases h
    rfl
  | waiting until? woken =>
    cases woken with
    | true =>
      simp only [hp] at h
      cases h
      rfl
    | false => simp [hp] at h
  | lapsed => exact absurd hp hready
  | resting => simp [hp] at h
  | _ => simp [hp] at h

theorem faultless_of_step? {until? : Option Nat} (h : t.step? now o = some (outcome, o', t', events))
    (hwaits : t'.phase = .waiting until? false) : o'.fault = none := by
  have hready : t.phase ≠ .lapsed := by
    intro hlapsed
    rcases works_of_step? h with ⟨⟨_, hlooking⟩ | ⟨_, _, hwoken⟩, _, _⟩ | ⟨_, hgives⟩
    · cases hlapsed.symm.trans hlooking
    · cases hlapsed.symm.trans hwoken
    · exact hgives.not_waiting hwaits
  have ho := oplog_of_step? hready h
  by_cases halive : t.cursor.alive = true
  · cases hf : o.fault with
    | none => simp [ho, Cursor.look, halive, hf]
    | some f =>
      rw [ho, Cursor.look_fault halive hf]
      rfl
  · obtain ⟨_, _, rfl⟩ := step?_dead (by simpa using halive) h
    cases hwaits

theorem expire?_ready (h : t.resume.IsReady) : t.expire? now = none := by
  unfold expire?
  split
  · next due hphase =>
    have hsame : t.resume.phase = .waiting (some due) false := by simp [resume, hphase]
    rcases h with hlooking | ⟨due', hwoken⟩
    · cases hsame.symm.trans hlooking
    · cases hsame.symm.trans hwoken
  · rfl

theorem step?_ready (h : t.IsReady) (now : Nat) (o : Oplog) : ∃ again, t.step? now o =
    (let (seen, o', cursor) := t.cursor.look o
     let (outcome, t', events) := { t with cursor := cursor }.onLook now again seen
     some (outcome, o', t', events)) := by
  rcases h with hlooking | ⟨due, hwoken⟩
  · exact ⟨false, by simp only [step?, hlooking]⟩
  · exact ⟨true, by simp only [step?, hwoken]⟩

/-- A tail that was woken and finds nothing to read ends if it has read nothing for long enough, no matter
for how long it has waited. -/
theorem step?_woken {until? : Option Nat} (now : Nat) (hwoken : t.phase = .waiting until? true)
    (halive : t.cursor.alive = true) (hopen : t.closed = false) (hf : o.fault = none)
    (hbelow : ∀ d ∈ o.documents.drop t.cursor.position, Cursor.reaches t.cursor.threshold d = .ok false) :
    ∃ outcome t' events, t.step? now o = some (outcome, o, t', events) ∧
      (outcome = .ended ∧ t.idle.span.elapsed t.lastSeen now = true ∨
        outcome = .pending ∧ t.idle.span.elapsed t.lastSeen now = false) := by
  obtain ⟨_, hlooked⟩ := t.step?_ready (.inr ⟨until?, hwoken⟩) now o
  obtain ⟨⟨outcome, o', t', events⟩, hstep⟩ : ∃ given, t.step? now o = some given := ⟨_, hlooked⟩
  rcases works_of_step? hstep with @⟨again, seen, _, cursor, _, _, _, hready, hsees, hlook⟩ | ⟨hlapsed, _⟩
  case lapses => cases hwoken.symm.trans hlapsed
  have hagain : again = true := by
    rcases hready with ⟨_, hlooking⟩ | ⟨hagain, _⟩
    · cases hwoken.symm.trans hlooking
    · exact hagain
  have hunreached {below above : List Document} {d : Document} {reached : Except UnreadableError Bool}
      (hlog : o.documents.drop t.cursor.position = below ++ d :: above)
      (hreach : Cursor.reaches t.cursor.threshold d = reached) : reached = .ok false :=
    hreach.symm.trans (hbelow d (by rw [hlog]; simp))
  cases hsees with
  | ended hdead => cases hdead.symm.trans halive
  | fault _ hfault => cases hf.symm.trans hfault
  | document _ hlog _ hreach => cases hunreached hlog hreach
  | unreadable _ hlog _ hreach => cases hunreached hlog hreach
  | nothing =>
    refine ⟨outcome, t', events, hstep, ?_⟩
    cases hlook with
    | untimed hfirst => cases hfirst.symm.trans hagain
    | waits hfirst => cases hfirst.symm.trans hagain
    | fruitless _ hgives =>
      cases hgives with
      | idled helapsed => exact .inl ⟨rfl, helapsed⟩
      | anew hlate => exact .inr ⟨rfl, hlate⟩
      | shut hshut =>
        rcases hshut with hdead | hclosed
        · cases hdead.symm.trans halive
        · cases hclosed.symm.trans hopen

section Document

variable {threshold : Timestamp} {below above : List Document} {d : Document}
variable (now : Nat) (h : t.IsReady) (halive : t.cursor.alive = true) (hf : o.fault = none)
variable (hthreshold : t.cursor.threshold = .timestamp threshold)
variable (hlog : o.documents.drop t.cursor.position = below ++ d :: above)
variable (hbelow : ∀ b ∈ below, b.isBelow threshold = true) (hfrom : d.isFrom threshold = true)
include h halive hf hthreshold hlog hbelow hfrom

theorem step?_document : ∃ cursor, t.step? now o =
    (let (outcome, t', events) := ({ t with cursor := cursor } : Tail).take now d
     some (outcome, o, t', events)) := by
  obtain ⟨again, hstep⟩ := t.step?_ready h now o
  have hscan : Cursor.scan (.timestamp threshold) (below ++ d :: above) =
      (below.length + 1, .document d) :=
    Cursor.scan_first (fun b hb => Cursor.reaches_of_isBelow (hbelow b hb))
      (Cursor.reaches_of_isFrom hfrom)
  have hlook : t.cursor.look o =
      (.document d, o, { t.cursor with position := t.cursor.position + (below.length + 1) }) := by
    simp [Cursor.look, halive, hf, hthreshold, hlog, hscan]
  rw [hlook] at hstep
  exact ⟨_, hstep⟩

theorem step?_entry {e : Entry} (he : Entry.ofDocument? d = .ok e) :
    ∃ t', t.step? now o = some (.entry e, o, t', []) := by
  obtain ⟨cursor, hstep⟩ := step?_document now h halive hf hthreshold hlog hbelow hfrom
  simp only [take, he] at hstep
  exact ⟨_, hstep⟩

end Document

end Tail

end OplogRelay
