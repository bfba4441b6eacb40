import OplogRelay.Proofs.Transfer.Moves
/-!
Work at one moment comes to an end. Whatever the forwarder does leaves less for it to do, unless
documents are appended; so a coordinator that has an answer to settle gets to it.
-/
namespace OplogRelay

namespace Tail

variable {t t' : Tail} {now : Nat} {outcome : Outcome} {events : List Event}

/-- How many pieces of work can follow before a tail waits, if nothing is read. -/
def looks (t : Tail) : Nat :=
  match t.phase with
  | .looking => 1
  | .waiting _ true | .lapsed => 2
  | _ => 0

def Outcome.Passes (o : Oplog) (t t' : Tail) : Outcome → Prop
  | .entry _ => t.cursor.position < t'.cursor.position ∧ t'.cursor.position ≤ o.documents.length
  | .pending => t.cursor.position ≤ t'.cursor.position ∧ t'.looks < t.looks
  | .ended | .failed _ => True

theorem GivesUp.passes_on {o : Oplog} {s : Tail} (h : t.GivesUp now outcome t' events)
    (hposition : s.cursor.position ≤ t.cursor.position) (hlooks : 1 < s.looks) :
    outcome.Passes o s t' := by
  cases h with
  | idled => exact trivial
  | anew => exact ⟨hposition, hlooks⟩
  | shut => exact trivial

theorem step?_passes {o o' : Oplog} (h : t.step? now o = some (outcome, o', t', events)) :
    o'.documents = o.documents ∧ outcome.Passes o t t' := by
  rcases works_of_step? h with ⟨hready, hsees, hlook⟩ | ⟨hlapsed, hgives⟩
  case lapses => exact ⟨rfl, hgives.passes_on (Nat.le_refl _) (by simp [looks, hlapsed])⟩
  cases hsees with
  | ended hdead =>
    -- a cursor that is dead is not asked a second time
    refine ⟨rfl, ?_⟩
    cases hlook with
    | ended hgives =>
      cases hgives with
      | idled => exact trivial
      | anew _ halive => cases hdead.symm.trans halive
      | shut => exact trivial
  | fault =>
    cases hlook
    exact ⟨rfl, trivial⟩
  | nothing =>
    refine ⟨rfl, ?_⟩
    rcases hready with ⟨rfl, hphase⟩ | ⟨rfl, due, hphase⟩
    · cases hlook with
      | fruitless hagain => cases hagain
      | untimed => exact trivial
      | waits => exact ⟨Nat.le_add_right _ _, by simp [looks, hphase]⟩
    · cases hlook with
      | fruitless _ hgives => exact hgives.passes_on (Nat.le_add_right _ _) (by simp [looks, hphase])
      | untimed hagain => cases hagain
      | waits hagain => cases hagain
  | @document below d above _ hlog =>
    refine ⟨rfl, ?_⟩
    cases hlook with
    | malformed => exact trivial
    | entry =>
      refine ⟨Nat.lt_add_of_pos_right (Nat.succ_pos _), ?_⟩
      have hlen := congrArg List.length hlog
      simp only [List.length_drop, List.length_append, List.length_cons] at hlen
      show t.cursor.position + (below.length + 1) ≤ o.documents.length
      omega
  | unreadable =>
    cases hlook
    exact ⟨rfl, trivial⟩

end Tail

namespace Forwarder

variable {f f' : Forwarder} {now : Nat} {events : List Event}

/-- What a forwarder has to read of a log of `n` documents and to put on its queue. A document counts for
more than the entry that it may be. -/
def unread (n : Nat) (f : Forwarder) : Nat :=
  if f.finished then 0
  else 1 + 3 * (n - f.tail.cursor.position) + 2 * f.held.toList.length

def looks (f : Forwarder) : Nat := if f.finished then 0 else f.tail.looks

theorem unread_of_ended {n : Nat} (h : f.ending ≠ none) : f.unread n = 0 := by
  rw [unread, if_pos (f.finished_iff.mpr h)]

theorem unread_of_live (f : Forwarder) {n : Nat} (h : f.ending = none) : f.unread n =
    1 + 3 * (n - f.tail.cursor.position) + 2 * f.held.toList.length := by
  rw [unread, if_neg (by simp [finished, h])]

theorem looks_of_live (f : Forwarder) (h : f.ending = none) : f.looks = f.tail.looks := by
  rw [looks, if_neg (by simp [finished, h])]

theorem unread_put {n : Nat} {e : Entry} (h : f.ending = none) :
    (f.put e).1.unread n = 1 + 3 * (n - f.tail.cursor.position) := by
  rw [unread_of_live (f.put e).1 h, f.cursor_put e]
  rfl

theorem unread_accept {n : Nat} {e : Entry} (h : f.ending = none) (hheld : f.held = none) :
    (f.accept e).1.unread n ≤ 3 + 3 * (n - f.tail.cursor.position) := by
  unfold accept
  split
  · rw [unread_of_live _ (by exact h)]
    simp only [Tail.resume_cursor, hheld, Option.toList_none, List.length_nil]
    omega
  · split
    · rw [unread_put h]
      omega
    · rw [unread_of_live _ (by exact h)]
      simp only [Option.toList_some, List.length_singleton]
      omega

/-- What a forwarder that works leaves to do: less to read, or as much and a tail that comes nearer to its
wait. -/
inductive Lessens (now n : Nat) (o : Oplog) (f f' : Forwarder) : Prop where
  | reads : f'.unread n < f.unread n → Lessens now n o f f'
  | looks {o' tail told} : f'.unread n = f.unread n → f.ending = none →
      f.tail.step? now o = some (.pending, o', tail, told) → f' = { f with tail := tail } →
      tail.looks < f.tail.looks → Lessens now n o f f'

theorem lessens_onOutcome {o o' : Oplog} {tail : Tail} {outcome : Tail.Outcome} {told : List Event}
    (h : f.ending = none) (hheld : f.held = none)
    (hstep : f.tail.step? now o = some (outcome, o', tail, told)) :
    Lessens now o.documents.length o f ({ f with tail := tail }.onOutcome outcome).1 := by
  have hpasses := (Tail.step?_passes hstep).2
  have hbefore := f.unread_of_live (n := o.documents.length) h
  rw [hheld, Option.toList_none, List.length_nil] at hbefore
  cases outcome with
  | pending =>
    obtain ⟨hposition, hlooks⟩ := hpasses
    have hafter : unread o.documents.length { f with tail := tail } =
        1 + 3 * (o.documents.length - tail.cursor.position) := by
      rw [unread_of_live _ (by exact h)]
      simp [hheld]
    by_cases hless : unread o.documents.length { f with tail := tail } < f.unread o.documents.length
    · exact .reads hless
    · exact .looks (by show unread _ { f with tail := tail } = _; omega) h hstep rfl hlooks
  | entry e =>
    obtain ⟨hposition, hwithin⟩ := hpasses
    have haccept := unread_accept (f := { f with tail := tail }) (n := o.documents.length) (e := e) h hheld
    refine .reads (Nat.lt_of_le_of_lt haccept ?_)
    dsimp only
    omega
  | ended =>
    refine .reads ?_
    rw [unread_of_ended (by simp [onOutcome, finish])]
    omega
  | failed e =>
    have hended : ({ f with tail := tail }.onOutcome (.failed e)).1.ending ≠ none := by
      cases e <;> simp [onOutcome, finish]
    refine .reads ?_
    rw [unread_of_ended hended]
    omega

theorem lessens_of_step? {o o' : Oplog} (hstep : f.step? now o = some (o', f', events)) :
    o'.documents = o.documents ∧ Lessens now o.documents.length o f f' := by
  obtain ⟨hlive, ⟨e, hheld, _, rfl, rfl, _⟩ | ⟨hheld, outcome, tail, told, htail, rfl, _⟩⟩ :=
    step?_cases hstep
  · refine ⟨rfl, .reads ?_⟩
    rw [unread_put hlive, unread_of_live f hlive, hheld, Option.toList_some, List.length_singleton]
    omega
  · exact ⟨(Tail.step?_passes htail).1, lessens_onOutcome hlive hheld htail⟩

end Forwarder

namespace Transfer

variable {t u : Transfer}

def unread (t : Transfer) : Nat :=
  t.forwarder.unread t.oplog.documents.length +
    match t.claim with
    | .outstanding => 1
    | _ => 0

def looks (t : Transfer) : Nat := t.forwarder.looks

theorem unread_lt_of_fill? (h : t.fill? = some u) : u.unread < t.unread := by
  obtain ⟨e, rest, hclaim, _, rfl⟩ := fill?_eq h
  simp only [unread, hclaim]
  exact Nat.lt_succ_self _

theorem unread_forwarded (forwarder : Forwarder) (events : List Event) {oplog : Oplog}
    (hdocs : oplog.documents = t.oplog.documents) :
    (note { t with oplog := oplog, forwarder := forwarder } events).unread +
      t.forwarder.unread t.oplog.documents.length =
        t.unread + forwarder.unread t.oplog.documents.length := by
  show forwarder.unread oplog.documents.length + (match t.claim with | .outstanding => 1 | _ => 0) + _ = _
  rw [hdocs, unread]
  omega

theorem lessens_of_forward? (h : t.forward? = some u) : u.unread < t.unread ∨
    u.unread = t.unread ∧ u.looks < t.looks := by
  obtain ⟨oplog, forwarder, events, hlive, hf, rfl⟩ := forward?_eq h
  obtain ⟨hdocs, hlessens⟩ := Forwarder.lessens_of_step? hf
  have hunread := unread_forwarded forwarder events hdocs
  cases hlessens with
  | reads hless => exact .inl (by omega)
  | looks hsame _ _ heq hlooks =>
    refine .inr ⟨by omega, ?_⟩
    subst heq
    show Forwarder.looks _ < t.forwarder.looks
    rw [t.forwarder.looks_of_live hlive, Forwarder.looks_of_live _ (by exact hlive)]
    exact hlooks

theorem step?_cases (h : t.step? = some u) : t.isDone = false ∧
    (t.fill? = some u ∨ t.fill? = none ∧ (t.forward? = some u ∨ t.forward? = none ∧
      (t.hear? = some u ∨ t.hear? = none ∧
        (t.coordinate? = some u ∨ t.coordinate? = none ∧ t.expire? = some u)))) := by
  unfold step? at h
  split at h
  · cases h
  · next hdone =>
    refine ⟨by simpa using hdone, ?_⟩
    cases hfill : t.fill? with
    | some v =>
      rw [hfill] at h
      exact .inl h
    | none =>
      refine .inr ⟨rfl, ?_⟩
      rw [hfill] at h
      cases hforward : t.forward? with
      | some v =>
        rw [hforward] at h
        exact .inl h
      | none =>
        refine .inr ⟨rfl, ?_⟩
        rw [hforward] at h
        cases hhear : t.hear? with
        | some v =>
          rw [hhear] at h
          exact .inl h
        | none =>
          refine .inr ⟨rfl, ?_⟩
          rw [hhear] at h
          cases hcoordinate : t.coordinate? with
          | some v =>
            rw [hcoordinate] at h
            exact .inl h
          | none =>
            rw [hcoordinate] at h
            exact .inr ⟨rfl, h⟩

/-- How much can happen before a coordinator settles an answer. -/
def bustle (t : Transfer) : Nat × Nat × Nat := (t.unread, t.looks, if t.heard then 0 else 1)

def Busier : Nat × Nat × Nat → Nat × Nat × Nat → Prop :=
  Prod.Lex (· < ·) (Prod.Lex (· < ·) (· < ·))

theorem busier_wellFounded : WellFounded Busier :=
  (Prod.lex Nat.lt_wfRel (Prod.lex Nat.lt_wfRel Nat.lt_wfRel)).wf

theorem Invariant.step?_of_answered {threshold : Timestamp} {f : Flush} {answer : Answer}
    (h : t.Invariant threshold) (hphase : t.phase = .answered f answer) :
    (∃ u, t.step? = some u ∧ Beside t u ∧ Busier u.bustle t.bustle) ∨
      t.step? = some (t.settle f answer) := by
  have hcoordinate : t.coordinate? = some (t.settle f answer) := by
    simp [Transfer.coordinate?, hphase]
  rw [step?, if_neg (by simp [isDone, hphase])]
  cases hfill : t.fill? with
  | some u => exact .inl ⟨u, rfl, beside_fill? hfill, .left _ _ (unread_lt_of_fill? hfill)⟩
  | none =>
    cases hforward : t.forward? with
    | some u =>
      refine .inl ⟨u, rfl, h.beside_forward? hforward, ?_⟩
      rcases lessens_of_forward? hforward with hless | ⟨hsame, hless⟩
      · exact .left _ _ hless
      · rw [bustle, hsame]
        exact .right _ (.left _ _ hless)
    | none =>
      cases hhear : t.hear? with
      | some u =>
        refine .inl ⟨u, rfl, beside_hear? hhear, ?_⟩
        obtain ⟨_, hunheard, rfl⟩ := hear?_eq hhear
        rw [bustle, bustle, hunheard]
        exact .right _ (.right _ Nat.zero_lt_one)
      | none => exact .inr (by simp [hcoordinate])

theorem done_of_isDone (h : t.isDone = true) : ∃ result, t.phase = .done result := by
  unfold isDone at h
  split at h
  · next result hphase => exact ⟨result, hphase⟩
  · cases h

theorem sooner_le_left {a b : Option Nat} {x : Nat} (h : a = some x) :
    ∃ m, sooner a b = some m ∧ m ≤ x := by
  subst h
  cases b with
  | none => exact ⟨x, rfl, Nat.le_refl x⟩
  | some y => exact ⟨min x y, rfl, Nat.min_le_left x y⟩

theorem sooner_le_right {a b : Option Nat} {x : Nat} (h : b = some x) :
    ∃ m, sooner a b = some m ∧ m ≤ x := by
  subst h
  cases a with
  | none => exact ⟨x, rfl, Nat.le_refl x⟩
  | some y => exact ⟨min y x, rfl, Nat.min_le_right y x⟩

theorem steps_none (h : t.step? = none) (hdone : t.isDone = false) :
    t.fill? = none ∧ t.forward? = none ∧ t.hear? = none ∧ t.coordinate? = none ∧ t.expire? = none := by
  rw [step?, if_neg (by simp [hdone])] at h
  cases hfill : t.fill? with
  | some => simp [hfill] at h
  | none =>
    cases hforward : t.forward? with
    | some => simp [hfill, hforward] at h
    | none =>
      cases hhear : t.hear? with
      | some => simp [hfill, hforward, hhear] at h
      | none =>
        cases hcoordinate : t.coordinate? with
        | some => simp [hfill, hforward, hhear, hcoordinate] at h
        | none => exact ⟨rfl, rfl, rfl, rfl, by simpa [hfill, hforward, hhear, hcoordinate] using h⟩

theorem heard_of_rest (h : t.step? = none) (hdone : t.isDone = false) (hasked : t.shutdown = true) :
    t.heard = true := by
  obtain ⟨_, _, hhear, _⟩ := steps_none h hdone
  simpa [hear?, hasked] using hhear

theorem sooner_cases {a b : Option Nat} {m : Nat} (h : sooner a b = some m) :
    a = some m ∨ b = some m := by
  cases a with
  | none => exact .inr h
  | some a =>
    cases b with
    | none => exact .inl h
    | some b =>
      have hm : min a b = m := Option.some.inj h
      rcases Nat.le_total a b with hab | hab
      · rw [Nat.min_eq_left hab] at hm
        exact .inl (congrArg some hm)
      · rw [Nat.min_eq_right hab] at hm
        exact .inr (congrArg some hm)

theorem lt_forwarder_due {moment : Nat} (h : t.expire? = none)
    (hdue : t.forwarder.due? = some moment) : t.now < moment := by
  refine Forwarder.lt_due ?_ hdue
  cases hexpire : t.forwarder.expire? t.now with
  | none => rfl
  | some => simp [expire?, hexpire] at h

theorem lt_due {moment : Nat} (h : t.step? = none) (hdue : t.due? = some moment) :
    t.now < moment := by
  unfold due? at hdue
  cases hp : t.phase with
  | done => simp [hp] at hdue
  | waiting watching =>
    obtain ⟨_, _, _, hcoordinate, hexpire⟩ := steps_none h (by simp [isDone, hp])
    simp only [hp] at hdue
    rcases sooner_cases hdue with hdue | hdue
    · exact lt_forwarder_due hexpire hdue
    · by_contra hle
      have hroused : t.roused watching = true := by
        simp [roused, alarmDue, isDue, hdue, Nat.le_of_not_lt hle]
      simp [coordinate?, hp, hroused] at hcoordinate
  | applying f ops due =>
    obtain ⟨_, _, _, hcoordinate, hexpire⟩ := steps_none h (by simp [isDone, hp])
    simp only [hp] at hdue
    rcases sooner_cases hdue with hdue | hdue
    · exact lt_forwarder_due hexpire hdue
    · by_contra hle
      cases hdue
      simp [coordinate?, hp, Nat.le_of_not_lt hle] at hcoordinate
  | answered f answer =>
    obtain ⟨_, _, _, hcoordinate, _⟩ := steps_none h (by simp [isDone, hp])
    simp [coordinate?, hp] at hcoordinate

theorem now_of_moves {threshold : Timestamp} (h : t.Invariant threshold) (hmoves : t.Moves u) :
    u.now = t.now := by
  cases hmoves with
  | fill hstep =>
    obtain ⟨e, rest, _, _, rfl⟩ := fill?_eq hstep
    rfl
  | forward hstep =>
    obtain ⟨oplog, forwarder, events, _, _, rfl⟩ := forward?_eq hstep
    rfl
  | hear hstep =>
    obtain ⟨_, _, rfl⟩ := hear?_eq hstep
    rfl
  | coordinate hstep => exact (h.coordinate?_advances hstep).now
  | expire hstep =>
    obtain ⟨forwarder, _, _, rfl⟩ := expire?_eq hstep
    rfl

end Transfer

end OplogRelay
