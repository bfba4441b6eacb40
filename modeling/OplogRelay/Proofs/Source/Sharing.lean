import Mathlib.Logic.Function.Iterate
import Mathlib.Logic.Relation
import OplogRelay.Proofs.Source.Relayable
import OplogRelay.Source.CursorSet
/-!
Cursors that share a log, and the one slot for a fault that comes with it. Whatever is done to the log and by
whom, at any moment and while another cursor waits, each cursor reads the log as if it were alone: what it has
returned are the first of the documents that are not below its threshold. A fault goes to whoever comes first,
and to nobody else.
-/
namespace OplogRelay

def Look.given : Look → List Document
  | .document d => [d]
  | _ => []

namespace Cursor

def selects (threshold : Value) (d : Document) : Bool :=
  match reaches threshold d with
  | .ok reached => reached
  | .error _ => false

/-- What the cursor has returned is its selection from the documents that it has passed. -/
structure Stands (docs given : List Document) (c : Cursor) : Prop where
  within : c.position ≤ docs.length
  given : given = (docs.take c.position).filter (selects c.threshold)

variable {docs given below above : List Document} {c c' : Cursor} {o o' : Oplog} {seen : Look}
variable {threshold : Value} {d : Document}

theorem filter_below (h : ∀ b ∈ below, reaches threshold b = .ok false) :
    below.filter (selects threshold) = [] := by
  refine List.filter_eq_nil_iff.mpr fun b hb => ?_
  simp [selects, h b hb]

theorem stands_start (docs : List Document) (threshold await : Value) :
    Stands docs [] { threshold := threshold, await := await } :=
  ⟨Nat.zero_le _, rfl⟩

theorem Stands.append (h : c.Stands docs given) (more : List Document) :
    c.Stands (docs ++ more) given := by
  refine ⟨?_, ?_⟩
  · rw [List.length_append]
    exact Nat.le_add_right_of_le h.within
  · rw [List.take_append_of_le_length h.within]
    exact h.given

theorem Sees.passes (h : c.Sees o seen o' c') (hwithin : c.position ≤ o.documents.length) :
    o'.documents = o.documents ∧ c'.threshold = c.threshold ∧ c'.position ≤ o.documents.length ∧
      ∃ stretch, o.documents.take c'.position = o.documents.take c.position ++ stretch ∧
        stretch.filter (selects c.threshold) = seen.given := by
  cases h with
  | ended => exact ⟨rfl, rfl, hwithin, [], by simp, rfl⟩
  | fault => exact ⟨rfl, rfl, hwithin, [], by simp, rfl⟩
  | nothing _ hbelow =>
    have hend : c.position + (o.documents.drop c.position).length = o.documents.length := by
      rw [List.length_drop]
      exact Nat.add_sub_cancel' hwithin
    refine ⟨rfl, rfl, Nat.le_of_eq hend, o.documents.drop c.position, ?_, filter_below hbelow⟩
    rw [hend, List.take_length, List.take_append_drop]
  | @document below d _ _ hlog hbelow hreach =>
    refine ⟨rfl, rfl, position_within hlog hwithin, below ++ [d], take_past hlog, ?_⟩
    rw [List.filter_append, filter_below hbelow]
    simp [selects, hreach, Look.given]
  | @unreadable below d _ _ _ hlog hbelow hreach =>
    refine ⟨rfl, rfl, position_within hlog hwithin, below ++ [d], take_past hlog, ?_⟩
    rw [List.filter_append, filter_below hbelow]
    simp [selects, hreach, Look.given]

theorem Stands.look (h : c.Stands o.documents given) (hsees : c.Sees o seen o' c') :
    c'.Stands o.documents (given ++ seen.given) := by
  obtain ⟨_, hthreshold, hwithin, stretch, hlog, hgiven⟩ := hsees.passes h.within
  refine ⟨hwithin, ?_⟩
  rw [hthreshold, hlog, List.filter_append, hgiven, h.given]

theorem Stands.isPrefix (h : c.Stands docs given) :
    given <+: docs.filter (selects c.threshold) := by
  rw [h.given]
  exact (List.take_prefix _ docs).filter _

/-- Where no fault is in the way and all documents can be compared, the next one of the selection is what a
look returns, and it returns nothing only if there is no such document. -/
theorem Stands.gives (h : c.Stands o.documents given) (halive : c.alive = true) (hfault : o.fault = none)
    (hread : ∀ d ∈ o.documents, ∃ reached, reaches c.threshold d = .ok reached) :
    (∀ d rest, o.documents.filter (selects c.threshold) = given ++ d :: rest →
      (c.look o).1 = .document d) ∧
      (o.documents.filter (selects c.threshold) = given → (c.look o).1 = .nothing) := by
  have hsplit : o.documents.filter (selects c.threshold) =
      given ++ (o.documents.drop c.position).filter (selects c.threshold) := by
    rw [h.given, ← List.filter_append, List.take_append_drop]
  rw [hsplit, List.append_right_eq_self]
  simp only [List.append_cancel_left_eq]
  have hsees := look_sees o c
  generalize (c.look o).1 = seen, (c.look o).2.1 = o', (c.look o).2.2 = c' at *
  cases hsees with
  | ended hdead => cases hdead.symm.trans halive
  | fault _ hsome => cases hfault.symm.trans hsome
  | nothing _ hbelow => simp [filter_below hbelow]
  | document _ hlog hbelow hreach =>
    simp [hlog, List.filter_append, filter_below hbelow, selects, hreach]
  | @unreadable below d _ _ _ hlog _ hreach =>
    have hmem : d ∈ o.documents := by
      apply List.mem_of_mem_drop
      rw [hlog]
      simp
    obtain ⟨reached, hok⟩ := hread d hmem
    cases hok.symm.trans hreach

end Cursor

namespace CursorSet

theorem look_cases (s : CursorSet) (i : Nat) :
    (s.cursors[i]? = none ∧ s.look i = (.ended, s)) ∨
      ∃ c seen o' c', s.cursors[i]? = some c ∧ c.Sees s.oplog seen o' c' ∧
        s.look i = (seen, { s with oplog := o', cursors := s.cursors.set i c' }) := by
  cases hi : s.cursors[i]? with
  | none => exact .inl ⟨rfl, by simp [look, hi]⟩
  | some c =>
    refine .inr ⟨c, _, _, _, rfl, Cursor.look_sees s.oplog c, ?_⟩
    simp [look, hi]

/-- Who was given a fault: a cursor, which raised it, or somebody who took it out of the slot by hand. -/
inductive Taker where
  | cursor (i : Nat)
  | hand

/-- The faults that were injected, told by their numbers: which one lies in the slot, and who was given
which. -/
structure Injections where
  injected : List Fault := []
  slot : Option Nat := none
  taken : List (Nat × Taker) := []

namespace Injections

/-- The fault that lay in the slot before, if there was one, is given to nobody. -/
def inject (x : Injections) (f : Fault) : Injections :=
  { x with injected := x.injected ++ [f], slot := some x.injected.length }

def give (x : Injections) (who : Taker) : Injections :=
  { x with slot := none, taken := x.taken ++ x.slot.toList.map fun n => (n, who) }

def numbers (x : Injections) : List Nat := x.taken.map Prod.fst

structure Sound (x : Injections) (fault : Option Fault) : Prop where
  fault : fault = x.slot.bind (x.injected[·]?)
  once : (x.numbers ++ x.slot.toList).Nodup
  numbered : ∀ n ∈ x.numbers ++ x.slot.toList, n < x.injected.length

variable {x : Injections} {fault : Option Fault}

theorem sound_start : Sound {} none := ⟨rfl, List.nodup_nil, by simp [numbers]⟩

theorem Sound.inject (h : x.Sound fault) (f : Fault) : (x.inject f).Sound (some f) := by
  have hnew : ∀ n ∈ x.numbers, n < x.injected.length :=
    fun n hn => h.numbered n (List.mem_append_left _ hn)
  refine ⟨by simp [Injections.inject], ?_, ?_⟩
  · refine List.nodup_append.mpr ⟨(List.nodup_append.mp h.once).1, by simp [Injections.inject], ?_⟩
    intro n hn last hlast
    obtain rfl := List.mem_singleton.mp hlast
    exact Nat.ne_of_lt (hnew n hn)
  · intro n hn
    rw [Injections.inject, List.length_append]
    rcases List.mem_append.mp hn with hn | hlast
    · exact Nat.lt_add_right _ (hnew n hn)
    · obtain rfl := List.mem_singleton.mp hlast
      exact Nat.lt_succ_self _

theorem numbers_give (x : Injections) (who : Taker) :
    (x.give who).numbers = x.numbers ++ x.slot.toList := by
  simp [numbers, give, Function.comp_def]

theorem Sound.give (h : x.Sound fault) (who : Taker) : (x.give who).Sound none := by
  refine ⟨rfl, ?_, ?_⟩
  · rw [numbers_give]
    simpa [Injections.give] using h.once
  · rw [numbers_give]
    simpa [Injections.give] using h.numbered

theorem mem_give {who other : Taker} {n : Nat} :
    (n, other) ∈ (x.give who).taken ↔ (n, other) ∈ x.taken ∨ x.slot = some n ∧ other = who := by
  simp [give, Prod.ext_iff, and_comm, eq_comm]

end Injections

/-- Cursors that share a log, with what each of them returned, the cursors that were closed, and what became of
the faults. -/
structure Ledger where
  set : CursorSet := {}
  returned : List (Nat × Document) := []
  closed : List Nat := []
  faults : Injections := {}

namespace Ledger

def returnedBy (l : Ledger) (i : Nat) : List Document :=
  (l.returned.filter fun given => given.1 == i).map Prod.snd

def IsOver (l : Ledger) (i : Nat) : Prop :=
  i ∈ l.closed ∨ ∃ n, (n, Taker.cursor i) ∈ l.faults.taken

def heard (l : Ledger) (i : Nat) : Look → Ledger
  | .document d => { l with returned := l.returned ++ [(i, d)] }
  | .fault _ => { l with faults := l.faults.give (.cursor i) }
  | _ => l

def look (l : Ledger) (i : Nat) : Ledger :=
  { l.heard i (l.set.look i).1 with set := (l.set.look i).2 }

/-- One thing that is done to the log or by a cursor. A cursor may look at any time: while it waits, anything
else may happen. -/
inductive Step (l : Ledger) : Ledger → Prop where
  | append (docs : List Document) : Step l { l with set := l.set.append docs }
  | inject (f : Fault) : Step l { l with set := l.set.inject f, faults := l.faults.inject f }
  | takeFault : Step l { l with set := l.set.takeFault.2, faults := l.faults.give .hand }
  | tail (threshold await : Value) : Step l { l with set := l.set.tail threshold await }
  | close {number i s} : Place.resolve? l.set.cursors.length number = .ok i →
      l.set.close? number = .ok s → Step l { l with set := s, closed := l.closed ++ [i] }
  | look (i : Nat) : Step l (l.look i)
  | schedule (after : Span) (docs : List Document) : Step l { l with set := l.set.schedule after docs }
  | moveTo (moment : Nat) : Step l { l with set := l.set.moveTo moment }

abbrev Leads : Ledger → Ledger → Prop := Relation.ReflTransGen Step

inductive Reachable : Ledger → Prop where
  | start : Reachable {}
  | step {l m} : Reachable l → Step l m → Reachable m

structure Sound (l : Ledger) : Prop where
  stands : ∀ (i : Nat) (c : Cursor), l.set.cursors[i]? = some c →
    c.Stands l.set.oplog.documents (l.returnedBy i)
  faults : l.faults.Sound l.set.oplog.fault
  dies : ∀ (i : Nat) (c : Cursor), l.set.cursors[i]? = some c → (c.alive = false ↔ l.IsOver i)
  unknown : ∀ i, l.set.cursors.length ≤ i → l.returnedBy i = [] ∧ ¬ l.IsOver i

variable {l m : Ledger} {i j : Nat} {c : Cursor}

theorem sound_start : Sound {} where
  stands i c hc := by simp at hc
  faults := Injections.sound_start
  dies i c hc := by simp at hc
  unknown i _ := ⟨rfl, by simp [IsOver]⟩

theorem Sound.grows {s : CursorSet} {more : List Document} (h : l.Sound)
    (hcursors : s.cursors = l.set.cursors) (hfault : s.oplog.fault = l.set.oplog.fault)
    (hdocs : s.oplog.documents = l.set.oplog.documents ++ more) : Sound { l with set := s } where
  stands i c hc := by
    show c.Stands s.oplog.documents _
    rw [hdocs]
    exact (h.stands i c (hcursors ▸ hc)).append more
  faults := by
    show l.faults.Sound s.oplog.fault
    rw [hfault]
    exact h.faults
  dies i c hc := h.dies i c (hcursors ▸ hc)
  unknown i hi := h.unknown i (hcursors ▸ hi)

theorem Sound.inject (h : l.Sound) (f : Fault) :
    Sound { l with set := l.set.inject f, faults := l.faults.inject f } :=
  ⟨h.stands, h.faults.inject f, h.dies, h.unknown⟩

theorem Sound.takeFault (h : l.Sound) :
    Sound { l with set := l.set.takeFault.2, faults := l.faults.give .hand } := by
  have hover (i : Nat) : IsOver { l with set := l.set.takeFault.2, faults := l.faults.give .hand } i ↔
      l.IsOver i := by simp [IsOver, Injections.mem_give]
  refine ⟨h.stands, h.faults.give .hand, ?_, ?_⟩
  · exact fun i c hc => (h.dies i c hc).trans (hover i).symm
  · exact fun i hi => ⟨(h.unknown i hi).1, mt (hover i).mp (h.unknown i hi).2⟩

theorem Sound.tail (h : l.Sound) (threshold await : Value) :
    Sound { l with set := l.set.tail threshold await } := by
  obtain ⟨hnone, hgoes⟩ := h.unknown l.set.cursors.length (Nat.le_refl _)
  have hcases {i : Nat} {c : Cursor} (hc : (l.set.tail threshold await).cursors[i]? = some c) :
      l.set.cursors[i]? = some c ∨
        i = l.set.cursors.length ∧ c = { threshold := threshold, await := await } := by
    rw [CursorSet.tail, List.getElem?_append] at hc
    split at hc
    · exact .inl hc
    · next hnew =>
      obtain ⟨hplace, hcursor⟩ := List.getElem?_eq_some_iff.mp hc
      have hi : i = l.set.cursors.length := by
        simp only [List.length_cons, List.length_nil] at hplace
        omega
      subst hi
      exact .inr ⟨rfl, by simpa using hcursor.symm⟩
  refine ⟨?_, h.faults, ?_, ?_⟩
  · intro i c hc
    rcases hcases hc with hold | ⟨rfl, rfl⟩
    · exact h.stands i c hold
    · show Cursor.Stands _ (l.returnedBy l.set.cursors.length) _
      rw [hnone]
      exact Cursor.stands_start _ threshold await
  · intro i c hc
    rcases hcases hc with hold | ⟨rfl, rfl⟩
    · exact h.dies i c hold
    · exact iff_of_false (by simp) hgoes
  · intro i hi
    refine h.unknown i (Nat.le_of_succ_le ?_)
    simpa [CursorSet.tail] using hi

theorem close?_eq_ok {s s' : CursorSet} {number : Int} (h : s.close? number = .ok s') :
    ∃ i, Place.resolve? s.cursors.length number = .ok i ∧
      s' = { s with cursors := s.cursors.modify i Cursor.close } := by
  unfold CursorSet.close? at h
  split at h
  · next i hplace =>
    cases h
    exact ⟨i, hplace, rfl⟩
  · cases h

theorem Sound.close {number : Int} {s : CursorSet} (h : l.Sound)
    (hplace : Place.resolve? l.set.cursors.length number = .ok i) (hs : l.set.close? number = .ok s) :
    Sound { l with set := s, closed := l.closed ++ [i] } := by
  obtain ⟨i', hplace', rfl⟩ := close?_eq_ok hs
  obtain rfl : i = i' := Except.ok.inj (hplace.symm.trans hplace')
  have hover (j : Nat) {s : CursorSet} : IsOver { l with set := s, closed := l.closed ++ [i] } j ↔
      l.IsOver j ∨ j = i := by
    simp only [IsOver, List.mem_append, List.mem_singleton]
    exact or_right_comm
  have hcases {j : Nat} {c : Cursor} (hc : (l.set.cursors.modify i Cursor.close)[j]? = some c) :
      ∃ before, l.set.cursors[j]? = some before ∧
        (j = i ∧ c = before.close ∨ j ≠ i ∧ c = before) := by
    rw [List.getElem?_modify] at hc
    obtain ⟨before, hbefore, rfl⟩ := Option.map_eq_some_iff.mp hc
    refine ⟨before, hbefore, ?_⟩
    by_cases hj : i = j
    · exact .inl ⟨hj.symm, by simp [hj]⟩
    · exact .inr ⟨fun hi => hj hi.symm, by simp [hj]⟩
  refine ⟨?_, h.faults, ?_, ?_⟩
  · intro j c hc
    obtain ⟨before, hbefore, ⟨_, rfl⟩ | ⟨_, rfl⟩⟩ := hcases hc
    · exact ⟨(h.stands j before hbefore).within, (h.stands j before hbefore).given⟩
    · exact h.stands j c hbefore
  · intro j c hc
    obtain ⟨before, hbefore, ⟨hj, rfl⟩ | ⟨hj, rfl⟩⟩ := hcases hc
    · exact iff_of_true rfl ((hover j).mpr (.inr hj))
    · rw [h.dies j c hbefore, hover, or_iff_left hj]
  · intro j hj
    rw [List.length_modify] at hj
    obtain ⟨hnone, hgoes⟩ := h.unknown j hj
    refine ⟨hnone, fun hend => ((hover j).mp hend).elim hgoes fun hi => ?_⟩
    exact absurd (Place.lt_of_resolve? hplace) (hi ▸ Nat.not_lt.mpr hj)

theorem returnedBy_heard (l : Ledger) (i j : Nat) (seen : Look) :
    (l.heard i seen).returnedBy j = l.returnedBy j ++ if i = j then seen.given else [] := by
  cases seen with
  | document d =>
    by_cases hi : i = j <;> simp [heard, returnedBy, List.filter_append, hi, Look.given]
  | _ => simp [heard, returnedBy, Look.given]

theorem isOver_heard (l : Ledger) (seen : Look) (hj : j ≠ i) :
    (l.heard i seen).IsOver j ↔ l.IsOver j := by
  cases seen with
  | fault f => simp [heard, IsOver, Injections.mem_give, hj]
  | _ => rfl

theorem Sound.heard {seen : Look} {o' : Oplog} {c' : Cursor} (h : l.Sound)
    (hc : l.set.cursors[i]? = some c) (hsees : c.Sees l.set.oplog seen o' c') :
    (c'.alive = false ↔ (l.heard i seen).IsOver i) ∧ (l.heard i seen).faults.Sound o'.fault := by
  have hover := h.dies i c hc
  have hfaults := h.faults
  cases hsees with
  | ended => exact ⟨hover, hfaults⟩
  | nothing => exact ⟨hover, hfaults⟩
  | document => exact ⟨hover, hfaults⟩
  | unreadable => exact ⟨hover, hfaults⟩
  | fault _ hfault =>
    refine ⟨iff_of_true rfl (.inr ?_), hfaults.give (.cursor i)⟩
    obtain ⟨n, hslot, _⟩ := Option.bind_eq_some_iff.mp (hfaults.fault.symm.trans hfault)
    exact ⟨n, Injections.mem_give.mpr (.inr ⟨hslot, rfl⟩)⟩

theorem Sound.look (h : l.Sound) (i : Nat) : (l.look i).Sound := by
  rcases l.set.look_cases i with ⟨_, hlook⟩ | ⟨c, seen, o', c', hc, hsees, hlook⟩
  · rw [Ledger.look, hlook]
    exact h
  · rw [Ledger.look, hlook]
    have hplace : i < l.set.cursors.length := (List.getElem?_eq_some_iff.mp hc).1
    obtain ⟨hdocs, _⟩ := hsees.passes (h.stands i c hc).within
    obtain ⟨hover, hfaults⟩ := h.heard hc hsees
    have hcases {j : Nat} {x : Cursor} (hx : (l.set.cursors.set i c')[j]? = some x) :
        j = i ∧ x = c' ∨ j ≠ i ∧ l.set.cursors[j]? = some x := by
      rw [List.getElem?_set] at hx
      split at hx
      · next hi =>
        exact .inl ⟨hi.symm, (Option.some.inj hx).symm⟩
      · next hi => exact .inr ⟨Ne.symm hi, hx⟩
    refine ⟨?_, hfaults, ?_, ?_⟩
    · intro j x hx
      show x.Stands o'.documents ((l.heard i seen).returnedBy j)
      rw [hdocs, returnedBy_heard]
      rcases hcases hx with ⟨rfl, rfl⟩ | ⟨hj, hold⟩
      · rw [if_pos rfl]
        exact (h.stands j c hc).look hsees
      · rw [if_neg (Ne.symm hj), List.append_nil]
        exact h.stands j x hold
    · intro j x hx
      rcases hcases hx with ⟨rfl, rfl⟩ | ⟨hj, hold⟩
      · exact hover
      · exact (h.dies j x hold).trans (l.isOver_heard seen hj).symm
    · intro j hj
      rw [List.length_set] at hj
      have hne : j ≠ i := Nat.ne_of_gt (Nat.lt_of_lt_of_le hplace hj)
      obtain ⟨hnone, hgoes⟩ := h.unknown j hj
      refine ⟨?_, mt (l.isOver_heard seen hne).mp hgoes⟩
      show (l.heard i seen).returnedBy j = []
      rw [returnedBy_heard, hnone, if_neg (Ne.symm hne)]
      rfl

theorem Sound.step (h : l.Sound) (hs : l.Step m) : m.Sound := by
  cases hs with
  | append docs => exact h.grows rfl rfl rfl
  | inject f => exact h.inject f
  | takeFault => exact h.takeFault
  | tail threshold await => exact h.tail threshold await
  | close hplace hclose => exact h.close hplace hclose
  | look i => exact h.look i
  | schedule after docs => exact h.grows rfl rfl (List.append_nil _).symm
  | moveTo moment => exact h.grows rfl rfl rfl

theorem reachable_sound (h : Reachable l) : l.Sound := by
  induction h with
  | start => exact sound_start
  | step _ hs ih => exact ih.step hs

theorem Sound.look_further (h : l.Sound) (hc : l.set.cursors[i]? = some c) (halive : c.alive = true)
    (hfault : l.set.oplog.fault = none) : (l.look i).set.oplog = l.set.oplog ∧
      ∃ c', (l.look i).set.cursors[i]? = some c' ∧ c'.alive = true ∧ c'.threshold = c.threshold ∧
        min (c.position + 1) l.set.oplog.documents.length ≤ c'.position := by
  rcases l.set.look_cases i with ⟨hnone, _⟩ | ⟨x, seen, o', x', hx, hsees, hlook⟩
  · cases hnone.symm.trans hc
  obtain rfl : c = x := Option.some.inj (hc.symm.trans hx)
  have hplace := (List.getElem?_eq_some_iff.mp hc).1
  have hwithin := (h.stands i c hc).within
  rw [Ledger.look, hlook]
  have hat : (l.set.cursors.set i x')[i]? = some x' := List.getElem?_set_self hplace
  cases hsees with
  | ended hdead => cases hdead.symm.trans halive
  | fault _ hsome => cases hfault.symm.trans hsome
  | nothing =>
    refine ⟨rfl, _, hat, halive, rfl, ?_⟩
    dsimp only
    rw [List.length_drop]
    omega
  | document =>
    refine ⟨rfl, _, hat, halive, rfl, ?_⟩
    dsimp only
    omega
  | unreadable =>
    refine ⟨rfl, _, hat, halive, rfl, ?_⟩
    dsimp only
    omega

theorem Sound.look_on (h : l.Sound) (hc : l.set.cursors[i]? = some c) (halive : c.alive = true)
    (hfault : l.set.oplog.fault = none) (n : Nat) :
    ((fun m : Ledger => m.look i)^[n] l).Sound ∧
      ((fun m : Ledger => m.look i)^[n] l).set.oplog = l.set.oplog ∧
      ∃ c', ((fun m : Ledger => m.look i)^[n] l).set.cursors[i]? = some c' ∧ c'.alive = true ∧
        c'.threshold = c.threshold ∧ min n l.set.oplog.documents.length ≤ c'.position := by
  induction n with
  | zero => exact ⟨h, rfl, c, hc, halive, rfl, by omega⟩
  | succ n ih =>
    obtain ⟨hsound, hlog, x, hx, hlives, hthreshold, hplace⟩ := ih
    obtain ⟨hsame, c', hc', hstays, hkept, hfurther⟩ :=
      hsound.look_further hx hlives (by rw [hlog, hfault])
    rw [Function.iterate_succ_apply']
    refine ⟨hsound.look i, hsame.trans hlog, c', hc', hstays, hkept.trans hthreshold, ?_⟩
    rw [hlog] at hfurther
    omega

/-- With as many looks as there are documents, the cursor comes to the end of the log. -/
theorem Sound.returns_all (h : l.Sound) (hc : l.set.cursors[i]? = some c) (halive : c.alive = true)
    (hfault : l.set.oplog.fault = none) :
    ((fun m : Ledger => m.look i)^[l.set.oplog.documents.length] l).returnedBy i =
      l.set.oplog.documents.filter (Cursor.selects c.threshold) := by
  obtain ⟨hsound, hlog, c', hc', _, hthreshold, hplace⟩ :=
    h.look_on hc halive hfault l.set.oplog.documents.length
  rw [(hsound.stands i c' hc').given, hthreshold, hlog, List.take_of_length_le (by omega)]

theorem Sound.look_over (h : l.Sound) (hover : l.IsOver i) : (l.set.look i).1 = .ended := by
  rcases l.set.look_cases i with ⟨_, hlook⟩ | ⟨c, seen, o', c', hc, hsees, hlook⟩
  · rw [hlook]
  · rw [hlook]
    have hdead := (h.dies i c hc).mpr hover
    cases hsees with
    | ended => rfl
    | fault halive => cases hdead.symm.trans halive
    | nothing halive => cases hdead.symm.trans halive
    | document halive => cases hdead.symm.trans halive
    | unreadable halive => cases hdead.symm.trans halive

theorem Sound.silent (h : l.Sound) (hover : l.IsOver i) (hs : l.Step m) :
    m.returnedBy i = l.returnedBy i ∧ m.IsOver i := by
  cases hs with
  | append | inject | tail | schedule | moveTo => exact ⟨rfl, hover⟩
  | takeFault =>
    exact ⟨rfl, hover.imp_right fun ⟨n, hn⟩ => ⟨n, Injections.mem_give.mpr (.inl hn)⟩⟩
  | close => exact ⟨rfl, hover.imp_left (List.mem_append_left _)⟩
  | look j =>
    show (l.heard j (l.set.look j).1).returnedBy i = _ ∧ (l.heard j (l.set.look j).1).IsOver i
    by_cases hi : i = j
    · subst hi
      rw [h.look_over hover]
      exact ⟨rfl, hover⟩
    · rw [returnedBy_heard, if_neg (Ne.symm hi), List.append_nil]
      exact ⟨rfl, (l.isOver_heard _ hi).mpr hover⟩

theorem Sound.keeps_threshold (h : l.Sound) (hs : l.Step m) (hc : l.set.cursors[i]? = some c) :
    ∃ c', m.set.cursors[i]? = some c' ∧ c'.threshold = c.threshold := by
  cases hs with
  | append | inject | takeFault | schedule | moveTo => exact ⟨c, hc, rfl⟩
  | tail threshold await =>
    have hplace := (List.getElem?_eq_some_iff.mp hc).1
    exact ⟨c, (List.getElem?_append_left hplace).trans hc, rfl⟩
  | close _ hclose =>
    obtain ⟨j, _, rfl⟩ := close?_eq_ok hclose
    by_cases hj : j = i
    · exact ⟨c.close, by simp [hc, hj], rfl⟩
    · exact ⟨c, by simp [hc, hj], rfl⟩
  | look j =>
    rcases l.set.look_cases j with ⟨_, hlook⟩ | ⟨x, seen, o', x', hx, hsees, hlook⟩
    · exact ⟨c, by rw [Ledger.look, hlook]; exact hc, rfl⟩
    · rw [Ledger.look, hlook]
      have hplace := (List.getElem?_eq_some_iff.mp hc).1
      obtain ⟨_, hthreshold, _⟩ := hsees.passes (h.stands j x hx).within
      by_cases hj : j = i
      · subst hj
        obtain rfl : c = x := Option.some.inj (hc.symm.trans hx)
        exact ⟨x', List.getElem?_set_self hplace, hthreshold⟩
      · exact ⟨c, (List.getElem?_set_ne hj).trans hc, rfl⟩

theorem Sound.goes_on (h : l.Sound) (hc : l.set.cursors[i]? = some c) (hs : l.Leads m) :
    (∃ c', m.set.cursors[i]? = some c' ∧ c'.threshold = c.threshold) ∧
      (c.alive = false → m.returnedBy i = l.returnedBy i) := by
  have hkept : m.Sound ∧ (∃ c', m.set.cursors[i]? = some c' ∧ c'.threshold = c.threshold) ∧
      (l.IsOver i → m.returnedBy i = l.returnedBy i ∧ m.IsOver i) := by
    induction hs with
    | refl => exact ⟨h, ⟨c, hc, rfl⟩, fun hover => ⟨rfl, hover⟩⟩
    | tail _ hstep ih =>
      obtain ⟨hsound, ⟨x, hx, hthreshold⟩, hstays⟩ := ih
      obtain ⟨x', hx', hsame⟩ := hsound.keeps_threshold hstep hx
      refine ⟨hsound.step hstep, ⟨x', hx', hsame.trans hthreshold⟩, fun hover => ?_⟩
      obtain ⟨hreturned, hover'⟩ := hstays hover
      obtain ⟨hnext, hover''⟩ := hsound.silent hover' hstep
      exact ⟨hnext.trans hreturned, hover''⟩
  exact ⟨hkept.2.1, fun hdead => (hkept.2.2 ((h.dies i c hc).mp hdead)).1⟩

def given : Next → List Document
  | .document d => [d]
  | _ => []

theorem given_ofLook (seen : Look) : given (.ofLook seen) = seen.given := by
  cases seen <;> rfl

/-- From `l` to `m` a call for the next document of a cursor was made, with this outcome. -/
structure Calls (l : Ledger) (i : Nat) (outcome : Next × CursorSet) (m : Ledger) : Prop where
  leads : l.Leads m
  set : m.set = outcome.2
  returned : m.returned = l.returned ++ (given outcome.1).map fun d => (i, d)

theorem returned_heard (l : Ledger) (i : Nat) (seen : Look) :
    (l.heard i seen).returned = l.returned ++ seen.given.map fun d => (i, d) := by
  cases seen <;> simp [heard, Look.given]

theorem calls_moveTo_look (l : Ledger) (i moment : Nat) :
    ∃ m, l.Calls i (.ofLook ((l.set.moveTo moment).look i).1, ((l.set.moveTo moment).look i).2) m := by
  refine ⟨Ledger.look { l with set := l.set.moveTo moment } i, ?_, rfl, ?_⟩
  · exact .tail (.single (.moveTo moment)) (.look i)
  · rw [given_ofLook]
    exact returned_heard { l with set := l.set.moveTo moment } i _

theorem calls_await (l : Ledger) (i : Nat) (span : Span) : ∃ m, l.Calls i (l.set.await i span) m := by
  have hends (moment : Nat) : ∃ m, l.Calls i (.ended, l.set.moveTo moment) m :=
    ⟨{ l with set := l.set.moveTo moment }, .single (.moveTo moment), rfl, (List.append_nil _).symm⟩
  unfold CursorSet.await
  dsimp only
  split
  · split
    · exact l.calls_moveTo_look i _
    · exact hends _
  · exact l.calls_moveTo_look i _
  · exact hends _
  · exact ⟨l, .refl, rfl, (List.append_nil _).symm⟩

theorem Calls.after {n : Ledger} {next : Next} {s : CursorSet} {outcome : Next × CursorSet}
    (h : l.Calls i (next, s) m) (hnone : given next = []) (hs : m.Calls i outcome n) :
    l.Calls i outcome n := by
  refine ⟨h.leads.trans hs.leads, hs.set, ?_⟩
  rw [hs.returned, h.returned, hnone, List.map_nil, List.append_nil]

theorem calls_nextOf (l : Ledger) (i : Nat) : ∃ m, l.Calls i (l.set.nextOf i) m := by
  have hlooked : l.Calls i (.ofLook (l.set.look i).1, (l.set.look i).2) (l.look i) := by
    refine ⟨.single (.look i), rfl, ?_⟩
    rw [given_ofLook]
    exact l.returned_heard i _
  unfold CursorSet.nextOf
  split
  · next s' hlook =>
    rw [hlook] at hlooked
    have hnothing {next : Next} (hnone : given next = []) : l.Calls i (next, s') (l.look i) :=
      ⟨hlooked.leads, hlooked.set, hnone ▸ hlooked.returned⟩
    split
    · exact ⟨_, hnothing rfl⟩
    · next span _ =>
      split
      · obtain ⟨m, hm⟩ := (l.look i).calls_await i span
        have hset : (l.look i).set = s' := hlooked.set
        rw [hset] at hm
        exact ⟨m, hlooked.after rfl hm⟩
      · exact ⟨_, hnothing rfl⟩
  · next seen s' _ hlook =>
    rw [hlook] at hlooked
    exact ⟨_, hlooked⟩

theorem calls_next {number : Int} (l : Ledger)
    (hplace : Place.resolve? l.set.cursors.length number = .ok i) :
    ∃ m, l.Calls i (l.set.next number) m := by
  obtain ⟨m, hm⟩ := l.calls_nextOf i
  unfold CursorSet.next
  rw [hplace]
  refine ⟨{ m with set := m.set.moveTo m.set.now }, .tail hm.leads (.moveTo _), ?_, hm.returned⟩
  rw [hm.set]
  rfl

/-- Cursors do not get in each other's way. Whatever has been done, a cursor has returned the first so many of
the documents of the whole log that are not below its threshold. As long as it is alive, no fault lies in the
slot and all documents can be compared, it returns the next of them when it looks, and says that there is
nothing only when there is none. It dies by being closed or by raising a fault, and returns nothing after that.
No fault is given to two, and the one in the slot was given to nobody. A call for the next document is made of
such looks, with whatever happens in between. -/
theorem reads_as_if_alone (h : Reachable l) :
    (∀ (i : Nat) (c : Cursor), l.set.cursors[i]? = some c →
      (∃ k, l.returnedBy i = (l.set.oplog.documents.filter (Cursor.selects c.threshold)).take k) ∧
      (c.alive = true → l.set.oplog.fault = none →
        (∀ d ∈ l.set.oplog.documents, ∃ reached, Cursor.reaches c.threshold d = .ok reached) →
        (∀ d rest, l.set.oplog.documents.filter (Cursor.selects c.threshold) =
          l.returnedBy i ++ d :: rest → (l.set.look i).1 = .document d) ∧
        (l.set.oplog.documents.filter (Cursor.selects c.threshold) = l.returnedBy i →
          (l.set.look i).1 = .nothing)) ∧
      (c.alive = false ↔ l.IsOver i) ∧
      ∀ m, l.Leads m → (∃ c', m.set.cursors[i]? = some c' ∧ c'.threshold = c.threshold) ∧
        (c.alive = false → m.returnedBy i = l.returnedBy i)) ∧
    l.faults.numbers.Nodup ∧
    (∀ f, l.set.oplog.fault = some f →
      ∃ n, l.faults.slot = some n ∧ l.faults.injected[n]? = some f ∧ n ∉ l.faults.numbers) ∧
    ∀ number i, Place.resolve? l.set.cursors.length number = .ok i →
      ∃ m, l.Calls i (l.set.next number) m := by
  have hsound := reachable_sound h
  refine ⟨?_, (List.nodup_append.mp hsound.faults.once).1, ?_, fun _ _ => l.calls_next⟩
  · intro i c hc
    have hstands := hsound.stands i c hc
    refine ⟨⟨_, List.prefix_iff_eq_take.mp hstands.isPrefix⟩, ?_, hsound.dies i c hc,
      fun m => hsound.goes_on hc⟩
    intro halive hfault hread
    have hlook : (l.set.look i).1 = (c.look l.set.oplog).1 := by simp [CursorSet.look, hc]
    rw [hlook]
    exact hstands.gives halive hfault hread
  · intro f hf
    obtain ⟨n, hslot, hinjected⟩ := Option.bind_eq_some_iff.mp (hsound.faults.fault.symm.trans hf)
    refine ⟨n, hslot, hinjected, fun hn => ?_⟩
    have hapart := (List.nodup_append.mp hsound.faults.once).2.2 n hn n
    exact hapart (by simp [hslot]) rfl

def pair : Ledger where
  set := ((({} : CursorSet).append [
      [("ts", .timestamp (.ofWords 10 1))],
      [("ts", .timestamp (.ofWords 5 1))],
      [("ts", .timestamp (.ofWords 20 1))]]).tail
    (.timestamp (.ofWords 8 0)) (.number (.whole 1))).tail
    (.timestamp (.ofWords 0 0)) (.number (.whole 1))

theorem reachable_pair : Reachable pair :=
  .step (.step (.step .start (.append _)) (.tail _ _)) (.tail _ _)

def apart : Ledger :=
  let returned := pair.look 0
  let broken : Ledger := { returned with
    set := returned.set.inject ⟨.driver .general, "gone"⟩
    faults := returned.faults.inject ⟨.driver .general, "gone"⟩ }
  ((broken.look 0).look 1).look 1

theorem reachable_apart : Reachable apart :=
  .step (.step (.step (.step (.step reachable_pair (.look 0)) (.inject _)) (.look 0)) (.look 1)) (.look 1)

theorem apart_eq :
    (apart.set.cursors[0]?.map Cursor.alive = some false ∧ (apart.returnedBy 0).length = 1) ∧
    (apart.set.cursors[1]?.map Cursor.alive = some true ∧ (apart.returnedBy 1).length = 2) := by
  decide +kernel

theorem reads_as_if_alone_apart :
    (apart.IsOver 0 ∧ ∀ m, apart.Leads m → (m.returnedBy 0).length = 1) ∧
    (¬ apart.IsOver 1 ∧ (apart.returnedBy 1).length = 2 ∧ ∃ c k, apart.set.cursors[1]? = some c ∧
      apart.returnedBy 1 = (apart.set.oplog.documents.filter (Cursor.selects c.threshold)).take k) ∧
    apart.faults.numbers.Nodup := by
  have hreachable := reachable_apart
  obtain ⟨⟨hdead, hone⟩, ⟨halive, htwo⟩⟩ := apart_eq
  generalize apart = l at *
  obtain ⟨heach, hnumbers, _⟩ := reads_as_if_alone hreachable
  obtain ⟨c, hc, hcdead⟩ := Option.map_eq_some_iff.mp hdead
  obtain ⟨x, hx, hxalive⟩ := Option.map_eq_some_iff.mp halive
  obtain ⟨_, _, hover, hstays⟩ := heach 0 c hc
  obtain ⟨⟨k, hk⟩, _, hover', _⟩ := heach 1 x hx
  refine ⟨⟨hover.mp hcdead, fun m hm => ?_⟩, ⟨fun hend => ?_, htwo, x, k, hx, hk⟩, hnumbers⟩
  · rw [(hstays m hm).2 hcdead, hone]
  · cases (hover'.mpr hend).symm.trans hxalive

end Ledger

end CursorSet

end OplogRelay
