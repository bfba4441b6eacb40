import OplogRelay.Agenda
/-!
What is pending on an agenda, whatever the heap makes of it. An appointment that is made is pending until it is
called off or taken, and what is taken are the pending appointments that are due, in the order of their moments.
-/
namespace OplogRelay

namespace Heap

variable {α : Type} {items : Array (Appointment α)} {top : Appointment α}

theorem perm_swap (items : Array (Appointment α)) (i j : Nat) :
    (items.swapIfInBounds i j).toList.Perm items.toList := by
  rw [Array.swapIfInBounds_def]
  split
  · split
    · next hi hj => exact Array.perm_iff_toList_perm.mp (Array.swap_perm hi hj)
    · exact .refl _
  · exact .refl _

theorem perm_rise (floor : Nat) (items : Array (Appointment α)) (place : Nat) :
    (rise floor items place).toList.Perm items.toList := by
  induction items, place using rise.induct floor with
  | case1 items place hlt a b hb ha hearlier ih =>
    rw [rise, if_pos hlt, ha, hb]
    dsimp only
    rw [if_pos hearlier]
    exact ih.trans (perm_swap _ _ _)
  | case2 items place hlt a b hb ha hlater =>
    rw [rise, if_pos hlt, ha, hb]
    dsimp only
    rw [if_neg hlater]
  | case3 items place hlt hnone =>
    rw [rise, if_pos hlt]
    split
    · next a b ha hb => exact absurd hb (hnone a b ha)
    · exact .refl _
  | case4 items place hnot => rw [rise, if_neg hnot]

theorem perm_sink (items : Array (Appointment α)) (place : Nat) :
    (sink items place).1.toList.Perm items.toList := by
  induction items, place using sink.induct with
  | case1 items place hsize below ih =>
    rw [sink, if_pos hsize]
    exact ih.trans (perm_swap _ _ _)
  | case2 items place hsize => rw [sink, if_neg hsize]

theorem perm_settle (items : Array (Appointment α)) (place : Nat) :
    (settle items place).toList.Perm items.toList :=
  (perm_rise _ _ _).trans (perm_sink items place)

theorem perm_settleBelow (place : Nat) (items : Array (Appointment α)) :
    (settleBelow items place).toList.Perm items.toList := by
  induction place generalizing items with
  | zero => exact .refl _
  | succ place ih => exact (ih _).trans (perm_settle items place)

theorem perm_removeTop (htop : items[0]? = some top) :
    items.toList.Perm (top :: (removeTop items).toList) := by
  obtain ⟨list⟩ := items
  obtain rfl | ⟨front, last, rfl⟩ := List.eq_nil_or_concat list
  · cases htop
  · rw [List.concat_eq_append] at *
    have hback : (front ++ [last]).toArray.back? = some last := by simp
    have hpop : (front ++ [last]).toArray.pop = front.toArray := by simp
    unfold removeTop
    rw [hback]
    dsimp only
    rw [hpop]
    cases front with
    | nil =>
      cases htop
      exact .refl _
    | cons first middle =>
      cases htop
      have hset : (first :: middle).toArray.setIfInBounds 0 last = (last :: middle).toArray := by simp
      rw [if_neg (by simp), hset]
      refine .trans ?_ ((perm_settle _ 0).symm.cons first)
      exact (List.perm_append_singleton last middle).cons first

end Heap

namespace Agenda

open Appointment

variable {α : Type} {a : Agenda α} {item : Appointment α}

/-- The appointments that are not called off. -/
def pending (a : Agenda α) : List (Appointment α) := a.items.toList.filter Appointment.live

theorem pending_of_size (h : a.items.size ≤ 0) : a.pending = [] := by
  have hempty : a.items = #[] := Array.eq_empty_of_size_eq_zero (Nat.le_zero.mp h)
  rw [pending, hempty]
  rfl

theorem perm_rest (htop : a.top? = some item) : a.items.toList.Perm (item :: a.rest.items.toList) :=
  Heap.perm_removeTop htop

theorem perm_add (due : Option Int) (what : α) (a : Agenda α) :
    (a.add due what).pending.Perm ({ due := due, what := what } :: a.pending) := by
  have hall : (a.add due what).items.toList.Perm ({ due := due, what := what } :: a.items.toList) := by
    refine (Heap.perm_rise 0 _ _).trans ?_
    rw [Array.toList_push]
    exact List.perm_append_singleton _ _
  exact hall.filter _

theorem pending_callOff (p : α → Bool) (a : Agenda α) :
    (a.callOff p).pending = a.pending.filter fun item => !p item.what := by
  unfold pending callOff
  rw [Array.toList_map]
  induction a.items.toList with
  | nil => rfl
  | cons item items ih =>
    obtain ⟨due, what, live⟩ := item
    cases live <;> cases hp : p what <;> simp [strike, hp, ih]

theorem perm_clearTop (fuel : Nat) (a : Agenda α) : (a.clearTop fuel).pending.Perm a.pending := by
  induction fuel generalizing a with
  | zero => exact .refl _
  | succ fuel ih =>
    unfold clearTop
    split
    · next item htop =>
      split
      · exact .refl _
      · next hcalled =>
        refine (ih _).trans ?_
        have hall := (perm_rest htop).filter Appointment.live
        rw [List.filter_cons_of_neg hcalled] at hall
        exact hall.symm
    · exact .refl _

/-- Tidying up changes nothing that is pending. -/
theorem perm_tidy (a : Agenda α) : a.tidy.pending.Perm a.pending := by
  unfold tidy
  split
  · refine ((Heap.perm_settleBelow _ (a.items.filter Appointment.live)).filter _).trans ?_
    rw [Array.toList_filter, List.filter_filter]
    simp only [Bool.and_self]
    exact .refl _
  · exact perm_clearTop _ _

theorem size_rest (htop : a.top? = some item) : a.rest.items.size + 1 = a.items.size := by
  have hlength := (perm_rest htop).length_eq
  simpa using hlength.symm

theorem notAfter_of_mem (htop : a.top? = some item) {other : Appointment α}
    (hother : other ∈ a.items.toList) : NotAfter item.due other.due := by
  obtain ⟨i, hi, rfl⟩ := List.mem_iff_getElem.mp hother
  have hat : a.items[i]? = some a.items.toList[i] := by simp at *
  rw [← Heap.dueAt_of_some htop, ← Heap.dueAt_of_some hat]
  exact Heap.top_notAfter a.ordered i

theorem live_of_clearTop {fuel : Nat} {a : Agenda α} (hfuel : a.items.size ≤ fuel)
    (htop : (a.clearTop fuel).top? = some item) : item.live = true := by
  induction fuel generalizing a with
  | zero =>
    have hnone : a.top? = none := Array.getElem?_eq_none hfuel
    cases hnone.symm.trans htop
  | succ fuel ih =>
    unfold clearTop at htop
    split at htop
    · next first hfirst =>
      split at htop
      · next hlive =>
        cases hfirst.symm.trans htop
        exact hlive
      · have hsize := size_rest hfirst
        exact ih (a := { a.rest with calledOff := a.calledOff - 1 }) (by dsimp only; omega) htop
    · next hnone => cases hnone.symm.trans htop

theorem live_of_tidy (htop : a.tidy.top? = some item) : item.live = true := by
  unfold tidy at htop
  split at htop
  · obtain ⟨hsize, rfl⟩ := Array.getElem?_eq_some_iff.mp htop
    have hmem := (Heap.perm_settleBelow _ (a.items.filter Appointment.live)).subset
      (Array.getElem_mem_toList hsize)
    rw [Array.toList_filter] at hmem
    exact (List.mem_filter.mp hmem).2
  · exact live_of_clearTop (Nat.le_refl _) htop

/-- The next moment is the earliest one that is pending. -/
theorem next?_tidy (a : Agenda α) : (a.pending = [] ∧ a.tidy.next? = none) ∨
    ∃ first ∈ a.pending, a.tidy.next? = first.due ∧ ∀ item ∈ a.pending, NotAfter first.due item.due := by
  cases htop : a.tidy.top? with
  | none =>
    have hpending := pending_of_size (Array.getElem?_eq_none_iff.mp htop)
    have hnone : a.pending = [] := List.Perm.eq_nil (hpending ▸ perm_tidy a).symm
    exact .inl ⟨hnone, by simp [next?, htop]⟩
  | some first =>
    obtain ⟨hsize, hat⟩ := Array.getElem?_eq_some_iff.mp htop
    have hmem : first ∈ a.tidy.pending :=
      List.mem_filter.mpr ⟨hat ▸ Array.getElem_mem_toList hsize, live_of_tidy htop⟩
    refine .inr ⟨first, (perm_tidy a).subset hmem, by simp [next?, htop], fun item hitem => ?_⟩
    have hitem' := (perm_tidy a).symm.subset hitem
    exact notAfter_of_mem htop (List.mem_filter.mp hitem').1

theorem not_isDue_of_notAfter {now : Nat} {first other : Appointment α}
    (h : NotAfter first.due other.due) (hfirst : ¬ first.isDue now = true) : ¬ other.isDue now = true := by
  unfold Appointment.isDue at *
  cases hother : other.due with
  | none => simp
  | some y =>
    cases hdue : first.due with
    | none =>
      rw [hdue, hother] at h
      cases h
    | some x =>
      rw [hdue, hother] at h
      rw [hdue] at hfirst
      have hle : x ≤ y := h
      simp only [Option.any_some, decide_eq_true_eq] at *
      omega

/-- What is taken are the pending appointments that are due, in the order of their moments, and no others. -/
structure Takes (now : Nat) (a : Agenda α) (taken : List (Appointment α)) (rest : Agenda α) : Prop where
  pending : a.pending.Perm (taken ++ rest.pending)
  due : ∀ item ∈ taken, item.isDue now = true
  left : ∀ item ∈ rest.pending, ¬ item.isDue now = true
  order : taken.Pairwise fun x y => NotAfter x.due y.due

theorem Takes.of_tidy {now : Nat} {taken : List (Appointment α)} {rest : Agenda α}
    (h : Takes now a.tidy taken rest) : Takes now a taken rest :=
  { h with pending := (perm_tidy a).symm.trans h.pending }

theorem takeDue_takes (now : Nat) {fuel : Nat} {a : Agenda α} (hfuel : a.items.size ≤ fuel) :
    ∃ taken, (a.takeDue now fuel).1 = taken.map Appointment.what ∧
      Takes now a taken (a.takeDue now fuel).2 := by
  induction fuel generalizing a with
  | zero =>
    refine ⟨[], rfl, .refl _, by simp, ?_, .nil⟩
    show ∀ item ∈ a.pending, _
    simp [pending_of_size hfuel]
  | succ fuel ih =>
    unfold takeDue
    split
    · next first htop =>
      have hearliest {other : Appointment α} (hother : other ∈ a.pending) :
          NotAfter first.due other.due := notAfter_of_mem htop (List.mem_filter.mp hother).1
      split
      · next hdue =>
        have hsize := size_rest htop
        obtain ⟨taken, hwhat, htakes⟩ := ih (a := a.rest) (by omega)
        have hall := (perm_rest htop).filter Appointment.live
        dsimp only
        rw [hwhat]
        cases hlive : first.live with
        | false =>
          rw [List.filter_cons_of_neg (by simp [hlive])] at hall
          exact ⟨taken, rfl, hall.trans htakes.pending, htakes.due, htakes.left, htakes.order⟩
        | true =>
          rw [List.filter_cons_of_pos hlive] at hall
          have hpending := hall.trans (htakes.pending.cons first)
          refine ⟨first :: taken, rfl, hpending, ?_, htakes.left, ?_⟩
          · exact List.forall_mem_cons.mpr ⟨hdue, htakes.due⟩
          · refine List.pairwise_cons.mpr ⟨fun other hother => hearliest ?_, htakes.order⟩
            exact hpending.symm.subset (by simp [hother])
      · next hlater =>
        refine ⟨[], rfl, .refl _, by simp, fun other hother => ?_, .nil⟩
        exact not_isDue_of_notAfter (hearliest hother) hlater
    · next hnone =>
      refine ⟨[], rfl, .refl _, by simp, ?_, .nil⟩
      show ∀ item ∈ a.pending, _
      simp [pending_of_size (Array.getElem?_eq_none_iff.mp hnone)]

end Agenda

end OplogRelay
