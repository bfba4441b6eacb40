/-!
Appointments in a binary heap: none is earlier than the one above it, so an earliest one is at the top. Of
appointments for one moment the one that the heap has further up comes first, which need not be the one that
was made first.
-/
namespace OplogRelay

/-- An appointment without a moment never falls due. One for a moment before the present does at
once. -/
structure Appointment (α : Type) where
  due : Option Int
  what : α
  live : Bool := true
  deriving Repr

namespace Appointment

variable {α : Type} {x y z : Option Int} {a b : Appointment α}

def isEarlier (a b : Appointment α) : Bool :=
  match a.due, b.due with
  | some x, some y => decide (x < y)
  | some _, none => true
  | none, _ => false

def isDue (now : Nat) (a : Appointment α) : Bool :=
  a.due.any fun due => decide (due ≤ (now : Int))

def NotAfter : Option Int → Option Int → Prop
  | some x, some y => x ≤ y
  | none, some _ => False
  | _, none => True

theorem notAfter_none (x : Option Int) : NotAfter x none := by
  cases x <;> trivial

theorem NotAfter.refl (x : Option Int) : NotAfter x x := by
  cases x with
  | none => trivial
  | some x => exact Int.le_refl x

theorem NotAfter.trans (h : NotAfter x y) (h' : NotAfter y z) : NotAfter x z := by
  cases z with
  | none => exact notAfter_none x
  | some z =>
    cases y with
    | none => cases h'
    | some y =>
      cases x with
      | none => cases h
      | some x => exact Int.le_trans h h'

theorem notAfter_of_isEarlier (h : a.isEarlier b = true) : NotAfter a.due b.due := by
  unfold isEarlier at h
  split at h
  · next hx hy =>
    rw [hx, hy]
    exact Int.le_of_lt (of_decide_eq_true h)
  · next hx hy =>
    rw [hy]
    exact notAfter_none _
  · cases h

theorem notAfter_of_not_isEarlier (h : a.isEarlier b = false) : NotAfter b.due a.due := by
  unfold isEarlier at h
  split at h
  · next hx hy =>
    rw [hx, hy]
    exact Int.not_lt.mp (of_decide_eq_false h)
  · cases h
  · next hx =>
    rw [hx]
    exact notAfter_none _

end Appointment

namespace Heap

open Appointment

variable {α : Type}

def above (place : Nat) : Nat := (place - 1) / 2

theorem above_lt {place : Nat} (h : 0 < place) : above place < place := by
  unfold above
  omega

/-- An item rises past the later ones above it, no further than the floor. -/
def rise (floor : Nat) (items : Array (Appointment α)) (place : Nat) : Array (Appointment α) :=
  if floor < place then
    match items[place]?, items[above place]? with
    | some a, some b =>
      if a.isEarlier b then rise floor (items.swapIfInBounds place (above place)) (above place)
      else items
    | _, _ => items
  else items
termination_by place
decreasing_by
  unfold above
  omega

/-- The earlier one of the two places below a place; the second one if none is earlier. -/
def earlierBelow (items : Array (Appointment α)) (place : Nat) : Nat :=
  match items[2 * place + 1]?, items[2 * place + 2]? with
  | some a, some b => if a.isEarlier b then 2 * place + 1 else 2 * place + 2
  | _, _ => 2 * place + 1

theorem earlierBelow_cases (items : Array (Appointment α)) (place : Nat) :
    earlierBelow items place = 2 * place + 1 ∨ earlierBelow items place = 2 * place + 2 := by
  unfold earlierBelow
  split
  · split
    · exact .inl rfl
    · exact .inr rfl
  · exact .inl rfl

theorem lt_earlierBelow (items : Array (Appointment α)) (place : Nat) :
    place < earlierBelow items place := by
  have := earlierBelow_cases items place
  omega

/-- An item sinks to the bottom, and the earlier one below takes its place each time. -/
def sink (items : Array (Appointment α)) (place : Nat) : Array (Appointment α) × Nat :=
  if 2 * place + 1 < items.size then
    let below := earlierBelow items place
    sink (items.swapIfInBounds place below) below
  else (items, place)
termination_by items.size - place
decreasing_by
  have := lt_earlierBelow items place
  simp only [Array.size_swapIfInBounds]
  omega

def settle (items : Array (Appointment α)) (place : Nat) : Array (Appointment α) :=
  let (sunk, bottom) := sink items place
  rise place sunk bottom

/-- Puts the items at all places below a bound right, the last place first. -/
def settleBelow (items : Array (Appointment α)) : Nat → Array (Appointment α)
  | 0 => items
  | place + 1 => settleBelow (settle items place) place

def removeTop (items : Array (Appointment α)) : Array (Appointment α) :=
  match items.back? with
  | none => items
  | some last =>
    let rest := items.pop
    if rest.isEmpty then rest else settle (rest.setIfInBounds 0 last) 0

def dueAt (items : Array (Appointment α)) (place : Nat) : Option Int :=
  items[place]?.bind Appointment.due

/-- From a floor on, no item is earlier than the one above it. -/
def Ordered (floor : Nat) (items : Array (Appointment α)) : Prop :=
  ∀ place, 0 < place → floor ≤ above place →
    NotAfter (dueAt items (above place)) (dueAt items place)

inductive Below (floor : Nat) : Nat → Prop where
  | same : Below floor floor
  | next {place : Nat} : 0 < place → Below floor (above place) → Below floor place

/-- All is in order but for the item at one place, which may be earlier than those above it. -/
structure Rising (floor place : Nat) (items : Array (Appointment α)) : Prop where
  below : Below floor place
  others : ∀ i, 0 < i → floor ≤ above i → i ≠ place →
    NotAfter (dueAt items (above i)) (dueAt items i)
  across : ∀ i, 0 < i → above i = place → 0 < place → floor ≤ above place →
    NotAfter (dueAt items (above place)) (dueAt items i)

/-- All is in order but for the item at one place, which may be earlier than those above it or later than
those below it. -/
structure Sinking (floor place : Nat) (items : Array (Appointment α)) : Prop where
  below : Below floor place
  others : ∀ i, 0 < i → floor ≤ above i → i ≠ place → above i ≠ place →
    NotAfter (dueAt items (above i)) (dueAt items i)
  across : ∀ i, 0 < i → above i = place → 0 < place → floor ≤ above place →
    NotAfter (dueAt items (above place)) (dueAt items i)

variable {items : Array (Appointment α)} {floor place i : Nat}

theorem Below.le (h : Below floor place) : floor ≤ place := by
  induction h with
  | same => exact Nat.le_refl floor
  | next hpos _ ih => exact Nat.le_of_lt (Nat.lt_of_le_of_lt ih (above_lt hpos))

theorem Below.above (h : Below floor place) (hlt : floor < place) : Below floor (above place) := by
  cases h with
  | same => exact absurd hlt (Nat.lt_irrefl floor)
  | next _ habove => exact habove

theorem below_zero (place : Nat) : Below 0 place := by
  induction place using Nat.strongRecOn with
  | ind place ih =>
    rcases Nat.eq_zero_or_pos place with rfl | hpos
    · exact .same
    · exact .next hpos (ih _ (above_lt hpos))

theorem above_cases (h : 0 < i) (habove : above i = place) : i = 2 * place + 1 ∨ i = 2 * place + 2 := by
  unfold above at habove
  omega

theorem dueAt_of_some {a : Appointment α} (h : items[place]? = some a) : dueAt items place = a.due := by
  rw [dueAt, h]
  rfl

theorem dueAt_of_le (h : items.size ≤ place) : dueAt items place = none := by
  rw [dueAt, Array.getElem?_eq_none h]
  rfl

theorem dueAt_swap {j : Nat} (hi : i < items.size) (hj : j < items.size) (k : Nat) :
    dueAt (items.swapIfInBounds i j) k =
      if k = i then dueAt items j else if k = j then dueAt items i else dueAt items k := by
  unfold dueAt
  rw [Array.swapIfInBounds_def, dif_pos hi, dif_pos hj, Array.getElem?_swap]
  by_cases hk : j = k
  · subst hk
    by_cases hsame : j = i
    · simp [hsame, Array.getElem?_eq_getElem hi]
    · simp [hsame, Array.getElem?_eq_getElem hi]
  · by_cases hki : i = k
    · subst hki
      simp [hk, Array.getElem?_eq_getElem hj]
    · simp [hk, hki, Ne.symm hk, Ne.symm hki]

theorem Rising.ordered (h : Rising floor place items)
    (hplace : 0 < place → floor ≤ above place → NotAfter (dueAt items (above place)) (dueAt items place)) :
    Ordered floor items := by
  intro i hpos hfloor
  by_cases hi : i = place
  · subst hi
    exact hplace hpos hfloor
  · exact h.others i hpos hfloor hi

/-- An item that rises by one place leaves all in order behind it. -/
theorem Rising.swap (h : Rising floor place items) (hlt : floor < place) (hsize : place < items.size)
    (hearlier : NotAfter (dueAt items place) (dueAt items (above place))) :
    Rising floor (above place) (items.swapIfInBounds place (above place)) := by
  have hpos : 0 < place := Nat.zero_lt_of_lt hlt
  have habove : above place < place := above_lt hpos
  have hfloor := (h.below.above hlt).le
  have hdue := dueAt_swap hsize (Nat.lt_trans habove hsize)
  refine ⟨h.below.above hlt, ?_, ?_⟩
  · intro i hi hfloor' hne
    have hi' := above_lt hi
    rw [hdue, hdue]
    by_cases hplace : i = place
    · subst hplace
      rw [if_neg (Nat.ne_of_lt hi'), if_pos rfl, if_pos rfl]
      exact hearlier
    · by_cases hsibling : above i = above place
      · rw [hsibling, if_neg (Nat.ne_of_lt habove), if_pos rfl, if_neg hplace, if_neg hne]
        exact hearlier.trans (hsibling ▸ h.others i hi hfloor' hplace)
      · by_cases hchild : above i = place
        · rw [if_pos hchild, if_neg hplace, if_neg hne]
          exact h.across i hi hchild hpos hfloor
        · rw [if_neg hchild, if_neg hsibling, if_neg hplace, if_neg hne]
          exact h.others i hi hfloor' hplace
  · intro i hi hsibling hpos' hfloor'
    have hup := above_lt hpos'
    rw [hdue, hdue, if_neg (Nat.ne_of_lt (Nat.lt_trans hup habove)), if_neg (Nat.ne_of_lt hup)]
    have hgrand := h.others (above place) hpos' hfloor' (Nat.ne_of_lt habove)
    by_cases hplace : i = place
    · rw [if_pos hplace]
      exact hgrand
    · have hne : i ≠ above place := by
        have := above_lt hi
        omega
      rw [if_neg hplace, if_neg hne]
      exact hgrand.trans (hsibling ▸ h.others i hi (hsibling ▸ hfloor) hplace)

theorem ordered_rise (h : Rising floor place items) : Ordered floor (rise floor items place) := by
  induction items, place using rise.induct floor with
  | case1 items place hlt a b hb ha hearlier ih =>
    rw [rise, if_pos hlt, ha, hb]
    dsimp only
    rw [if_pos hearlier]
    obtain ⟨hsize, _⟩ := Array.getElem?_eq_some_iff.mp ha
    refine ih (h.swap hlt hsize ?_)
    rw [dueAt_of_some ha, dueAt_of_some hb]
    exact notAfter_of_isEarlier hearlier
  | case2 items place hlt a b hb ha hlater =>
    rw [rise, if_pos hlt, ha, hb]
    dsimp only
    rw [if_neg hlater]
    refine h.ordered fun _ _ => ?_
    rw [dueAt_of_some ha, dueAt_of_some hb]
    exact notAfter_of_not_isEarlier (Bool.eq_false_iff.mpr hlater)
  | case3 items place hlt hnone =>
    rw [rise, if_pos hlt]
    split
    · next a b ha hb => exact absurd hb (hnone a b ha)
    · refine h.ordered fun hpos _ => ?_
      have hsize : items.size ≤ place := by
        by_cases hplace : place < items.size
        · have habove := Nat.lt_trans (above_lt hpos) hplace
          exact absurd (Array.getElem?_eq_getElem habove)
            (hnone _ _ (Array.getElem?_eq_getElem hplace))
        · exact Nat.le_of_not_lt hplace
      rw [dueAt_of_le hsize]
      exact notAfter_none _
  | case4 items place hnot =>
    rw [rise, if_neg hnot]
    refine h.ordered fun hpos hfloor => ?_
    have := above_lt hpos
    omega

theorem earlierBelow_notAfter (hi : 0 < i) (habove : above i = place)
    (hsize : 2 * place + 1 < items.size) :
    NotAfter (dueAt items (earlierBelow items place)) (dueAt items i) := by
  have hplace := above_cases hi habove
  unfold earlierBelow
  split
  · next a b ha hb =>
    split
    · next hearlier =>
      rcases hplace with rfl | rfl
      · exact .refl _
      · rw [dueAt_of_some ha, dueAt_of_some hb]
        exact notAfter_of_isEarlier hearlier
    · next hlater =>
      rcases hplace with rfl | rfl
      · rw [dueAt_of_some ha, dueAt_of_some hb]
        exact notAfter_of_not_isEarlier (Bool.eq_false_iff.mpr hlater)
      · exact .refl _
  · next hnone =>
    rcases hplace with rfl | rfl
    · exact .refl _
    · have hlast : items.size ≤ 2 * place + 2 := by
        by_cases hsecond : 2 * place + 2 < items.size
        · exact absurd (Array.getElem?_eq_getElem hsecond)
            (hnone _ _ (Array.getElem?_eq_getElem hsize))
        · exact Nat.le_of_not_lt hsecond
      rw [dueAt_of_le hlast]
      exact notAfter_none _

/-- An item that sinks by one place leaves all in order behind it. -/
theorem Sinking.swap (h : Sinking floor place items) (hsize : 2 * place + 1 < items.size) :
    Sinking floor (earlierBelow items place)
      (items.swapIfInBounds place (earlierBelow items place)) := by
  have hfirst (i : Nat) (hi : 0 < i) (habove : above i = place) :=
    earlierBelow_notAfter hi habove hsize
  have hbelow := earlierBelow_cases items place
  have hinside : earlierBelow items place < items.size := by
    unfold earlierBelow
    split
    · next a b ha hb =>
      have := (Array.getElem?_eq_some_iff.mp hb).1
      split <;> omega
    · omega
  have habove : above (earlierBelow items place) = place := by
    unfold above
    omega
  have hpos : 0 < earlierBelow items place := by omega
  have hlt := habove ▸ above_lt hpos
  generalize earlierBelow items place = below at *
  have hdue := dueAt_swap (Nat.lt_trans hlt hinside) hinside
  refine ⟨.next hpos (habove.symm ▸ h.below), ?_, ?_⟩
  · intro i hi hfloor hne hne'
    have hi' := above_lt hi
    rw [hdue, hdue]
    by_cases hplace : i = place
    · subst hplace
      rw [if_neg (Nat.ne_of_lt hi'), if_neg hne', if_pos rfl]
      exact h.across below hpos habove hi hfloor
    · by_cases hsibling : above i = place
      · rw [if_pos hsibling, if_neg hplace, if_neg hne]
        exact hfirst i hi hsibling
      · rw [if_neg hsibling, if_neg hne', if_neg hplace, if_neg hne]
        exact h.others i hi hfloor hplace hsibling
  · intro i hi hchild _ hfloor
    have hi' := above_lt hi
    rw [hchild] at hi'
    have hne : i ≠ place := by omega
    rw [habove, hdue, hdue, if_pos rfl, if_neg hne, if_neg (Nat.ne_of_gt hi')]
    have hgrand := h.others i hi (hchild.symm ▸ Nat.le_trans h.below.le (Nat.le_of_lt hlt)) hne
      (hchild.symm ▸ Nat.ne_of_gt hlt)
    exact hchild ▸ hgrand

theorem rising_sink (h : Sinking floor place items) :
    Rising floor (sink items place).2 (sink items place).1 := by
  induction items, place using sink.induct with
  | case1 items place hsize below ih =>
    rw [sink, if_pos hsize]
    exact ih (h.swap hsize)
  | case2 items place hsize =>
    rw [sink, if_neg hsize]
    refine ⟨h.below, fun i hi hfloor hne => ?_, h.across⟩
    by_cases hchild : above i = place
    · have hcases := above_cases hi hchild
      have hlast : items.size ≤ i := by omega
      rw [dueAt_of_le hlast]
      exact notAfter_none _
    · exact h.others i hi hfloor hne hchild

theorem ordered_settle (h : Ordered (floor + 1) items) : Ordered floor (settle items floor) := by
  refine ordered_rise (rising_sink ⟨.same, fun i hi hfloor _ hne => ?_, fun i _ _ hpos hfloor => ?_⟩)
  · exact h i hi (Nat.lt_of_le_of_ne hfloor (Ne.symm hne))
  · exact absurd (above_lt hpos) (Nat.not_lt.mpr hfloor)

theorem ordered_settleBelow (h : Ordered floor items) : Ordered 0 (settleBelow items floor) := by
  induction floor generalizing items with
  | zero => exact h
  | succ floor ih => exact ih (ordered_settle h)

theorem ordered_half (items : Array (Appointment α)) : Ordered (items.size / 2) items := by
  intro i hi hfloor
  have hlast : items.size ≤ i := by
    unfold above at hfloor
    omega
  rw [dueAt_of_le hlast]
  exact notAfter_none _

theorem ordered_add (h : Ordered 0 items) (a : Appointment α) :
    Ordered 0 (rise 0 (items.push a) items.size) := by
  have hsame {i : Nat} (hi : i ≠ items.size) : dueAt (items.push a) i = dueAt items i := by
    rw [dueAt, Array.getElem?_push, if_neg hi, dueAt]
  have hlast {i : Nat} (hi : items.size < i) : dueAt items i = none := dueAt_of_le (Nat.le_of_lt hi)
  refine ordered_rise ⟨below_zero _, fun i hi _ hne => ?_, fun i hi hchild _ _ => ?_⟩
  · rw [hsame hne]
    by_cases hchild : above i = items.size
    · rw [hlast (hchild ▸ above_lt hi)]
      exact notAfter_none _
    · rw [hsame hchild]
      exact h i hi (Nat.zero_le _)
  · have hi' : items.size < i := hchild ▸ above_lt hi
    rw [hsame (Nat.ne_of_gt hi'), hlast hi']
    exact notAfter_none _

theorem ordered_removeTop (h : Ordered 0 items) : Ordered 0 (removeTop items) := by
  unfold removeTop
  split
  · exact h
  · next last _ =>
    have hpop {i : Nat} (hi : i < items.size - 1) : dueAt items.pop i = dueAt items i := by
      rw [dueAt, Array.getElem?_pop, if_pos hi, dueAt]
    dsimp only
    split
    · next hempty =>
      intro i hi _
      have hnone : dueAt items.pop i = none := by
        rw [Array.isEmpty_iff.mp hempty]
        rfl
      rw [hnone]
      exact notAfter_none _
    · refine ordered_settle fun i hi hfloor => ?_
      have hi' := above_lt hi
      have hset {j : Nat} (hj : 0 < j) : dueAt (items.pop.setIfInBounds 0 last) j = dueAt items.pop j := by
        rw [dueAt, Array.getElem?_setIfInBounds, if_neg (Nat.ne_of_lt hj), dueAt]
      rw [hset hi, hset hfloor]
      by_cases hinside : i < items.size - 1
      · rw [hpop hinside, hpop (Nat.lt_trans hi' hinside)]
        exact h i hi (Nat.zero_le _)
      · have hlast : items.pop.size ≤ i := by
          rw [Array.size_pop]
          exact Nat.le_of_not_lt hinside
        rw [dueAt_of_le hlast]
        exact notAfter_none _

theorem ordered_map {f : Appointment α → Appointment α} (hf : ∀ a, (f a).due = a.due)
    (h : Ordered 0 items) : Ordered 0 (items.map f) := by
  have hsame (i : Nat) : dueAt (items.map f) i = dueAt items i := by
    rw [dueAt, Array.getElem?_map, dueAt]
    cases items[i]? with
    | none => rfl
    | some a => exact hf a
  intro i hi hfloor
  rw [hsame, hsame]
  exact h i hi hfloor

theorem top_notAfter (h : Ordered 0 items) (i : Nat) : NotAfter (dueAt items 0) (dueAt items i) := by
  induction i using Nat.strongRecOn with
  | ind i ih =>
    rcases Nat.eq_zero_or_pos i with rfl | hpos
    · exact .refl _
    · exact (ih _ (above_lt hpos)).trans (h i hpos (Nat.zero_le _))

end Heap

end OplogRelay
