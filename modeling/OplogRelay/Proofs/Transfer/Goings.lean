import OplogRelay.Proofs.Transfer.Moves
/-!
What one step of a run can be to its transfer: the transfer moves, it is given up at its end, time passes,
or its surroundings change and may wake the forwarder. Where it is not the coordinator that moves, the
timer stays set, and a hand-off on which nothing is left becomes so by the end of the forwarder alone.
-/
namespace OplogRelay

namespace Transfer

inductive Goes (t : Transfer) : Transfer → Prop where
  | moves {u} : t.Moves u → Goes t u
  | ends (events : List Event) : t.isDone = true → Event.TellNoBatch events →
      Goes t (note { t with forwarder := t.forwarder.cancel } events)
  | passes {moment : Nat} : t.now ≤ moment → Goes t { t with now := moment }
  | meets {w : World} {f : Forwarder} {counts : List Nat} : w.now = t.now →
      w.journal = t.journal.note t.now (counts.map .appended) →
      (f = t.forwarder ∨ f = t.forwarder.wake) →
      t.Beside { t with toWorld := w, forwarder := f } →
      Goes t { t with toWorld := w, forwarder := f }

/-- What goes on while the coordinator stands still. -/
structure Aside (t u : Transfer) : Prop extends Beside t u where
  nextTick : u.nextTick = t.nextTick
  alarm : u.alarm = t.alarm
  interval : u.interval = t.interval
  now : t.now ≤ u.now
  ended : t.forwarder.ending ≠ none → u.forwarder.ending = t.forwarder.ending
  undrained : t.forwarder.ending ≠ none → u.drained = true → t.drained = true

variable {t u : Transfer} {threshold : Timestamp}

theorem aside_fill? (hstep : t.fill? = some u) : t.Aside u := by
  have hbeside := beside_fill? hstep
  obtain ⟨e, rest, _, _, rfl⟩ := fill?_eq hstep
  refine ⟨hbeside, rfl, rfl, rfl, Nat.le_refl _, fun _ => rfl, ?_⟩
  intro _ hdrained
  cases (drained_iff.mp hdrained).2.2

theorem Beside.aside_of_live (h : t.Beside u) (hlive : t.forwarder.ending = none)
    (hnext : u.nextTick = t.nextTick) (halarm : u.alarm = t.alarm) (hinterval : u.interval = t.interval)
    (hnow : u.now = t.now) : t.Aside u :=
  ⟨h, hnext, halarm, hinterval, Nat.le_of_eq hnow.symm, absurd hlive, absurd hlive⟩

theorem Invariant.aside_or_coordinate (h : t.Invariant threshold) (hmoves : t.Moves u) :
    t.Aside u ∨ t.coordinate? = some u := by
  cases hmoves with
  | fill hstep => exact .inl (aside_fill? hstep)
  | forward hstep =>
    have hbeside := h.beside_forward? hstep
    obtain ⟨oplog, forwarder, events, hlive, _, rfl⟩ := forward?_eq hstep
    exact .inl (hbeside.aside_of_live hlive rfl rfl rfl rfl)
  | hear hstep =>
    have hbeside := beside_hear? hstep
    obtain ⟨_, _, rfl⟩ := hear?_eq hstep
    exact .inl ⟨hbeside, rfl, rfl, rfl, Nat.le_refl _, fun _ => rfl, fun _ hdrained => hdrained⟩
  | coordinate hstep => exact .inr hstep
  | expire hstep =>
    have hbeside := beside_expire? hstep
    obtain ⟨forwarder, hlive, _, rfl⟩ := expire?_eq hstep
    exact .inl (hbeside.aside_of_live hlive rfl rfl rfl rfl)

theorem Goes.aside_or_coordinate (hgoes : t.Goes u) (h : t.Invariant threshold) :
    t.Aside u ∨ t.coordinate? = some u := by
  cases hgoes with
  | moves hmoves => exact h.aside_or_coordinate hmoves
  | ends events _ hevents =>
    have hbeside : t.Beside (note { t with forwarder := t.forwarder.cancel } events) :=
      (beside_cancel t).trans (beside_onWorld (World.similar_note hevents))
    refine .inl ⟨hbeside, rfl, rfl, rfl, Nat.le_refl _, fun hended => ?_, fun hended hdrained => ?_⟩
    · show t.forwarder.cancel.ending = _
      rw [cancel_of_ended hended]
    · change drained { t with forwarder := t.forwarder.cancel } = true at hdrained
      rw [cancel_of_ended hended] at hdrained
      exact hdrained
  | @passes moment hlater =>
    have hbeside : t.Beside { t with now := moment } :=
      beside_onWorld (f := fun w => { w with now := moment }) ⟨rfl, rfl, rfl, rfl, rfl, id⟩
    exact .inl ⟨hbeside, rfl, rfl, rfl, hlater, fun _ => rfl, fun _ hdrained => hdrained⟩
  | meets hnow _ hf hbeside =>
    refine .inl ⟨hbeside, rfl, rfl, rfl, Nat.le_of_eq hnow.symm, fun _ => ?_, fun _ hdrained => ?_⟩
    · rcases hf with rfl | rfl <;> rfl
    · rcases hf with rfl | rfl <;> exact hdrained

theorem Goes.lapsed (h : t.Goes u) (hinv : t.Invariant threshold) (hlive : u.forwarder.ending = none)
    (hphase : u.forwarder.tail.phase = .lapsed) :
    t.expire? = some u ∨ t.forwarder.tail.phase = .lapsed := by
  cases h with
  | moves hmoves =>
    cases hmoves with
    | fill hstep =>
      obtain ⟨e, rest, _, _, rfl⟩ := fill?_eq hstep
      exact .inr hphase
    | forward hstep =>
      obtain ⟨oplog, forwarder, events, _, hf, rfl⟩ := forward?_eq hstep
      exact absurd hphase (hinv.feed.not_lapsed_of_step? hf)
    | hear hstep =>
      obtain ⟨_, _, rfl⟩ := hear?_eq hstep
      exact .inr hphase
    | coordinate hstep =>
      rw [(hinv.coordinate?_advances hstep).forwarder] at hphase
      exact .inr hphase
    | expire hstep => exact .inl hstep
  | ends events _ _ =>
    have hsame : t.forwarder.cancel.tail.phase = .lapsed := hphase
    rw [t.forwarder.tail_cancel] at hsame
    exact .inr hsame
  | passes _ => exact .inr hphase
  | meets _ _ hf _ =>
    rcases hf with rfl | rfl
    · exact .inr hphase
    · exact .inr (Tail.lapsed_of_wake hphase)

theorem Beside.claim (h : t.Beside u) (hclaim : t.claim ≠ .none) : u.claim ≠ .none := by
  have hplaces := h.places
  intro hnone
  rw [hnone] at hplaces
  cases hc : t.claim with
  | none => exact hclaim hc
  | outstanding => simp [hc, Claim.places] at hplaces
  | filled e => simp [hc, Claim.places] at hplaces

end Transfer

end OplogRelay
