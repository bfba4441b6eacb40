import OplogRelay.Proofs.Transfer.Batching
/-!
What is left for a coordinator that was asked to stop. Once it has heard of it, it opens at most one round
with an entry or a batch: a batch under way can have been sent before the request was seen, and then there
is one more round, in which it is seen. A coordinator that waits and has not heard of it yet may open one
more before. One number keeps count, and every step lowers it for what it does.
-/
namespace OplogRelay

namespace Transfer

def Flush.openings (f : Flush) : Nat := if f.isLast then 0 else 1

/-- How many rounds are left in which an entry can be received or a batch sent, if the end of the
transfer is asked for. -/
def openings (t : Transfer) : Nat :=
  match t.phase with
  | .waiting _ => if t.heard then 1 else 2
  | .applying f _ _ | .answered f _ => f.openings
  | .done _ => 0

/-- What steps after a request come to: a batch or an entry costs a round. -/
structure Winds (t u : Transfer) : Prop where
  received : u.received + u.openings ≤ t.received + t.openings
  sends : (u.flushes = t.flushes ∧ u.openings ≤ t.openings) ∨
    ∃ b, u.flushes = t.flushes ++ [b] ∧ u.openings < t.openings

variable {t u : Transfer} {f : Flush} {threshold : Timestamp}

theorem Flush.openings_le (f : Flush) : f.openings ≤ 1 := by
  unfold Flush.openings
  split
  · exact Nat.zero_le 1
  · exact Nat.le_refl 1

theorem openings_le (t : Transfer) : t.openings ≤ 2 := by
  unfold openings
  split
  · split <;> decide
  · exact (Flush.openings_le _).trans (by decide)
  · exact (Flush.openings_le _).trans (by decide)
  · decide

theorem openings_le_of_heard (h : t.heard = true) : t.openings ≤ 1 := by
  unfold openings
  split
  · rw [if_pos h]
  · exact Flush.openings_le _
  · exact Flush.openings_le _
  · exact Nat.zero_le 1

theorem Beside.openings_le (h : t.Beside u) : u.openings ≤ t.openings := by
  rw [openings, openings, h.phase]
  split
  · by_cases hheard : t.heard = true
    · rw [if_pos hheard, if_pos (h.kept hheard)]
    · rw [if_neg hheard]
      split <;> decide
  · exact Nat.le_refl _
  · exact Nat.le_refl _
  · exact Nat.le_refl _

theorem openings_of_waiting {watching : Bool} (h : t.phase = .waiting watching) :
    t.openings = if t.heard then 1 else 2 := by
  rw [openings, h]

theorem Flush.openings_of_last (h : f.isLast = true) : f.openings = 0 := if_pos h

theorem Flush.openings_of_not_last (h : f.isLast = false) : f.openings = 1 := by
  rw [Flush.openings, if_neg (by simp [h])]

theorem Sends.openings (h : t.Sends f u) : u.openings = f.openings := by
  rcases h.phase_cases with ⟨answer, hphase⟩ | ⟨ops, due, hphase⟩
  · rw [Transfer.openings, hphase]
  · rw [Transfer.openings, hphase]

/-- A round that sees the request ends or sends the last batch, and one that does not is followed by one
that will. -/
theorem Rounds.winds {seen : Bool} (h : t.Rounds seen u)
    (hheard : ∀ watching, u.phase = .waiting watching → u.heard = true) :
    u.received = t.received ∧ u.openings < (if seen then 1 else 2) ∧
      (u.flushes = t.flushes ∨ ∃ b, u.flushes = t.flushes ++ [b]) := by
  cases h with
  | waits hseen _ halike hphase =>
    refine ⟨halike.received, ?_, .inl halike.flushes⟩
    rw [openings_of_waiting hphase, hseen, hheard _ hphase]
    decide
  | ends _ halike hphase =>
    refine ⟨halike.received, ?_, .inl halike.flushes⟩
    rw [openings, hphase]
    cases seen <;> simp
  | sends _ _ hlast hsends =>
    refine ⟨hsends.received, ?_, .inr ⟨_, hsends.flushes⟩⟩
    rw [hsends.openings]
    cases seen with
    | true => exact Nat.lt_one_iff.mpr (Flush.openings_of_last (hlast rfl))
    | false => exact Nat.lt_succ_of_le (Flush.openings_le _)

theorem Winds.of_round {received : Nat} (hreceived : received ≤ t.received + 1)
    (h : u.received = received ∧ u.openings < t.openings ∧
      (u.flushes = t.flushes ∨ ∃ b, u.flushes = t.flushes ++ [b])) : t.Winds u := by
  obtain ⟨hsame, hcloses, hflushes⟩ := h
  constructor
  · omega
  · rcases hflushes with hnone | ⟨b, hb⟩
    · exact .inl ⟨hnone, Nat.le_of_lt hcloses⟩
    · exact .inr ⟨b, hb, hcloses⟩

theorem Winds.of_same (hreceived : u.received = t.received) (hflushes : u.flushes = t.flushes)
    (hopen : u.openings ≤ t.openings) : t.Winds u :=
  ⟨by omega, .inl ⟨hflushes, hopen⟩⟩

theorem Acts.winds (h : t.Acts u) (hlistens : t.Listens u) (hasked : t.shutdown = true) : t.Winds u := by
  have hheard : ∀ watching, u.phase = .waiting watching → u.heard = true :=
    fun _ hphase => hlistens.heard_of_waiting hphase hasked
  cases h with
  | waited hphase _ hrounds =>
    have hround := hrounds.winds hheard
    rw [← openings_of_waiting hphase] at hround
    exact .of_round (Nat.le_succ _) hround
  | @received _ e hphase _ hrounds =>
    have hround := hrounds.winds hheard
    rw [← openings_of_waiting hphase, t.flushes_join e] at hround
    exact .of_round (Nat.le_refl _) hround
  | heard hphase _ hu =>
    subst hu
    refine .of_same rfl rfl ?_
    rw [openings, openings, hphase]
  | refused _ _ hrefuses =>
    refine .of_same hrefuses.received hrefuses.flushes ?_
    rw [openings, hrefuses.phase]
    exact Nat.zero_le _
  | @counted f answer last moment hphase _ _ halike hend =>
    have hflushes : u.flushes = t.flushes :=
      halike.flushes.trans ((flushes_note _ [.applied _ _ _]).trans (List.append_nil _))
    refine .of_same halike.received hflushes ?_
    have hopen : t.openings = f.openings := by
      rw [openings, hphase]
    rcases hend with ⟨hgoes, watching, hwaits⟩ | ⟨outcome, hdone⟩
    · rw [hopen, Flush.openings_of_not_last hgoes, openings_of_waiting hwaits, hheard _ hwaits, if_pos rfl]
    · rw [openings, hdone]
      exact Nat.zero_le _

theorem Invariant.unsent_of_closed (h : t.Invariant threshold) (hclosed : t.openings = 0) :
    t.unsent = [] := by
  have hs := h.standing
  cases hphase : t.phase with
  | waiting watching =>
    rw [openings_of_waiting hphase] at hclosed
    split at hclosed <;> cases hclosed
  | applying f ops due => simp [unsent, hphase]
  | answered f answer => simp [unsent, hphase]
  | done outcome =>
    rw [hphase] at hs
    simp [unsent, hphase, hs.empty_of_done]

end Transfer

end OplogRelay
