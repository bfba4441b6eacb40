import OplogRelay.Clock
import OplogRelay.Proofs.Source.Delivery
import OplogRelay.Source.Reading
/-!
Readings are deliveries: a consumer that takes entries as they come, with a pause after each, is one of those
to whom the law of delivery applies, at every moment of its reading.
-/
namespace OplogRelay.Reading

def delivery (r : Reading) : Delivery where
  now := r.now
  oplog := r.oplog
  tail := r.tail
  begun := 0
  yielded := r.got.map fun taken => (taken.moment, taken.entry)
  ending := r.outcome

/-- It was not the consumer that failed, over an entry that goes by nothing. -/
def Understood (r : Reading) : Prop := ∀ k, r.outcome ≠ some (.error (.kind k))

variable {r s : Reading} {d : Delivery} {outcome : Tail.Outcome} {threshold : Timestamp}
variable {idle : Quantity}

theorem leads_onOutcome (hstep : d.Step (r.delivery.onOutcome outcome))
    (hu : (r.onOutcome outcome).Understood) : d.Leads (r.onOutcome outcome).delivery := by
  cases outcome with
  | pending => exact .single hstep
  | ended => exact .single hstep
  | failed e => exact .single hstep
  | entry e =>
    cases hidentity : e.identity? with
    | error k =>
      refine absurd ?_ (hu k)
      simp [onOutcome, hidentity, conclude]
    | ok identity =>
      have hgot : r.delivery.onOutcome (.entry e) =
          ({ r with got := r.got ++ [Taken.mk r.now e identity] } : Reading).delivery := by
        simp [Delivery.onOutcome, delivery]
      rw [hgot] at hstep
      have htaken := Relation.ReflTransGen.single hstep
      by_cases hpause : r.pause.IsPositive
      · simp only [onOutcome, hidentity, if_pos hpause]
        exact htaken
      · simp only [onOutcome, hidentity, if_neg hpause]
        exact .tail htaken .ask

theorem now_onOutcome (r : Reading) (outcome : Tail.Outcome) : (r.onOutcome outcome).now = r.now := by
  unfold onOutcome
  split
  · rfl
  · split
    · rfl
    · dsimp only
      split <;> rfl
  · rfl
  · rfl

theorem leads_of_step? (h : r.step? = some s) :
    r.outcome = none ∧ s.now = r.now ∧ (s.Understood → r.delivery.Leads s.delivery) := by
  unfold step? at h
  split at h
  · cases h
  · next hlive =>
    refine ⟨by simpa using hlive, ?_⟩
    split at h
    · split at h
      · cases h
        exact ⟨rfl, fun _ => .single .ask⟩
      · cases h
    · split at h
      · next outcome oplog tail events hstep =>
        cases h
        refine ⟨now_onOutcome _ _, leads_onOutcome (.look ?_)⟩
        exact Delivery.look?_of_step? (d := r.delivery) hstep
      · obtain ⟨tail, hexpire, rfl⟩ := Option.map_eq_some_iff.mp h
        refine ⟨rfl, fun _ => .single (.expire ?_)⟩
        exact Option.map_eq_some_iff.mpr ⟨tail, hexpire, rfl⟩

theorem lt_due {moment : Nat} (h : r.step? = none) (hdue : r.due? = some moment) : r.now < moment := by
  unfold due? at hdue
  unfold step? at h
  split at hdue
  · cases hdue
  · next hlive =>
    rw [if_neg hlive] at h
    split at hdue
    · next due hpaused =>
      cases hdue
      simp only [hpaused] at h
      split at h
      · cases h
      · next hlater => exact Nat.lt_of_not_le hlater
    · next hpaused =>
      simp only [hpaused] at h
      split at h
      · cases h
      · exact Tail.lt_due (Option.map_eq_none_iff.mp h) hdue

def Delivers (threshold : Timestamp) (idle : Quantity) (r : Reading) : Prop :=
  r.Understood → Delivery.Reachable threshold idle r.delivery

theorem keeps_delivers (threshold : Timestamp) (idle : Quantity) :
    Timed.Keeps (Delivers threshold idle) where
  work h hs := by
    obtain ⟨hlive, hnow, hleads⟩ := leads_of_step? hs
    refine ⟨fun hu => (h fun k hk => ?_).leads (hleads hu), hnow⟩
    cases hlive.symm.trans hk
  ahead _ hnone hdue := lt_due hnone hdue
  pass h hle := ⟨fun hu => .step (h hu) (.pass _ hle), rfl⟩

theorem Delivers.perform (h : r.Delivers threshold idle) (a : Action) :
    (r.perform a).Delivers threshold idle := by
  apply (keeps_delivers threshold idle).settle
  cases a with
  | advance span => exact (keeps_delivers threshold idle).advanceTo h (span.le_arrival r.now)
  | append docs => exact fun hu => .step (h hu) (.append docs)
  | inject f => exact fun hu => .step (h hu) (.inject f)
  | close => exact fun hu => .step (h hu) .close

theorem Delivers.actions (h : r.Delivers threshold idle) (actions : List Action) :
    (actions.foldl Reading.perform r).Delivers threshold idle := by
  induction actions generalizing r with
  | nil => exact h
  | cons a rest ih => exact ih (h.perform a)

theorem delivery_of_open {nsText : String} {docs : List Document} {opening : Opening} {pause : Span}
    (h : open? nsText docs opening idle pause = .ok r) :
    ∃ ns threshold, Window.threshold? opening.lookback opening.clock = .ok threshold ∧
      r.delivery = .start ns threshold idle 0 { documents := docs } := by
  unfold open? at h
  split at h
  · cases h
  · next ns _ =>
    cases hopens : opening.tail ns idle 0 with
    | mk events outcome =>
      simp only [hopens] at h
      split at h
      · cases h
      · next tail =>
        cases h
        obtain ⟨threshold, hthreshold, htail⟩ := Opening.tail_eq_ok (congrArg Prod.snd hopens)
        exact ⟨ns, threshold, hthreshold, by rw [htail]; rfl⟩

/-- A reading that was opened delivers what the window has, whatever it meets with. -/
theorem delivers_of_open {nsText : String} {docs : List Document} {opening : Opening} {pause : Span}
    (h : open? nsText docs opening idle pause = .ok r) (actions : List Action) :
    ∃ threshold, Window.threshold? opening.lookback opening.clock = .ok threshold ∧
      (actions.foldl perform (Timed.settle r)).Delivers threshold idle := by
  obtain ⟨ns, threshold, hthreshold, hstart⟩ := delivery_of_open h
  have hdelivers : r.Delivers threshold idle := by
    intro _
    rw [hstart]
    exact .start ns 0 _
  exact ⟨threshold, hthreshold, ((keeps_delivers threshold idle).settle hdelivers).actions actions⟩

end OplogRelay.Reading
