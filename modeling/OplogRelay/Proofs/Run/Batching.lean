import OplogRelay.Proofs.Run.Surfacing
import OplogRelay.Proofs.Transfer.Batching
/-!
Batches of a run: a batch that is sent for its size is full, any other is not, and of those there is
at most one more than there were ticks of the timer. No batch overflows, and none is sent empty.
-/
namespace OplogRelay

def Event.isTick : Event → Bool
  | .tickWithoutBatch | .flushed .timer _ => true
  | _ => false

namespace Journal

def ticks (j : Journal) : List Nat := (j.filter fun e => e.2.isTick).map Prod.fst

theorem timely_le_ticks (j : Journal) :
    (j.flushes.countP fun b => b.1 == .timer) ≤ j.ticks.length := by
  rw [flushes, List.countP_filterMap, ticks, List.length_map, ← List.countP_eq_length_filter]
  apply List.countP_mono_left
  intro e _ he
  cases hev : e.2 with
  | flushed trigger batch =>
    cases trigger with
    | timer => rfl
    | _ => simp [hev, Event.flush?] at he
  | _ => simp [hev, Event.flush?] at he

end Journal

theorem countP_le_add {α : Type} {p q r : α → Bool} {l : List α}
    (h : ∀ a ∈ l, p a = true → q a = true ∨ r a = true) :
    l.countP p ≤ l.countP q + l.countP r := by
  induction l with
  | nil => exact Nat.le_refl 0
  | cons a rest ih =>
    have hrest := ih fun x hx => h x (List.mem_cons_of_mem a hx)
    have ha := h a List.mem_cons_self
    simp only [List.countP_cons]
    by_cases hp : p a = true
    · rcases ha hp with hq | hr
      · simp only [hp, hq, if_true]
        omega
      · simp only [hp, hr, if_true]
        omega
    · simp only [hp, Bool.false_eq_true, if_false]
      omega

theorem Sized.timely_or_final {capacity : Nat} {b : Trigger × List Entry} (h : Sized capacity b)
    (hshort : b.2.length < capacity) : b.1 = .timer ∨ b.1.isFinal = true := by
  obtain ⟨trigger, batch⟩ := b
  cases trigger with
  | size => exact absurd (h.full rfl) (Nat.ne_of_lt hshort)
  | timer => exact .inl rfl
  | shutdown => exact .inr rfl
  | endOfStream => exact .inr rfl

def Failure.isMisuse : Failure → Bool
  | .misuse _ => true
  | _ => false

theorem Failure.not_misuse_of_own {e : Failure} (h : e.isOwn = true ∨ ∃ f, e = .fault f) :
    e.isMisuse = false := by
  rcases h with hown | ⟨f, rfl⟩
  · cases e <;> first | rfl | cases hown
  · rfl

theorem Failure.ofFault_not_misuse (f : Fault) : (ofFault f).isMisuse = false :=
  not_misuse_of_own ((ofFault_cases f).imp_right fun h => ⟨f, h⟩)

namespace Transfer

variable {t : Transfer} {threshold : Timestamp}

theorem Answer.failure_not_misuse (answer : Answer) : answer.failure.isMisuse = false := by
  cases answer with
  | reply r => rfl
  | fault f =>
    exact Failure.not_misuse_of_own ((Failure.ofApplyFault_cases f).imp_right fun h => ⟨f, h⟩)

/-- Nothing that happens in a transfer is a misuse of one of its parts. -/
theorem Invariant.not_misuse {e : Failure} (h : t.Invariant threshold)
    (hphase : t.phase = .done (.error e)) : e.isMisuse = false := by
  cases h.standing_at hphase with
  | @stopped ending e _ _ _ hend hfail =>
    cases ending with
    | failed s =>
      cases hfail
      rfl
    | escaped e' =>
      cases hfail
      cases (h.feed.escape _ hend).1 with
      | unreadable => rfl
      | clock => rfl
      | fault => exact Failure.ofFault_not_misuse _
    | exhausted => cases hfail
    | cancelled => cases hfail
  | refused => exact Answer.failure_not_misuse _

end Transfer

namespace Run

variable {r s : Run} {t : Transfer}

theorem orderly_of_opens {w : World} (hw : w.Quiet) (hcap : 0 < r.plan.capacity)
    (h : r.Opens w s) (hstage : s.stage = .moving t) :
    t.Orderly ∧ t.batch.capacity = s.plan.capacity := by
  cases h with
  | barred _ _ _ _ _ hbefore => cases hbefore.symm.trans hstage
  | @untimed threshold events later e _ ns _ _ _ hevents hlater hplan _ hmoving =>
    cases hmoving.symm.trans hstage
    have hquiet := hw.similar (World.similar_note hevents)
    have hstart := Transfer.orderly_start (.start ns threshold r.plan.idle w.now) .unbounded
      hquiet hcap
    refine ⟨hstart.beside (Transfer.beside_onWorld (World.similar_note hlater)), ?_⟩
    rw [hplan]
    rfl
  | streams events _ _ _ hevents =>
    cases hstage
    exact ⟨Transfer.orderly_start _ _ (hw.similar (World.similar_note hevents)) hcap, rfl⟩

theorem reachable_orderly (h : Reachable r) (hstage : r.stage = .moving t) :
    t.Orderly ∧ t.batch.capacity = r.plan.capacity := by
  induction h generalizing t with
  | made hmade =>
    cases hmade
    cases hstage
  | @step q r hq hstep ih =>
    have hstanding := reachable_standing hq
    cases hbefore : q.stage with
    | before w =>
      obtain ⟨v, hquiet, _, _, hcap, hopens⟩ := opens_of_step hstanding hstep hbefore hstage
      exact orderly_of_opens (r := q.asked) hquiet hcap hopens hstage
    | moving v =>
      obtain ⟨horderly, hcap⟩ := ih hbefore
      obtain ⟨threshold, _, hinv⟩ := hstanding.invariant hbefore
      rw [plan_of_step hstanding hstep, ← hcap]
      obtain ⟨u, hu, hbeside | hcoordinate⟩ := beside_of_step hstanding hstep hbefore
      · cases hu.symm.trans hstage
        exact ⟨horderly.beside hbeside, by rw [hbeside.batch]⟩
      · cases hu.symm.trans hstage
        exact ⟨hinv.orderly_of_coordinate? horderly hcoordinate,
          (hinv.coordinate?_advances hcoordinate).capacity⟩

/-- No batch overflows and none is sent empty: where the coordinator waits there is room for an
entry, and no transfer ends with the misuse of a part. -/
structure Unmisused (r : Run) : Prop where
  room : ∀ t watching, r.stage = .moving t → t.phase = .waiting watching →
    ∀ e, ∃ b, t.batch.add? e = .ok b
  phase : ∀ t e, r.stage = .moving t → t.phase = .done (.error e) → e.isMisuse = false
  outcome : ∀ e, r.outcome = some (.error e) → e.isMisuse = false

theorem Ended.not_misuse {before : Lifecycle} {result : Except Failure Unit} {e : Failure}
    (h : r.Ended before result) (hresult : ∀ e, result = .error e → e.isMisuse = false)
    (houtcome : r.outcome = some (.error e)) : e.isMisuse = false := by
  rcases h.outcome with hreports | ⟨resource, f, _, _, hoverruled⟩
  · cases result with
    | ok =>
      obtain ⟨stats, hok, _⟩ := hreports
      cases hok.symm.trans houtcome
    | error e' =>
      cases hreports.symm.trans houtcome
      exact hresult e rfl
  · cases hoverruled.symm.trans houtcome
    exact Failure.ofFault_not_misuse f

theorem Plan.barrier?_not_misuse {plan : Plan} {e : Failure} (h : plan.barrier? = some e) :
    e.isMisuse = false := by
  rcases Plan.barrier?_cases h with hown | ⟨w, rfl⟩ | hfault
  · exact Failure.not_misuse_of_own (.inl hown)
  · rfl
  · exact Failure.not_misuse_of_own (.inr hfault)

theorem reachable_unmisused (h : Reachable r) : r.Unmisused := by
  have hstanding := reachable_standing h
  refine ⟨?_, ?_, ?_⟩
  · intro t watching hstage hphase e
    obtain ⟨threshold, _, hinv⟩ := hstanding.invariant hstage
    exact ⟨_, Batch.add?_of_lt (hinv.room_of_waiting hphase)⟩
  · intro t e hstage hphase
    obtain ⟨threshold, _, hinv⟩ := hstanding.invariant hstage
    exact hinv.not_misuse hphase
  · intro e houtcome
    cases hstanding with
    | fresh _ _ _ _ _ hnone => cases hnone.symm.trans houtcome
    | misnamed _ _ _ _ _ hfailed =>
      cases hfailed.symm.trans houtcome
      rfl
    | barred _ _ _ _ hbars hended =>
      refine hended.not_misuse ?_ houtcome
      rintro _ ⟨⟩
      exact Plan.barrier?_not_misuse hbars
    | streaming _ _ _ _ _ _ hnone => cases hnone.symm.trans houtcome
    | untimed _ _ _ _ _ _ _ _ hended =>
      refine hended.not_misuse ?_ houtcome
      rintro _ ⟨⟩
      rfl
    | ended hstage _ _ hinv _ hphase hended =>
      refine hended.not_misuse ?_ houtcome
      rintro e' rfl
      exact hinv.not_misuse hphase

theorem commands_eq (h : Reachable r) : r.world.destination.commands =
    if r.world.attached then r.world.journal.flushes.map fun b => .ofBatch b.2 else [] := by
  have hstanding := reachable_standing h
  cases hstage : r.stage with
  | before w =>
    have hquiet := hstanding.quiet hstage
    rw [world_of_before hstage, hquiet.commands, hquiet.flushes]
    simp
  | moving t =>
    obtain ⟨threshold, _, hinv⟩ := hstanding.invariant hstage
    obtain ⟨settled, happlied, _⟩ := hinv.standing.applied
    rw [world_of_moving hstage, happlied.commands]
    rfl

theorem flushes_sized (h : Reachable r) :
    ∀ b ∈ r.world.journal.flushes, Sized r.plan.capacity b := by
  have hstanding := reachable_standing h
  cases hstage : r.stage with
  | before w =>
    rw [world_of_before hstage, (hstanding.quiet hstage).flushes]
    intro b hb
    cases hb
  | moving t =>
    obtain ⟨horderly, hcap⟩ := reachable_orderly h hstage
    rw [world_of_moving hstage, ← hcap]
    exact horderly.sized

theorem finals_le (h : Reachable r) :
    (r.world.journal.flushes.countP fun b => b.1.isFinal) ≤ 1 := by
  have hstanding := reachable_standing h
  cases hstage : r.stage with
  | before w =>
    rw [world_of_before hstage, (hstanding.quiet hstage).flushes]
    exact Nat.zero_le 1
  | moving t =>
    obtain ⟨horderly, _⟩ := reachable_orderly h hstage
    rw [world_of_moving hstage]
    refine Nat.le_trans horderly.finals ?_
    cases t.phase with
    | waiting => exact Nat.zero_le 1
    | applying f ops due =>
      simp only [Transfer.Phase.finals]
      split <;> omega
    | answered f answer =>
      simp only [Transfer.Phase.finals]
      split <;> omega
    | done => exact Nat.le_refl 1

theorem short_flushes_le (h : Reachable r) :
    (r.world.journal.flushes.countP fun b => b.2.length < r.plan.capacity) ≤
      r.world.journal.ticks.length + 1 := by
  have hcauses : ∀ b ∈ r.world.journal.flushes, decide (b.2.length < r.plan.capacity) = true →
      (b.1 == .timer) = true ∨ b.1.isFinal = true := by
    intro b hb hshort
    rcases (flushes_sized h b hb).timely_or_final (by simpa using hshort) with htimer | hfinal
    · exact .inl (by simp [htimer])
    · exact .inr hfinal
  have htimely := r.world.journal.timely_le_ticks
  have hfinals := finals_le h
  have hsum := countP_le_add hcauses
  omega

/-- Every batch of a run has between one entry and as many as fit, the full ones being those that
were sent for their size; those that are not full are at most one more than the ticks of the timer;
and no batch is misused. -/
theorem batches_in_bounds (h : Reachable r) :
    (∀ b ∈ r.world.journal.flushes, Sized r.plan.capacity b) ∧
    (∀ c ∈ r.world.destination.commands, c.isApplyOps = true ∧
      0 < c.ops.length ∧ c.ops.length ≤ r.plan.capacity) ∧
    (r.world.destination.commands.countP fun c => c.ops.length < r.plan.capacity) ≤
      r.world.journal.ticks.length + 1 ∧
    r.Unmisused := by
  have hsized := flushes_sized h
  have hshort := short_flushes_le h
  refine ⟨hsized, ?_, ?_, reachable_unmisused h⟩
  · intro c hc
    rw [commands_eq h] at hc
    split at hc
    · obtain ⟨b, hb, rfl⟩ := List.mem_map.mp hc
      have hlen : (Command.ofBatch b.2).ops.length = b.2.length := by
        rw [Command.ops_ofBatch, Entry.values, List.length_map]
      rw [hlen]
      exact ⟨rfl, (hsized b hb).nonempty, (hsized b hb).le⟩
    · cases hc
  · rw [commands_eq h]
    split
    · simpa [List.countP_map, Function.comp_def, Command.ops_ofBatch, Entry.values] using hshort
    · exact Nat.zero_le _

def requested : Run :=
  small [.append (lateLog.take 1), .advance (.seconds 6), .append ((lateLog.drop 1).take 1),
    .requestShutdown]

/-- As many batches as can be are not full. -/
theorem batches_in_bounds_small : Reachable requested ∧
    requested.world.journal.flushes.map Prod.fst = [.size, .timer, .shutdown] ∧
    requested.world.journal.ticks.length = 1 ∧
    (requested.world.destination.commands.countP fun c => c.ops.length < requested.plan.capacity) =
      2 ∧
    (∀ b ∈ requested.world.journal.flushes, Sized requested.plan.capacity b) ∧
    (∀ c ∈ requested.world.destination.commands, c.isApplyOps = true ∧
      0 < c.ops.length ∧ c.ops.length ≤ requested.plan.capacity) ∧ requested.Unmisused := by
  have hreach : Reachable requested := reachable_small _
  obtain ⟨hsized, hcommands, _, hunmisused⟩ := batches_in_bounds hreach
  exact ⟨hreach, by decide +kernel, by decide +kernel, by decide +kernel, hsized, hcommands,
    hunmisused⟩

end Run

end OplogRelay
