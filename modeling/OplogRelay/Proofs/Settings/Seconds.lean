import OplogRelay.Proofs.Number.Magnitudes
import OplogRelay.Proofs.Settings.Validation
import OplogRelay.Session.Client
import OplogRelay.Settings.Environment
/-!
What accepted settings say about lengths of time. The check refuses what is not above zero. A NaN, of which
no comparison holds, is not refused, and an idle wait may be too long to be told to a client.
-/
namespace OplogRelay

namespace Binary64

variable {x : Binary64}

theorem isPositive_iff (h : x.isNonpositive = false) : x.isPositive = true ↔ x ≠ .nan := by
  cases x with
  | nan => simp [isPositive]
  | infinity negative =>
    have hsign : negative = false := h
    simp [isPositive, hsign]
  | finite negative units =>
    simpa [isPositive, isNonpositive] using h

theorem exists_units_iff (h : x.isNonpositive = false) {p : Nat → Prop} :
    (∃ negative units, x = .finite negative units ∧ p units) ↔
      ∃ units, x = .finite false units ∧ p units := by
  constructor
  · rintro ⟨negative, units, rfl, hp⟩
    have hsign : negative = false := (Bool.or_eq_false_iff.mp h).1
    exact ⟨units, by rw [hsign], hp⟩
  · rintro ⟨units, hx, hp⟩
    exact ⟨false, units, hx, hp⟩

end Binary64

theorem ScriptedClient.tail_eq_ok_iff {ns : Namespace} {query : Document} {idle : Binary64} :
    (tail ns query (.float idle)).2 = .ok () ↔
      ∃ ms, (Quantity.real idle).thousandfold? = .ok ms := by
  unfold tail milliseconds?
  dsimp only [Value.float, Value.amount?]
  cases (Quantity.real idle).thousandfold? with
  | ok ms => simp
  | error e => simp

namespace Settings

variable {s : Settings} {idle flush : Binary64}

/-- An accepted flush interval, or idle wait, is above zero unless it is no number; and a cursor can be
opened with the idle wait exactly if it is finite and its thousandfold not too large. -/
theorem seconds_usable_iff (hidle : s.source.idleWait = .value idle)
    (hflush : s.batch.flushInterval = .value flush) (h : s.validate = .ok ()) :
    (flush.isPositive = true ↔ flush ≠ .nan) ∧ (idle.isPositive = true ↔ idle ≠ .nan) ∧
      ∀ ns query, (ScriptedClient.tail ns query (.float idle)).2 = .ok () ↔
        ∃ units, idle = .finite false units ∧ units * 1000 < Binary64.finiteLimit := by
  have hchecked := validate_eq_ok_iff.mp h
  have hwait : idle.isNonpositive = false := by
    obtain ⟨x, hx, hpositive⟩ := hchecked.idleWait
    rwa [Given.value.inj (hidle.symm.trans hx)]
  have htimer : flush.isNonpositive = false := by
    obtain ⟨x, hx, hpositive⟩ := hchecked.flushInterval
    rwa [Given.value.inj (hflush.symm.trans hx)]
  refine ⟨Binary64.isPositive_iff htimer, Binary64.isPositive_iff hwait, ?_⟩
  intro ns query
  rw [ScriptedClient.tail_eq_ok_iff, Quantity.thousandfold?_eq_ok_iff, Binary64.exists_units_iff hwait]

theorem seconds_usable_ofSeconds :
    (ofSeconds (.ofDecimal false 30 0) .nan).validate = .ok () ∧ Binary64.nan.isPositive = false ∧
      (ScriptedClient.tail ⟨"local", "oplog.rs"⟩ [] (.float (.ofDecimal false 30 0))).2 = .ok () := by
  have hvalid : (ofSeconds (.ofDecimal false 30 0) .nan).validate = .ok () :=
    validate_ofSeconds (by decide +kernel) rfl
  obtain ⟨hflush, _, htail⟩ := seconds_usable_iff rfl rfl hvalid
  refine ⟨hvalid, ?_, ?_⟩
  · by_contra hpositive
    exact hflush.mp (Bool.eq_true_of_not_eq_false hpositive) rfl
  · exact (htail _ _).mpr ⟨30 * Binary64.one, by decide +kernel, by decide +kernel⟩

def secondsEnvironment (idle flush : String) : Environment :=
  [("OPLOG_FROM", "src"), ("OPLOG_IDLE_WAIT_SECONDS", idle), ("APPLY_FLUSH_INTERVAL_SECONDS", flush)]

theorem accepted_not_usable :
    (ofEnvironment? (secondsEnvironment "nan" "5") = .ok (ofSeconds .nan (.ofDecimal false 5 0)) ∧
      (ofSeconds .nan (.ofDecimal false 5 0)).validate = .ok () ∧ Binary64.nan.isPositive = false) ∧
    (ofEnvironment? (secondsEnvironment "30" "nan") = .ok (ofSeconds (.ofDecimal false 30 0) .nan) ∧
      (ofSeconds (.ofDecimal false 30 0) .nan).validate = .ok () ∧ Binary64.nan.isPositive = false) ∧
    (ofEnvironment? (secondsEnvironment "inf" "5") =
        .ok (ofSeconds (.infinity false) (.ofDecimal false 5 0)) ∧
      (ofSeconds (.infinity false) (.ofDecimal false 5 0)).validate = .ok () ∧
      (ScriptedClient.tail ⟨"local", "oplog.rs"⟩ [] (.float (.infinity false))).2 =
        .error (.conversion .ofInfinity)) := by
  refine ⟨⟨rfl, ?_, rfl⟩, ⟨rfl, ?_, rfl⟩, rfl, ?_, rfl⟩
  · exact validate_ofSeconds rfl (by decide +kernel)
  · exact validate_ofSeconds (by decide +kernel) rfl
  · exact validate_ofSeconds rfl (by decide +kernel)

end Settings

end OplogRelay
