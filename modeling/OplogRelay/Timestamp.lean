/-!
Hybrid timestamps of log entries: seconds since the epoch and a counter within the second, each of
32 bits, ordered by seconds first.
-/
namespace OplogRelay

structure Timestamp where
  seconds : Nat
  counter : Nat
  seconds_lt : seconds < 0x100000000 := by decide
  counter_lt : counter < 0x100000000 := by decide
  deriving DecidableEq, Repr

inductive TimestampError where
  | seconds
  | counter
  deriving DecidableEq, Repr

def TimestampError.message : TimestampError → String
  | .seconds => "time must be contained in [0, 2**32)"
  | .counter => "inc must be contained in [0, 2**32)"

namespace Timestamp

/-- The seconds are looked at before the counter. -/
def make? (seconds counter : Int) : Except TimestampError Timestamp :=
  if hs : 0 ≤ seconds ∧ seconds < 0x100000000 then
    if hc : 0 ≤ counter ∧ counter < 0x100000000 then
      .ok ⟨seconds.toNat, counter.toNat, by omega, by omega⟩
    else .error .counter
  else .error .seconds

def origin : Timestamp := ⟨0, 0, by decide, by decide⟩

instance : Inhabited Timestamp := ⟨origin⟩

def ofWords (seconds counter : UInt32) : Timestamp :=
  ⟨seconds.toNat, counter.toNat, seconds.toNat_lt, counter.toNat_lt⟩

instance : LE Timestamp :=
  ⟨fun a b => a.seconds < b.seconds ∨ (a.seconds = b.seconds ∧ a.counter ≤ b.counter)⟩

instance (a b : Timestamp) : Decidable (a ≤ b) :=
  inferInstanceAs (Decidable (_ < _ ∨ (_ = _ ∧ _ ≤ _)))

/-- The 64-bit form: seconds in the high half, the counter in the low one. -/
def packed (t : Timestamp) : Nat := t.seconds * 0x100000000 + t.counter

theorem packed_lt (t : Timestamp) : t.packed < 0x10000000000000000 := by
  have hs := t.seconds_lt
  have hc := t.counter_lt
  unfold packed
  omega

/-- The counter is never carried into the seconds, so the packed form keeps the order. -/
theorem packed_le_packed {a b : Timestamp} : a.packed ≤ b.packed ↔ a ≤ b := by
  have ha := a.counter_lt
  have hb := b.counter_lt
  change _ ↔ a.seconds < b.seconds ∨ (a.seconds = b.seconds ∧ a.counter ≤ b.counter)
  unfold packed
  omega

theorem eq_of_packed {a b : Timestamp} (h : a.packed = b.packed) : a = b := by
  have ha := a.counter_lt
  have hb := b.counter_lt
  obtain ⟨s, c, _, _⟩ := a
  obtain ⟨s', c', _, _⟩ := b
  unfold packed at h
  dsimp only at h ha hb
  obtain ⟨rfl, rfl⟩ : s = s' ∧ c = c' := by omega
  rfl

/-- A threshold leaves its counter at zero, so it selects whole seconds. -/
theorem le_iff_of_counter {first t : Timestamp} (h : first.counter = 0) :
    first ≤ t ↔ first.seconds ≤ t.seconds := by
  change first.seconds < t.seconds ∨ (first.seconds = t.seconds ∧ first.counter ≤ t.counter) ↔ _
  omega

end Timestamp

end OplogRelay
