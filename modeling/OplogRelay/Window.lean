import OplogRelay.Number.Quantity
import OplogRelay.Timestamp
/-!
The look-back window: a log is read from so many seconds before now, or from its beginning where
the window reaches past the epoch.
-/
namespace OplogRelay.Window

inductive Error where
  | clock (e : ConversionError)
  | timestamp (e : TimestampError)
  deriving DecidableEq, Repr

def Error.message : Error → String
  | .clock e => e.message
  | .timestamp e => e.message

def threshold? (lookback : Int) (now : Quantity) : Except Error Timestamp :=
  match now.integerPart? with
  | .error e => .error (.clock e)
  | .ok seconds =>
    match Timestamp.make? (max 0 (seconds - lookback)) 0 with
    | .error e => .error (.timestamp e)
    | .ok t => .ok t

/-- The window begins with a whole second, that of the epoch where it would reach past it. -/
theorem threshold?_eq_ok {lookback second : Int} {now : Quantity} (hback : 0 ≤ lookback)
    (hpart : now.integerPart? = .ok second) (hhigh : second < 0x100000000) :
    ∃ first, threshold? lookback now = .ok first ∧ first.seconds = max 0 (second - lookback) ∧
      first.counter = 0 := by
  have hrange : 0 ≤ max 0 (second - lookback) ∧ max 0 (second - lookback) < 0x100000000 := by omega
  refine ⟨⟨(max 0 (second - lookback)).toNat, 0, by omega, by decide⟩, ?_, ?_, rfl⟩
  · simp [threshold?, hpart, Timestamp.make?, hrange]
  · exact Int.toNat_of_nonneg hrange.1

end OplogRelay.Window
