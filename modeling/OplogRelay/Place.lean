/-!
Places in a list: counted from its front or, below zero, from its back.
-/
namespace OplogRelay

inductive PlaceError where
  | outOfRange
  | notAnIndex
  deriving DecidableEq, Repr

def PlaceError.message : PlaceError → String
  | .outOfRange => "list index out of range"
  | .notAnIndex => "cannot fit 'int' into an index-sized integer"

namespace Place

/-- Indices are signed integers of 64 bits. -/
def IsIndex (i : Int) : Prop := -0x8000000000000000 ≤ i ∧ i < 0x8000000000000000

instance (i : Int) : Decidable (IsIndex i) := inferInstanceAs (Decidable (_ ∧ _))

def resolve? (length : Nat) (i : Int) : Except PlaceError Nat :=
  if IsIndex i then
    let place := if i < 0 then i + length else i
    if 0 ≤ place ∧ place < length then .ok place.toNat else .error .outOfRange
  else .error .notAnIndex

theorem lt_of_resolve? {length n : Nat} {i : Int} (h : resolve? length i = .ok n) :
    n < length := by
  unfold resolve? at h
  split at h
  · dsimp only at h
    generalize (if i < 0 then i + (length : Int) else i) = place at h
    split at h
    · next hp =>
      cases h
      omega
    · cases h
  · cases h

end Place

end OplogRelay
