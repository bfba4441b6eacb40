import OplogRelay.Value
/-!
Comparing values of any kind. Numbers are compared by value, texts by code points, arrays by their
first items that differ; values of other kinds, or of two kinds, have no order.
-/
namespace OplogRelay

inductive Relation where
  | less
  | lessOrEqual
  | greaterOrEqual
  deriving DecidableEq, Repr

namespace Relation

def symbol : Relation → String
  | less => "<"
  | lessOrEqual => "<="
  | greaterOrEqual => ">="

def holds : Relation → Ordering → Bool
  | less, o => o.isLT
  | lessOrEqual, o => o.isLE
  | greaterOrEqual, o => o.isGE

end Relation

def Timestamp.order (a b : Timestamp) : Ordering :=
  if a = b then .eq else if a ≤ b then .lt else .gt

theorem Timestamp.isGE_order (a b : Timestamp) : (a.order b).isGE = decide (b ≤ a) := by
  unfold Timestamp.order
  split
  · next h => simp [h, ← packed_le_packed]
  · next h =>
    split
    · next hle =>
      have hn : ¬ b ≤ a := fun hge => h (eq_of_packed (Nat.le_antisymm
        (packed_le_packed.mpr hle) (packed_le_packed.mpr hge)))
      simp [hn]
    · next hle =>
      have hge : b ≤ a := packed_le_packed.mp
        (Nat.le_of_not_le fun h' => hle (packed_le_packed.mp h'))
      simp [hge]

namespace Value

mutual

/-- Equality by value: numbers of two forms can be equal, and the order of fields does not count. -/
def alike : Value → Value → Bool
  | null, null => true
  | text a, text b => a == b
  | timestamp a, timestamp b => a == b
  | array a, array b => alikeItems a b
  | document a, document b => a.length == b.length && alikeFields a b
  | bool a, b => b.amount?.bind ((bool a).amount?.getD default).order? == some .eq
  | number a, b => b.amount?.bind a.order? == some .eq
  | _, _ => false

def alikeItems : List Value → List Value → Bool
  | [], [] => true
  | a :: as, b :: bs => alike a b && alikeItems as bs
  | _, _ => false

def alikeFields : List (String × Value) → List (String × Value) → Bool
  | [], _ => true
  | (key, a) :: rest, b =>
    (match b.lookup key with
    | some v => alike a v
    | none => false) && alikeFields rest b

end

mutual

/-- Whether a comparison holds, or why the two values cannot be put to it. -/
def relate (r : Relation) : Value → Value → Except KindError Bool
  | text a, text b => .ok (r.holds (compare a b))
  | timestamp a, timestamp b => .ok (r.holds (a.order b))
  | array a, array b => relateItems r a b
  | a, b =>
    match a.amount?, b.amount? with
    | some x, some y => .ok ((x.order? y).any r.holds)
    | _, _ => .error (.incomparable r.symbol a.kindName b.kindName)

/-- Items that are alike decide nothing; an array that ends first comes first. -/
def relateItems (r : Relation) : List Value → List Value → Except KindError Bool
  | [], [] => .ok (r.holds .eq)
  | [], _ :: _ => .ok (r.holds .lt)
  | _ :: _, [] => .ok (r.holds .gt)
  | a :: as, b :: bs => if alike a b then relateItems r as bs else relate r a b

end

/-- Two timestamps can always be compared. -/
theorem relate_timestamp (a b : Timestamp) :
    relate .greaterOrEqual (timestamp a) (timestamp b) = .ok (decide (b ≤ a)) := by
  rw [relate, Relation.holds, Timestamp.isGE_order]

end Value

end OplogRelay
