import OplogRelay.Failure
/-!
The batch in the making: entries in arrival order, up to a fixed number of them.
-/
namespace OplogRelay

structure Batch where
  capacity : Nat
  entries : List Entry := []
  deriving Repr, Inhabited

namespace Batch

def make? (capacity : Int) : Except MisuseError Batch :=
  if capacity < 1 then .error (.batchSizeTooSmall capacity)
  else .ok { capacity := capacity.toNat }

def size (b : Batch) : Nat := b.entries.length

def isEmpty (b : Batch) : Bool := b.entries.isEmpty

def isFull (b : Batch) : Bool := decide (b.capacity ≤ b.size)

def add? (b : Batch) (e : Entry) : Except MisuseError Batch :=
  if b.isFull then .error .batchFull
  else .ok { b with entries := b.entries ++ [e] }

/-- An add as its caller sees it: whether the batch is full now, or why it did not take the entry. A batch
that takes nothing stays as it is. -/
def add (b : Batch) (e : Entry) : Except MisuseError Bool × Batch :=
  match b.add? e with
  | .error m => (.error m, b)
  | .ok added => (.ok added.isFull, added)

def clear (b : Batch) : Batch := { b with entries := [] }

@[simp]
theorem entries_clear (b : Batch) : b.clear.entries = [] := rfl

@[simp]
theorem capacity_clear (b : Batch) : b.clear.capacity = b.capacity := rfl

theorem isFull_iff {b : Batch} : b.isFull = true ↔ b.capacity ≤ b.size := by
  simp [isFull]

theorem add?_of_lt {b : Batch} {e : Entry} (h : b.size < b.capacity) :
    b.add? e = .ok { b with entries := b.entries ++ [e] } := by
  have hn : ¬ b.isFull = true := fun hf => absurd (isFull_iff.mp hf) (by omega)
  simp [add?, hn]

theorem add?_of_le {b : Batch} {e : Entry} (h : b.capacity ≤ b.size) :
    b.add? e = .error .batchFull := by
  simp [add?, isFull_iff.mpr h]

theorem add_of_lt {b : Batch} {e : Entry} (h : b.size < b.capacity) :
    b.add e = (.ok (isFull { b with entries := b.entries ++ [e] }),
      { b with entries := b.entries ++ [e] }) := by
  rw [add, add?_of_lt h]

theorem add_of_le {b : Batch} {e : Entry} (h : b.capacity ≤ b.size) :
    b.add e = (.error .batchFull, b) := by
  rw [add, add?_of_le h]

def stats (b : Batch) : Document := [
  ("buffered", .nat b.size),
  ("max_batch_size", .nat b.capacity)]

end Batch

end OplogRelay
