import OplogRelay.Heap
/-!
An agenda: appointments in a heap. One that is called off keeps its place until it comes to the top, or until
most of a long agenda is called off.
-/
namespace OplogRelay

/-- `calledOff` counts the appointments that are called off and have not come to the top. -/
structure Agenda (α : Type) where
  items : Array (Appointment α) := #[]
  calledOff : Nat := 0
  ordered : Heap.Ordered 0 items
  deriving Repr

namespace Agenda

variable {α : Type}

def empty : Agenda α where
  ordered := fun _ _ _ => .refl _

def ofItems (items : Array (Appointment α)) : Agenda α where
  items := Heap.settleBelow items (items.size / 2)
  ordered := Heap.ordered_settleBelow (Heap.ordered_half items)

def add (due : Option Int) (what : α) (a : Agenda α) : Agenda α where
  items := Heap.rise 0 (a.items.push { due := due, what := what }) a.items.size
  calledOff := a.calledOff
  ordered := Heap.ordered_add a.ordered _

def top? (a : Agenda α) : Option (Appointment α) := a.items[0]?

def rest (a : Agenda α) : Agenda α where
  items := Heap.removeTop a.items
  calledOff := a.calledOff
  ordered := Heap.ordered_removeTop a.ordered

def strike (p : α → Bool) (item : Appointment α) : Appointment α :=
  { item with live := item.live && !p item.what }

def callOff (p : α → Bool) (a : Agenda α) : Agenda α where
  items := a.items.map (strike p)
  calledOff := a.calledOff + a.items.countP fun item => item.live && p item.what
  ordered := Heap.ordered_map (fun _ => rfl) a.ordered

/-- As long as what is at the top is called off, it is removed. -/
def clearTop : Nat → Agenda α → Agenda α
  | 0, a => a
  | fuel + 1, a =>
    match a.top? with
    | some item => if item.live then a else clearTop fuel { a.rest with calledOff := a.calledOff - 1 }
    | none => a

def longLength : Nat := 100

/-- Tidies up: if more than half of a long agenda is called off it is made anew, else the top is
cleared. -/
def tidy (a : Agenda α) : Agenda α :=
  if longLength < a.items.size ∧ a.items.size < 2 * a.calledOff then
    ofItems (a.items.filter fun item => item.live)
  else a.clearTop a.items.size

/-- Takes what falls due up to a moment off the top, in the order in which it comes there. -/
def takeDue (now : Nat) : Nat → Agenda α → List α × Agenda α
  | 0, a => ([], a)
  | fuel + 1, a =>
    match a.top? with
    | some item =>
      if item.isDue now then
        let (others, rest) := takeDue now fuel a.rest
        (if item.live then item.what :: others else others, rest)
      else ([], a)
    | none => ([], a)

def next? (a : Agenda α) : Option Int := a.top?.bind Appointment.due

end Agenda

end OplogRelay
