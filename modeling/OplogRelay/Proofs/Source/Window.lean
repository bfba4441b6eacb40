import OplogRelay.Proofs.Number.Magnitudes
import OplogRelay.Proofs.Source.Delivery
import OplogRelay.Proofs.Source.Sharing
import OplogRelay.Source.Query
/-!
The window of a tail. It begins with a whole second, so a document is in it or not whatever its counter says;
and as packing keeps the order of timestamps, packed forms select the same documents. A cursor that is opened
on the window returns the documents in it, all of them and no others.
-/
namespace OplogRelay

namespace Timestamp

variable {a b : Timestamp}

theorem packed_eq_shift_or (t : Timestamp) : t.packed = t.seconds <<< 32 ||| t.counter := by
  rw [← Nat.shiftLeft_add_eq_or_of_lt t.counter_lt, Nat.shiftLeft_eq]
  rfl

theorem packed_lt_packed :
    a.packed < b.packed ↔ a.seconds < b.seconds ∨ a.seconds = b.seconds ∧ a.counter < b.counter := by
  have ha := a.counter_lt
  have hb := b.counter_lt
  unfold packed
  omega

end Timestamp

/-- The whole second that a reading of the clock lies in. -/
def Quantity.IsWithin (now : Quantity) (second : Int) : Prop :=
  ((Quantity.whole second).order? now).any Ordering.isLE = true ∧
    (now.order? (.whole (second + 1))).any Ordering.isLT = true

theorem Quantity.isWithin_iff {now : Quantity} {second : Int} (h : now.isFinite = true) :
    now.IsWithin second ↔
      second * (Binary64.one : Int) ≤ now.steps ∧ now.steps < (second + 1) * (Binary64.one : Int) := by
  unfold IsWithin
  rw [order?_of_isFinite rfl h, order?_of_isFinite h rfl, Option.any_some, Option.any_some,
    Int.isLE_compare, Ordering.isLT_iff_eq_lt, Int.compare_eq_lt]
  rfl

theorem Quantity.IsReading.isWithin {now : Quantity} {second : Int} (h : now.IsReading)
    (hpart : now.integerPart? = .ok second) : now.IsWithin second := by
  rw [isWithin_iff h.isFinite]
  have hone : 0 < (Binary64.one : Int) := Int.natCast_pos.mpr Binary64.one_pos
  have hlow := h.steps.1
  cases now with
  | whole n =>
    obtain rfl : n = second := Except.ok.inj hpart
    exact ⟨Int.le_refl _, Int.mul_lt_mul_of_pos_right (Int.lt_succ n) hone⟩
  | real x =>
    cases x with
    | nan => cases hpart
    | infinity negative => cases hpart
    | finite negative units =>
      obtain rfl : Binary64.truncate negative units = second := Except.ok.inj hpart
      unfold Binary64.truncate
      cases negative with
      | true =>
        -- what is not below zero and has a minus sign is zero
        have hneg : 0 ≤ -(units : Int) := hlow
        obtain rfl : units = 0 := by omega
        have hsteps : (Quantity.real (.finite true 0)).steps = 0 := rfl
        simpa [hsteps] using hone
      | false =>
        have hdiv : units / Binary64.one * Binary64.one ≤ units := Nat.div_mul_le_self _ _
        have hnext : units < (units / Binary64.one + 1) * Binary64.one := by
          rw [Nat.mul_comm]
          exact Nat.lt_mul_div_succ units Binary64.one_pos
        have hsteps : (Quantity.real (.finite false units)).steps = (units : Int) := rfl
        rw [if_neg Bool.false_ne_true, hsteps]
        exact ⟨by exact_mod_cast hdiv, by exact_mod_cast hnext⟩

def Document.isSince (second : Int) (d : Document) : Bool :=
  match d.get? "ts" with
  | some (.timestamp ts) => decide (second ≤ ts.seconds)
  | _ => false

theorem Document.isSince_iff {second : Int} {d : Document} {ts : Timestamp}
    (hts : d.get? "ts" = some (.timestamp ts)) : d.isSince second = true ↔ second ≤ ts.seconds := by
  simp [isSince, hts]

theorem Document.isFrom_eq_isSince {first : Timestamp} {second : Int} (hcounter : first.counter = 0)
    (hseconds : first.seconds = max 0 second) : isFrom first = isSince second := by
  funext d
  cases hts : d.get? "ts" with
  | none => simp [isFrom, isSince, hts]
  | some v =>
    cases v with
    | timestamp ts =>
      have hiff : first ≤ ts ↔ second ≤ ts.seconds := by
        rw [Timestamp.le_iff_of_counter hcounter]
        omega
      simp [isFrom, isSince, hts, hiff]
    | _ => simp [isFrom, isSince, hts]

namespace Cursor

theorem selects_eq_isFrom (first : Timestamp) : selects (.timestamp first) = Document.isFrom first := by
  funext d
  cases hfrom : d.isFrom first with
  | true => simp [selects, reaches_of_isFrom hfrom]
  | false =>
    unfold selects
    split
    · next reached hreach => rw [← isFrom_of_reaches hreach, hfrom]
    · rfl

end Cursor

namespace Opening

variable {o : Opening} {second : Int}

theorem tail_eq (hback : 0 ≤ o.lookback) (hoplog : o.hasOplog = true) (hfault : o.fault = none)
    (hpart : o.clock.integerPart? = .ok second) (hhigh : second < 0x100000000) (ns : Namespace)
    (idle : Quantity) (now : Nat) :
    ∃ first events, first.seconds = max 0 (second - o.lookback) ∧ first.counter = 0 ∧
      o.tail ns idle now = (events, .ok (.start ns first idle now)) := by
  obtain ⟨first, hfirst, hseconds, hcounter⟩ := Window.threshold?_eq_ok hback hpart hhigh
  exact ⟨first, _, hseconds, hcounter, by simp only [tail, hfirst, hoplog, hfault, if_true]; rfl⟩

/-- A tail is opened on the documents since the second that lies its look-back before the one that the clock
is in. They are those whose packed timestamp is not below that of the first one. A cursor with the threshold of
the tail returns these documents of its log, whatever is done to it, and comes to the last of them if it looks
on; and it is these that the tail hands out. -/
theorem opens_on_window (hback : 0 ≤ o.lookback) (hclock : o.clock.IsReading) (hoplog : o.hasOplog = true)
    (hfault : o.fault = none) (ns : Namespace) (idle : Quantity) (now : Nat) :
    (∃ second events t, o.clock.integerPart? = .ok second ∧ o.clock.IsWithin second ∧
      o.tail ns idle now = (events, .ok t) ∧
      Query.threshold? (Query.fromThreshold t.threshold) = .ok t.cursor.threshold ∧
      (t.threshold.packed : Int) = max 0 (second - o.lookback) * 0x100000000 ∧
      (∀ (d : Document) (ts : Timestamp), d.get? "ts" = some (.timestamp ts) →
        (d.isSince (second - o.lookback) = true ↔ second - o.lookback ≤ ts.seconds) ∧
        (d.isSince (second - o.lookback) = true ↔ t.threshold.packed ≤ ts.packed) ∧
        (second ≤ o.lookback → d.isSince (second - o.lookback) = true)) ∧
      (∀ l, CursorSet.Ledger.Reachable l → ∀ (i : Nat) (c : Cursor), l.set.cursors[i]? = some c →
        c.threshold = t.cursor.threshold →
        l.returnedBy i <+: l.set.oplog.documents.filter (Document.isSince (second - o.lookback)) ∧
        (c.alive = true → l.set.oplog.fault = none →
          ((fun m : CursorSet.Ledger => m.look i)^[l.set.oplog.documents.length] l).returnedBy i =
            l.set.oplog.documents.filter (Document.isSince (second - o.lookback)))) ∧
      ∀ d, Delivery.Reachable t.threshold idle d →
        d.entries.map Entry.raw <+:
          d.oplog.documents.filter (Document.isSince (second - o.lookback))) ∧
    (∀ a : Timestamp, a.packed = a.seconds <<< 32 ||| a.counter ∧ a.packed < 2 ^ 64) ∧
    Function.Injective Timestamp.packed ∧
    ∀ a b : Timestamp,
      a.packed < b.packed ↔ a.seconds < b.seconds ∨ a.seconds = b.seconds ∧ a.counter < b.counter := by
  refine ⟨?_, fun a => ⟨a.packed_eq_shift_or, a.packed_lt⟩, fun _ _ => Timestamp.eq_of_packed,
    fun _ _ => Timestamp.packed_lt_packed⟩
  obtain ⟨second, hpart, _, hhigh⟩ := hclock.integerPart?
  obtain ⟨first, events, hseconds, hcounter, htail⟩ :=
    tail_eq hback hoplog hfault hpart hhigh ns idle now
  have hwindow := Document.isFrom_eq_isSince hcounter hseconds
  refine ⟨second, events, _, hpart, hclock.isWithin hpart, htail, rfl, ?_, ?_, ?_, ?_⟩
  · show (first.packed : Int) = _
    rw [Timestamp.packed, hcounter]
    push_cast
    omega
  · intro d ts hts
    refine ⟨Document.isSince_iff hts, ?_, ?_⟩
    · rw [← hwindow, Timestamp.packed_le_packed]
      simp [Document.isFrom, hts, Tail.start]
    · intro hall
      rw [Document.isSince_iff hts]
      omega
  · intro l hl i c hc hthreshold
    have hsound := CursorSet.Ledger.reachable_sound hl
    have hselects : Cursor.selects c.threshold = Document.isSince (second - o.lookback) := by
      rw [hthreshold, ← hwindow, ← Cursor.selects_eq_isFrom]
      rfl
    rw [← hselects]
    exact ⟨(hsound.stands i c hc).isPrefix, hsound.returns_all hc⟩
  · intro d hd
    obtain ⟨n, hcovers, _⟩ := (Delivery.reachable_sound hd).covers
    rw [← hwindow]
    exact hcovers.isPrefix

/-- The clock stands half a second after 1700000100, and the window is a minute. -/
def minute : Opening where
  lookback := 60
  clock := .real (.ofDecimal false 17000001005 (-1))

def turn (threshold await : Value) : CursorSet.Ledger where
  set := (({} : CursorSet).append <| [(39, 4294967295), (40, 0), (40, 7)].map fun (second, counter) =>
    [("ts", .timestamp (.ofWords (1700000000 + second) counter))]).tail threshold await

theorem reachable_turn (threshold await : Value) : CursorSet.Ledger.Reachable (turn threshold await) :=
  .step (.step .start (.append _)) (.tail _ _)

theorem opens_on_window_minute :
    minute.clock.IsReading ∧ ∃ events t, minute.tail ⟨"local", "oplog.rs"⟩ (.whole 5) 0 = (events, .ok t) ∧
      t.threshold.packed = 1700000040 * 2 ^ 32 ∧
      ((fun m : CursorSet.Ledger => m.look 0)^[3] (turn t.cursor.threshold t.cursor.await)).returnedBy 0 =
        (turn t.cursor.threshold t.cursor.await).set.oplog.documents.drop 1 := by
  have hclock : minute.clock.IsReading := ⟨by decide +kernel, by decide +kernel⟩
  have hpart : minute.clock.integerPart? = .ok 1700000100 := by decide +kernel
  obtain ⟨⟨second, events, t, hsecond, _, htail, _, hpacked, _, hreturns, _⟩, _⟩ :=
    opens_on_window (o := minute) (by decide) hclock rfl rfl ⟨"local", "oplog.rs"⟩ (.whole 5) 0
  obtain rfl : second = 1700000100 := Except.ok.inj (hsecond.symm.trans hpart)
  refine ⟨hclock, events, t, htail, ?_, ?_⟩
  · have hstart : max 0 ((1700000100 : Int) - minute.lookback) = 1700000040 := by decide
    rw [hstart] at hpacked
    omega
  · exact ((hreturns _ (reachable_turn _ _) 0 _ rfl rfl).2 rfl rfl).trans (by rfl)

end Opening

end OplogRelay
