import Mathlib.Data.List.DropRight
import OplogRelay.Batch
/-!
What a batch holds, whatever was done with it. Entries are offered and the batch is cleared, in any order, and
an entry may well be offered to a batch that is full. It holds the entries that it took since it was last
cleared, in their order, and says once that it is full.
-/
namespace OplogRelay.Batch

/-- What an add comes to, by the room that there is. -/
inductive Adds (b : Batch) (e : Entry) : Except MisuseError Bool → Batch → Prop where
  | refused : b.size = b.capacity → Adds b e (.error .batchFull) b
  | taken : b.size < b.capacity →
      Adds b e (.ok (decide (b.size + 1 = b.capacity))) { b with entries := b.entries ++ [e] }

/-- What is promised of an add to a batch for `m` entries: what it tells, and what it leaves. -/
structure Answers (m : Nat) (b : Batch) (e : Entry) (told : Except MisuseError Bool) (b' : Batch) :
    Prop where
  full_iff : told = .ok true ↔ b.entries.length ≠ m ∧ b'.entries.length = m
  overflow_iff : told = .error .batchFull ↔ b.entries.length = m
  refuses : b.entries.length = m → b' = b
  takes : b.entries.length ≠ m → (∃ full, told = .ok full) ∧ b'.entries = b.entries ++ [e]

variable {b b' : Batch} {e : Entry} {told : Except MisuseError Bool}

theorem adds (e : Entry) (h : b.size ≤ b.capacity) : b.Adds e (b.add e).1 (b.add e).2 := by
  by_cases hroom : b.size < b.capacity
  · have hfull : isFull { b with entries := b.entries ++ [e] } = decide (b.size + 1 = b.capacity) := by
      have hsize : size { b with entries := b.entries ++ [e] } = b.size + 1 := by simp [size]
      simp only [isFull, hsize]
      exact decide_eq_decide.mpr (by omega)
    rw [add_of_lt hroom, hfull]
    exact .taken hroom
  · rw [add_of_le (Nat.le_of_not_lt hroom)]
    exact .refused (by omega)

theorem Adds.answers (h : b.Adds e told b') : Answers b.capacity b e told b' := by
  cases h with
  | refused hsize =>
    have hlength : b.entries.length = b.capacity := hsize
    constructor
    · simp [hlength]
    · simp [hlength]
    · intro _
      rfl
    · intro hroom
      exact absurd hlength hroom
  | taken hsize =>
    have hroom : b.entries.length ≠ b.capacity := Nat.ne_of_lt hsize
    constructor
    · rw [Except.ok.injEq, decide_eq_true_iff, List.length_append]
      exact ⟨fun hlast => ⟨hroom, hlast⟩, fun hfull => hfull.2⟩
    · simp [hroom]
    · intro hlength
      exact absurd hlength hroom
    · intro _
      exact ⟨⟨_, rfl⟩, rfl⟩

inductive Action where
  | add (e : Entry)
  | clear

/-- Something that was done, with what was told of it. -/
inductive Deed where
  | added (e : Entry) (told : Except MisuseError Bool)
  | cleared

namespace Deed

def isAdd : Deed → Bool
  | added _ _ => true
  | cleared => false

def offered? : Deed → Option Entry
  | added e _ => some e
  | cleared => none

def accepted? : Deed → Option Entry
  | added e (.ok _) => some e
  | _ => none

def tellsFull : Deed → Bool
  | added _ (.ok full) => full
  | _ => false

theorem isAdd_of_notMem {deeds : List Deed} (h : .cleared ∉ deeds) : ∀ d ∈ deeds, d.isAdd = true := by
  intro d hd
  cases d with
  | added => rfl
  | cleared => exact absurd hd h

end Deed

/-- A batch, and all that was done with it. -/
structure Ledger where
  batch : Batch
  deeds : List Deed := []

namespace Ledger

def perform (l : Ledger) : Action → Ledger
  | .add e => { batch := (l.batch.add e).2, deeds := l.deeds ++ [.added e (l.batch.add e).1] }
  | .clear => { batch := l.batch.clear, deeds := l.deeds ++ [.cleared] }

def after (b : Batch) (actions : List Action) : Ledger := actions.foldl perform { batch := b }

/-- The adds since the batch was last cleared. -/
def sinceClear (l : Ledger) : List Deed := l.deeds.rtakeWhile Deed.isAdd

/-- The entries that the batch was offered since it was last cleared. -/
def offered (l : Ledger) : List Entry := l.sinceClear.filterMap Deed.offered?

def accepted (l : Ledger) : List Entry := l.sinceClear.filterMap Deed.accepted?

/-- The invariant of a batch for `m` entries. That it is full was told once since the last clear, or not at all
if it is not full. -/
structure Sound (m : Nat) (l : Ledger) : Prop where
  capacity : l.batch.capacity = m
  within : l.batch.size ≤ m
  entries : l.batch.entries = l.accepted
  first : l.batch.entries = l.offered.take m
  told : l.sinceClear.countP Deed.tellsFull = if l.batch.size = m then 1 else 0

variable {m : Nat} {l : Ledger} {stretch : List Deed}

theorem sound_new (hm : 1 ≤ m) : Sound m { batch := { capacity := m } } := by
  constructor
  · rfl
  · exact Nat.zero_le m
  · rfl
  · exact List.take_nil.symm
  · exact (if_neg (Nat.ne_of_lt hm)).symm

theorem Sound.clear (h : l.Sound m) (hm : 1 ≤ m) : Sound m (l.perform .clear) := by
  have hsince : (l.perform .clear).sinceClear = [] :=
    List.rtakeWhile_concat_neg _ _ _ Bool.false_ne_true
  constructor
  · exact h.capacity
  · exact Nat.zero_le m
  · rw [accepted, hsince]
    rfl
  · rw [offered, hsince]
    exact List.take_nil.symm
  · rw [hsince]
    exact (if_neg (Nat.ne_of_lt hm)).symm

/-- A batch that refuses an entry was offered `m` before it; one that takes it took all that it was offered. -/
theorem Sound.added (h : l.Sound m) (hadds : l.batch.Adds e told b') :
    Sound m { batch := b', deeds := l.deeds ++ [.added e told] } := by
  have hsince : sinceClear { batch := b', deeds := l.deeds ++ [.added e told] } =
      l.sinceClear ++ [.added e told] := List.rtakeWhile_concat_pos _ _ _ rfl
  have hoffered : offered { batch := b', deeds := l.deeds ++ [.added e told] } = l.offered ++ [e] := by
    rw [offered, hsince, List.filterMap_append]
    rfl
  have hsize : l.batch.size = min m l.offered.length := by
    rw [size, h.first, List.length_take]
  have hcapacity := h.capacity
  cases hadds with
  | refused hfull =>
    constructor
    · exact hcapacity
    · exact h.within
    · rw [accepted, hsince, List.filterMap_append, ← accepted, ← h.entries]
      exact (List.append_nil _).symm
    · rw [hoffered, List.take_append_of_le_length (by omega)]
      exact h.first
    · rw [hsince, List.countP_append, h.told]
      rfl
  | taken hroom =>
    have hall : l.offered.length < m := by omega
    have htells : Deed.tellsFull (.added e (.ok (decide (l.batch.size + 1 = l.batch.capacity)))) = true ↔
        size { l.batch with entries := l.batch.entries ++ [e] } = m := by
      rw [Deed.tellsFull, decide_eq_true_iff, hcapacity, size, size, List.length_append]
      rfl
    constructor
    · exact hcapacity
    · rw [size, List.length_append]
      exact hcapacity ▸ hroom
    · rw [accepted, hsince, List.filterMap_append, ← accepted, ← h.entries]
      rfl
    · rw [hoffered, List.take_of_length_le (by rw [List.length_append]; exact hall), h.first,
        List.take_of_length_le (Nat.le_of_lt hall)]
    · -- Nothing was told before, as there was room.
      rw [hsince, List.countP_append, h.told, if_neg (by omega), Nat.zero_add, List.countP_singleton]
      exact if_congr htells rfl rfl

theorem Sound.perform (h : l.Sound m) (hm : 1 ≤ m) (action : Action) : Sound m (l.perform action) := by
  cases action with
  | add e => exact h.added (adds e (h.capacity ▸ h.within))
  | clear => exact h.clear hm

theorem sound_after (hm : 1 ≤ m) (actions : List Action) : Sound m (after { capacity := m } actions) := by
  induction actions using List.reverseRecOn with
  | nil => exact sound_new hm
  | append_singleton actions action ih =>
    rw [after, List.foldl_append]
    exact ih.perform hm action

theorem Sound.told_le (h : l.Sound m) : l.sinceClear.countP Deed.tellsFull ≤ 1 := by
  rw [h.told]
  split
  · exact Nat.le_refl 1
  · exact Nat.zero_le 1

theorem countP_le_of_suffix (h : stretch <:+ l.deeds) (hkept : .cleared ∉ stretch) :
    stretch.countP Deed.tellsFull ≤ l.sinceClear.countP Deed.tellsFull := by
  obtain ⟨before, hdeeds⟩ := h
  have hadds : ∀ d ∈ stretch.reverse, d.isAdd = true := by
    intro d hd
    exact Deed.isAdd_of_notMem hkept d (List.mem_reverse.mp hd)
  have hsince : l.sinceClear = before.rtakeWhile Deed.isAdd ++ stretch := by
    rw [sinceClear, ← hdeeds, List.rtakeWhile, List.reverse_append, List.takeWhile_append_of_pos hadds,
      List.reverse_append, List.reverse_reverse]
    rfl
  rw [hsince, List.countP_append]
  exact Nat.le_add_left _ _

theorem infix_perform {action : Action} (h : stretch <:+: (l.perform action).deeds) :
    stretch <:+ (l.perform action).deeds ∨ stretch <:+: l.deeds := by
  cases action with
  | add e => exact List.infix_concat_iff.mp h
  | clear => exact List.infix_concat_iff.mp h

theorem tells_once (hm : 1 ≤ m) (actions : List Action)
    (h : stretch <:+: (after { capacity := m } actions).deeds) (hkept : .cleared ∉ stretch) :
    stretch.countP Deed.tellsFull ≤ 1 := by
  induction actions using List.reverseRecOn with
  | nil =>
    rw [List.infix_nil.mp h]
    exact Nat.zero_le 1
  | append_singleton actions action ih =>
    have hsound := sound_after hm (actions ++ [action])
    rw [after, List.foldl_append] at h hsound
    rcases infix_perform h with hlast | hbefore
    · exact (countP_le_of_suffix hlast hkept).trans hsound.told_le
    · exact ih hbefore

/-- What is promised of a batch for `m` entries and of what was done with it. Of all that it was offered since
the last clear it holds the first `m`; that it is full is told once at most between two clears. -/
structure Keeps (m : Nat) (l : Ledger) : Prop where
  entries : l.batch.entries = l.accepted
  first : l.batch.entries = l.offered.take m
  within : l.batch.entries.length ≤ m
  answers : ∀ e, Answers m l.batch e (l.batch.add e).1 (l.batch.add e).2
  full_iff : l.batch.isFull = true ↔ l.batch.entries.length = m
  empty_iff : l.batch.isEmpty = true ↔ l.batch.entries = []
  stats : l.batch.stats = [("buffered", .nat l.batch.entries.length), ("max_batch_size", .nat m)]
  once : ∀ stretch, stretch <:+: l.deeds → .cleared ∉ stretch → stretch.countP Deed.tellsFull ≤ 1

theorem Sound.answers (h : l.Sound m) (e : Entry) :
    Answers m l.batch e (l.batch.add e).1 (l.batch.add e).2 := by
  have hcapacity := h.capacity
  subst hcapacity
  exact (adds e h.within).answers

theorem Sound.full_iff (h : l.Sound m) : l.batch.isFull = true ↔ l.batch.entries.length = m := by
  rw [isFull_iff, h.capacity]
  exact ⟨fun hfull => Nat.le_antisymm h.within hfull, fun hlength => Nat.le_of_eq hlength.symm⟩

theorem Sound.stats (h : l.Sound m) :
    l.batch.stats = [("buffered", .nat l.batch.entries.length), ("max_batch_size", .nat m)] := by
  rw [Batch.stats, h.capacity]
  rfl

end Ledger

/-- A batch can be made for any number of entries but none. Whatever is then offered to it, and whenever it is
cleared, it holds what it took since the last clear, refuses an entry only if it is full and then stays as it
is, and says of the entry that fills it, and of no other, that it is full. -/
theorem holds_what_it_took {m : Nat} (hm : 1 ≤ m) :
    ∃ fresh, make? m = .ok fresh ∧ ∀ actions, (Ledger.after fresh actions).Keeps m := by
  have hmake : make? m = .ok { capacity := m } := by
    rw [make?, if_neg (by omega), Int.toNat_natCast]
  refine ⟨{ capacity := m }, hmake, fun actions => ?_⟩
  have hsound := Ledger.sound_after hm actions
  constructor
  · exact hsound.entries
  · exact hsound.first
  · exact hsound.within
  · exact hsound.answers
  · exact hsound.full_iff
  · exact List.isEmpty_iff
  · exact hsound.stats
  · intro stretch h hkept
    exact Ledger.tells_once hm actions h hkept

def numbered (n : UInt32) : Entry where
  timestamp := .timestamp (.ofWords n 1)
  operation := .text "i"
  ns := .text "app.users"
  payload := .document [("_id", .nat n.toNat)]
  selector := .null
  raw := [("ts", .timestamp (.ofWords n 1)), ("op", .text "i")]

def overfilling : List Action := [.add (numbered 1), .add (numbered 2), .add (numbered 3)]

theorem holds_what_it_took_overfilled :
    1 ≤ 2 ∧ ∃ fresh, make? 2 = .ok fresh ∧
      (Ledger.after fresh overfilling).batch.entries = [numbered 1, numbered 2] ∧
      ((Ledger.after fresh overfilling).batch.add (numbered 4)).1 = .error .batchFull ∧
      (Ledger.after fresh overfilling).deeds.countP Deed.tellsFull ≤ 1 ∧
      (Ledger.after fresh (overfilling ++ [.clear, .add (numbered 3)])).batch.entries = [numbered 3] := by
  have hm : 1 ≤ 2 := by decide
  obtain ⟨fresh, hmake, hkeeps⟩ := holds_what_it_took hm
  have hfresh : fresh = { capacity := 2 } := (Except.ok.inj hmake).symm
  subst hfresh
  have hfilled := hkeeps overfilling
  have hentries : (Ledger.after { capacity := 2 } overfilling).batch.entries = [numbered 1, numbered 2] :=
    hfilled.entries
  refine ⟨hm, _, hmake, hentries, ?_, ?_, (hkeeps _).entries⟩
  · apply (hfilled.answers (numbered 4)).overflow_iff.mpr
    rw [hentries]
    rfl
  · apply hfilled.once
    · exact List.infix_rfl
    · intro hcleared
      simp [Ledger.after, Ledger.perform, overfilling] at hcleared

end OplogRelay.Batch
