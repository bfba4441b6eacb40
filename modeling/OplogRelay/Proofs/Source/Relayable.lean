import Mathlib.Data.List.Basic
import OplogRelay.Source.Tail
/-!
What of a log is to be relayed, and what one look of a cursor has to do with it. The selection is
said without the cursor: documents below a threshold and no-ops are left out, the rest keeps its
order. A look passes a stretch of the log, and nothing in that stretch is left unaccounted for.
-/
namespace OplogRelay

namespace Document

/-- A document that has no timestamp is below no threshold. -/
def isBelow (threshold : Timestamp) (d : Document) : Bool :=
  match d.get? "ts" with
  | some (.timestamp ts) => !decide (threshold ≤ ts)
  | _ => false

def isFrom (threshold : Timestamp) (d : Document) : Bool :=
  match d.get? "ts" with
  | some (.timestamp ts) => decide (threshold ≤ ts)
  | _ => false

def isNoop (d : Document) : Bool :=
  match d.get? "op" with
  | some (.text code) => code == "n"
  | _ => false

def window (threshold : Timestamp) (docs : List Document) : List Document :=
  docs.filter (isFrom threshold)

/-- The documents of a log that are to be relayed from a threshold on. -/
def relayable (threshold : Timestamp) (docs : List Document) : List Document :=
  docs.filter fun d => !d.isBelow threshold && !d.isNoop

/-- A document that a cursor can get past: it has a timestamp, and it is an entry unless it is
below the threshold. -/
def IsReadable (threshold : Timestamp) (d : Document) : Prop :=
  ∃ ts, d.get? "ts" = some (.timestamp ts) ∧ (threshold ≤ ts → ∃ op, d.get? "op" = some op)

end Document

namespace Cursor

variable {threshold : Timestamp} {d : Document}

theorem reaches_eq_ok_iff {b : Bool} :
    reaches (.timestamp threshold) d = .ok b ↔
      ∃ ts, d.get? "ts" = some (.timestamp ts) ∧ b = decide (threshold ≤ ts) := by
  constructor
  · intro h
    cases hts : d.get? "ts" with
    | none => simp [reaches, hts] at h
    | some v =>
      cases v with
      | timestamp ts =>
        rw [reaches_timestamp hts] at h
        exact ⟨ts, rfl, (Except.ok.inj h).symm⟩
      | null => simp [reaches, hts, Value.relate, Value.amount?] at h
      | bool => simp [reaches, hts, Value.relate, Value.amount?] at h
      | number => simp [reaches, hts, Value.relate, Value.amount?] at h
      | text => simp [reaches, hts, Value.relate, Value.amount?] at h
      | array => simp [reaches, hts, Value.relate, Value.amount?] at h
      | document => simp [reaches, hts, Value.relate, Value.amount?] at h
  · rintro ⟨ts, hts, rfl⟩
    exact reaches_timestamp hts threshold

theorem isFrom_of_reaches {b : Bool} (h : reaches (.timestamp threshold) d = .ok b) :
    d.isFrom threshold = b := by
  obtain ⟨ts, hts, rfl⟩ := reaches_eq_ok_iff.mp h
  simp [Document.isFrom, hts]

theorem reaches_of_isFrom (h : d.isFrom threshold = true) :
    reaches (.timestamp threshold) d = .ok true := by
  unfold Document.isFrom at h
  split at h
  · next ts hts => rw [reaches_timestamp hts threshold, h]
  · cases h

theorem reaches_of_isBelow (h : d.isBelow threshold = true) :
    reaches (.timestamp threshold) d = .ok false := by
  unfold Document.isBelow at h
  split at h
  · next ts hts =>
    rw [reaches_timestamp hts threshold]
    simpa using h
  · cases h

end Cursor

theorem Document.IsReadable.isBelow {threshold : Timestamp} {d : Document}
    (h : d.IsReadable threshold) : d.isBelow threshold = !d.isFrom threshold := by
  obtain ⟨ts, hts, _⟩ := h
  simp [Document.isBelow, Document.isFrom, hts]

namespace Entry

theorem raw_of_ofDocument? {d : Document} {e : Entry} (h : ofDocument? d = .ok e) : e.raw = d := by
  unfold ofDocument? at h
  split at h
  · exact Except.ok.inj h ▸ rfl
  · cases h

theorem timestamp_of_ofDocument? {d : Document} {e : Entry} (h : ofDocument? d = .ok e) :
    d.get? "ts" = some e.timestamp := by
  unfold ofDocument? at h
  split at h
  · next hts _ => exact Except.ok.inj h ▸ hts
  · cases h

theorem operation_of_ofDocument? {d : Document} {e : Entry} (h : ofDocument? d = .ok e) :
    d.get? "op" = some e.operation := by
  unfold ofDocument? at h
  split at h
  · next hop => exact Except.ok.inj h ▸ hop
  · cases h

theorem ofDocument?_of_fields {d : Document} {ts op : Value} (hts : d.get? "ts" = some ts)
    (hop : d.get? "op" = some op) : ∃ e, ofDocument? d = .ok e := by
  simp [ofDocument?, hts, hop]

theorem isNoop_text (s : String) :
    ((OperationKind.all.find? fun k => k.code == s) == some .noop) = (s == "n") := by
  by_cases hs : s = "n"
  · subst s; decide
  · have hn : (OperationKind.all.find? fun k => k.code == s) ≠ some .noop := by
      intro h
      have hk : "n" = s := by simpa [OperationKind.code] using List.find?_some h
      exact hs hk.symm
    simp [hs, hn]

theorem isNoop_of_ofDocument? {d : Document} {e : Entry} (h : ofDocument? d = .ok e) :
    e.isNoop = d.isNoop := by
  have hop := operation_of_ofDocument? h
  unfold isNoop kind? Document.isNoop
  rw [hop]
  cases e.operation with
  | text s => exact isNoop_text s
  | null => rfl
  | bool => rfl
  | number => rfl
  | timestamp => rfl
  | array => rfl
  | document => rfl

def handedOut? (threshold : Timestamp) (d : Document) : Option Entry :=
  match Cursor.reaches (.timestamp threshold) d with
  | .ok true => (ofDocument? d).toOption
  | _ => none

/-- The entries that a stretch of the log comes to. -/
def handedOut (threshold : Timestamp) (docs : List Document) : List Entry :=
  docs.filterMap (handedOut? threshold)

def forwardable (threshold : Timestamp) (docs : List Document) : List Entry :=
  (handedOut threshold docs).filter fun e => !e.isNoop

variable {threshold : Timestamp}

@[simp]
theorem handedOut_append (a b : List Document) :
    handedOut threshold (a ++ b) = handedOut threshold a ++ handedOut threshold b := by
  simp [handedOut]

@[simp]
theorem forwardable_append (a b : List Document) :
    forwardable threshold (a ++ b) = forwardable threshold a ++ forwardable threshold b := by
  simp [forwardable]

theorem handedOut_below {docs : List Document}
    (h : ∀ d ∈ docs, Cursor.reaches (.timestamp threshold) d = .ok false) :
    handedOut threshold docs = [] := by
  refine List.filterMap_eq_nil_iff.mpr fun d hd => ?_
  simp [handedOut?, h d hd]

theorem handedOut_entry {d : Document} {e : Entry}
    (hr : Cursor.reaches (.timestamp threshold) d = .ok true) (he : ofDocument? d = .ok e) :
    handedOut threshold [d] = [e] := by
  simp [handedOut, handedOut?, hr, he, Except.toOption]

theorem handedOut_refused {d : Document}
    (h : (∃ e, Cursor.reaches (.timestamp threshold) d = .error e) ∨
      ∃ e, ofDocument? d = .error e) : handedOut threshold [d] = [] := by
  rcases h with ⟨e, h⟩ | ⟨e, h⟩
  · simp [handedOut, handedOut?, h]
  · have hd : handedOut? threshold d = none := by
      unfold handedOut?
      split
      · simp [h, Except.toOption]
      · rfl
    simp [handedOut, hd]

theorem forwardable_of_handedOut {docs : List Document} {es : List Entry}
    (h : handedOut threshold docs = es) :
    forwardable threshold docs = es.filter fun e => !e.isNoop := by
  rw [forwardable, h]

theorem mem_handedOut {docs : List Document} {e : Entry} (h : e ∈ handedOut threshold docs) :
    ∃ d ∈ docs, Cursor.reaches (.timestamp threshold) d = .ok true ∧ ofDocument? d = .ok e := by
  obtain ⟨d, hd, hout⟩ := List.mem_filterMap.mp h
  unfold handedOut? at hout
  split at hout
  · next hreach =>
    cases he : ofDocument? d with
    | error => simp [he, Except.toOption] at hout
    | ok e' =>
      obtain rfl : e' = e := by simpa [he, Except.toOption] using hout
      exact ⟨d, hd, hreach, he⟩
  · cases hout

theorem moment_of_mem_handedOut {docs : List Document} {e : Entry}
    (h : e ∈ handedOut threshold docs) : ∃ ts, e.timestamp = .timestamp ts := by
  obtain ⟨d, _, hreach, he⟩ := mem_handedOut h
  obtain ⟨ts, hts, _⟩ := Cursor.reaches_eq_ok_iff.mp hreach
  exact ⟨ts, Option.some.inj ((timestamp_of_ofDocument? he).symm.trans hts)⟩

theorem ofDocument?_raw {docs : List Document} {e : Entry} (h : e ∈ handedOut threshold docs) :
    ofDocument? e.raw = .ok e := by
  obtain ⟨d, _, _, he⟩ := mem_handedOut h
  rw [raw_of_ofDocument? he, he]

theorem ofDocument?_of_isReadable {d : Document} (hd : d.IsReadable threshold)
    (hfrom : d.isFrom threshold = true) : ∃ e, ofDocument? d = .ok e := by
  obtain ⟨ts, hts, hop⟩ := hd
  obtain ⟨op, hop⟩ := hop (by simpa [Document.isFrom, hts] using hfrom)
  exact ofDocument?_of_fields hts hop

theorem map_raw_handedOut? {d : Document} (h : d.IsReadable threshold) :
    (handedOut? threshold d).map raw = Option.guard (Document.isFrom threshold) d := by
  by_cases hfrom : d.isFrom threshold = true
  · obtain ⟨e, he⟩ := ofDocument?_of_isReadable h hfrom
    simp [handedOut?, Cursor.reaches_of_isFrom hfrom, he, Except.toOption, raw_of_ofDocument? he,
      Option.guard, hfrom]
  · have hbelow : d.isBelow threshold = true := by
      rw [h.isBelow]
      simpa using hfrom
    simp [handedOut?, Cursor.reaches_of_isBelow hbelow, Option.guard, hfrom]

theorem raw_handedOut {docs : List Document} (h : ∀ d ∈ docs, d.IsReadable threshold) :
    (handedOut threshold docs).map raw = Document.window threshold docs := by
  rw [handedOut, List.map_filterMap, Document.window, ← List.filterMap_eq_filter]
  exact List.filterMap_congr fun d hd => map_raw_handedOut? (h d hd)

theorem raw_forwardable {docs : List Document} (h : ∀ d ∈ docs, d.IsReadable threshold) :
    (forwardable threshold docs).map raw = Document.relayable threshold docs := by
  have hnoop : ∀ e ∈ handedOut threshold docs, (!e.isNoop) = !e.raw.isNoop := by
    intro e he
    rw [isNoop_of_ofDocument? (ofDocument?_raw he)]
  calc (forwardable threshold docs).map raw
      = ((handedOut threshold docs).filter fun e => !e.raw.isNoop).map raw := by
        rw [forwardable, List.filter_congr hnoop]
    _ = ((handedOut threshold docs).map raw).filter fun d => !d.isNoop := by
        rw [List.filter_map]
        rfl
    _ = (Document.window threshold docs).filter fun d => !d.isNoop := by rw [raw_handedOut h]
    _ = Document.relayable threshold docs := by
        rw [Document.window, List.filter_filter, Document.relayable]
        apply List.filter_congr
        intro d hd
        rw [(h d hd).isBelow, Bool.not_not, Bool.and_comm]

theorem raw_forwardable_take {docs : List Document} {n : Nat}
    (h : ∀ d ∈ docs.take n, d.IsReadable threshold) :
    (forwardable threshold (docs.take n)).map Entry.raw <+: Document.relayable threshold docs := by
  rw [raw_forwardable h]
  exact (List.take_prefix n docs).filter _

end Entry

namespace Cursor

/-- What one look comes to, told by the stretch of the log behind the cursor's place. -/
inductive Sees (o : Oplog) (c : Cursor) : Look → Oplog → Cursor → Prop where
  | ended : c.alive = false → Sees o c .ended o c
  | fault {f} : c.alive = true → o.fault = some f →
      Sees o c (.fault f) o.takeFault.2 { c with alive := false }
  | nothing : c.alive = true →
      (∀ d ∈ o.documents.drop c.position, reaches c.threshold d = .ok false) → Sees o c .nothing o
        { c with position := c.position + (o.documents.drop c.position).length }
  | document {below d above} : c.alive = true →
      o.documents.drop c.position = below ++ d :: above →
      (∀ b ∈ below, reaches c.threshold b = .ok false) → reaches c.threshold d = .ok true →
      Sees o c (.document d) o { c with position := c.position + (below.length + 1) }
  | unreadable {below d above e} : c.alive = true →
      o.documents.drop c.position = below ++ d :: above →
      (∀ b ∈ below, reaches c.threshold b = .ok false) → reaches c.threshold d = .error e →
      Sees o c (.unreadable e) o { c with position := c.position + (below.length + 1) }

theorem scan_cases (threshold : Value) (docs : List Document) :
    ((∀ d ∈ docs, reaches threshold d = .ok false) ∧
      scan threshold docs = (docs.length, .nothing)) ∨
    ∃ below d above, docs = below ++ d :: above ∧
      (∀ b ∈ below, reaches threshold b = .ok false) ∧
      ((reaches threshold d = .ok true ∧
          scan threshold docs = (below.length + 1, .document d)) ∨
        ∃ e, reaches threshold d = .error e ∧
          scan threshold docs = (below.length + 1, .unreadable e)) := by
  induction docs with
  | nil => exact .inl ⟨by simp, rfl⟩
  | cons d rest ih =>
    cases hd : reaches threshold d with
    | error e =>
      exact .inr ⟨[], d, rest, rfl, by simp, .inr ⟨e, hd, by simp [scan, hd]⟩⟩
    | ok b =>
      cases b with
      | true => exact .inr ⟨[], d, rest, rfl, by simp, .inl ⟨hd, by simp [scan, hd]⟩⟩
      | false =>
        rcases ih with ⟨hall, hs⟩ | ⟨below, x, above, rfl, hbelow, hx⟩
        · refine .inl ⟨?_, by simp [scan, hd, hs]⟩
          simpa [hd] using hall
        · refine .inr ⟨d :: below, x, above, rfl, by simpa [hd] using hbelow, ?_⟩
          rcases hx with ⟨hr, hs⟩ | ⟨e, hr, hs⟩
          · exact .inl ⟨hr, by simp [scan, hd, hs]⟩
          · exact .inr ⟨e, hr, by simp [scan, hd, hs]⟩

theorem look_sees (o : Oplog) (c : Cursor) :
    Sees o c (c.look o).1 (c.look o).2.1 (c.look o).2.2 := by
  by_cases ha : c.alive = true
  · rw [look, if_pos ha]
    cases hf : o.fault with
    | some f => exact .fault ha hf
    | none =>
      rcases scan_cases c.threshold (o.documents.drop c.position) with
        ⟨hall, hs⟩ | ⟨below, d, above, hlog, hbelow, ⟨hr, hs⟩ | ⟨e, hr, hs⟩⟩
      · simp only [hs]
        exact .nothing ha hall
      · simp only [hs]
        exact .document ha hlog hbelow hr
      · simp only [hs]
        exact .unreadable ha hlog hbelow hr
  · rw [look, if_neg ha]
    exact .ended (by simpa using ha)

end Cursor

section Stretch

variable {docs below above : List Document} {d : Document} {n : Nat}

theorem take_past (h : docs.drop n = below ++ d :: above) :
    docs.take (n + (below.length + 1)) = docs.take n ++ (below ++ [d]) := by
  rw [List.take_add, h, List.append_cons]
  congr 1
  exact List.take_left' (by simp)

theorem position_within (h : docs.drop n = below ++ d :: above) (hn : n ≤ docs.length) :
    n + (below.length + 1) ≤ docs.length := by
  have hlen := congrArg List.length h
  simp only [List.length_drop, List.length_append, List.length_cons] at hlen
  omega

end Stretch

end OplogRelay
