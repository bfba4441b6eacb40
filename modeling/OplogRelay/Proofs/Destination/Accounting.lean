import Mathlib.Algebra.GroupWithZero.Nat
import OplogRelay.Applier
/-!
The accounts of an applier. Each batch that is not empty is sent in one command, and counted as a whole or
not at all: once its reply says that it was applied, and else never. What a caller is told of a batch does
not depend on the batches before it; it is told of the last entry of a batch that was counted, and that this
has no moment, if its timestamp is none.
-/
namespace OplogRelay

/-- The timestamp of an entry is one, whatever its document may hold. -/
def Entry.IsDated (e : Entry) : Prop := ∃ ts, e.timestamp = .timestamp ts

theorem Entry.IsDated.moment? {e : Entry} (h : e.IsDated) : ∃ moment, e.moment? = .ok moment := by
  obtain ⟨ts, hts⟩ := h
  exact ⟨ts, by rw [Entry.moment?, hts]; rfl⟩

namespace Applier

/-- A batch, and what its session answers if it is asked. -/
structure Call where
  batch : List Entry
  answer : Answer

/-- The command that was sent for a call, if one was, and what the caller was told. -/
structure Report where
  command : Option Command
  outcome : Except Failure Verdict

namespace Call

def isSent (c : Call) : Bool := !c.batch.isEmpty

def isApplied (c : Call) : Bool :=
  match c.answer with
  | .reply r => c.isSent && Reply.accepts r
  | .fault _ => false

/-- One command with the documents of the batch as they were read, in order; none for an empty batch. -/
def command? (c : Call) : Option Command :=
  if c.isSent then some (.applyOps (.array (c.batch.map fun e => .document e.raw))) else none

def lastTimestamp (c : Call) : Value := (c.batch.getLast?.map Entry.timestamp).getD .null

def IsDated (c : Call) : Prop := ∀ e ∈ c.batch.getLast?, e.IsDated

/-- What a caller is told of a call. -/
inductive Tells (c : Call) : Except Failure Verdict → Prop where
  | empty : c.isSent = false → Tells c (.error (.misuse .emptyBatch))
  | fault {f} : c.isSent = true → c.answer = .fault f → Tells c (.error (.ofApplyFault f))
  | rejected {r} : c.isSent = true → c.answer = .reply r → Reply.accepts r = false →
      Tells c (.ok (.rejected (Reply.reason r)))
  | applied {last moment} : c.isApplied = true → c.batch.getLast? = some last →
      last.moment? = .ok moment → Tells c (.ok (.applied c.batch.length moment))
  | undated {last e} : c.isApplied = true → c.batch.getLast? = some last →
      last.moment? = .error e → Tells c (.error (.kind e))

end Call

def call (a : Applier) (c : Call) : Report × Applier :=
  let (command, outcome, a') := a.apply c.batch c.answer
  (⟨command, outcome⟩, a')

/-- Calls one after the other, with a report of each. -/
def serve (a : Applier) : List Call → List Report × Applier
  | [] => ([], a)
  | c :: rest =>
    let (report, next) := a.call c
    let (reports, last) := next.serve rest
    (report :: reports, last)

def reports (calls : List Call) : List Report := (serve {} calls).1

def after (calls : List Call) : Applier := (serve {} calls).2

variable {a : Applier} {c : Call} {calls : List Call}

theorem Call.not_applied_of_unsent (c : Call) (h : c.isSent = false) : c.isApplied = false := by
  unfold isApplied
  split
  · rw [h, Bool.false_and]
  · rfl

/-- What a call does to the accounts of an applier, and what is told of it. -/
structure Accounts (a : Applier) (c : Call) (report : Report) (a' : Applier) : Prop where
  command : report.command = c.command?
  tells : c.Tells report.outcome
  calls : a'.calls = a.calls + if c.isSent then 1 else 0
  total : a'.total = a.total + if c.isApplied then c.batch.length else 0
  last : a'.last = if c.isApplied then c.lastTimestamp else a.last

theorem accounts_of_empty (h : c.batch = []) : a.Accounts c (a.call c).1 (a.call c).2 := by
  have hsent : c.isSent = false := by simp [Call.isSent, h]
  have happlied := c.not_applied_of_unsent hsent
  have hcall : a.call c = (⟨none, .error (.misuse .emptyBatch)⟩, a) := by
    simp [call, apply, send?, h]
  rw [hcall]
  refine ⟨?_, .empty hsent, ?_, ?_, ?_⟩
  · simp [Call.command?, hsent]
  · simp [hsent]
  · simp [happlied]
  · simp [happlied]

/-- A batch with a last entry is sent, and its answer decides everything else. -/
theorem accounts_of_sent {last : Entry} (h : c.batch.getLast? = some last) :
    a.Accounts c (a.call c).1 (a.call c).2 := by
  have hne : c.batch ≠ [] := by
    intro hnil
    simp [hnil] at h
  have hsent : c.isSent = true := by simp [Call.isSent, hne]
  have hcommand : some (Command.ofBatch c.batch) = c.command? := by
    simp [Call.command?, hsent, Command.ofBatch]
  have hcall : a.call c =
      (⟨some (Command.ofBatch c.batch), ({ a with calls := a.calls + 1 }.receive c.batch c.answer).1⟩,
        ({ a with calls := a.calls + 1 }.receive c.batch c.answer).2) := by
    simp [call, apply, send?, hne]
  rw [hcall]
  cases hanswer : c.answer with
  | fault f =>
    have happlied : c.isApplied = false := by simp [Call.isApplied, hanswer]
    refine ⟨hcommand, .fault hsent hanswer, ?_, ?_, ?_⟩
    · simp [receive, hsent]
    · simp [receive, happlied]
    · simp [receive, happlied]
  | reply r =>
    by_cases haccepts : Reply.accepts r = true
    · have happlied : c.isApplied = true := by simp [Call.isApplied, hanswer, hsent, haccepts]
      refine ⟨hcommand, ?_, ?_, ?_, ?_⟩
      · cases hmoment : last.moment? with
        | ok moment =>
          simp only [receive, h, haccepts, if_true, hmoment]
          exact .applied happlied h hmoment
        | error e =>
          simp only [receive, h, haccepts, if_true, hmoment]
          exact .undated happlied h hmoment
      · simp [receive, h, haccepts, record, hsent]
      · simp [receive, h, haccepts, record, happlied]
      · simp [receive, h, haccepts, record, happlied, Call.lastTimestamp]
    · have hrejects : Reply.accepts r = false := by simpa using haccepts
      have happlied : c.isApplied = false := by simp [Call.isApplied, hanswer, hrejects]
      refine ⟨hcommand, ?_, ?_, ?_, ?_⟩
      · simp only [receive, h, hrejects, Bool.false_eq_true, if_false]
        exact .rejected hsent hanswer hrejects
      · simp [receive, h, hrejects, hsent]
      · simp [receive, h, hrejects, happlied]
      · simp [receive, h, hrejects, happlied]

theorem accounts_call (a : Applier) (c : Call) : a.Accounts c (a.call c).1 (a.call c).2 := by
  cases h : c.batch.getLast? with
  | none => exact accounts_of_empty (List.getLast?_eq_none_iff.mp h)
  | some last => exact accounts_of_sent h

theorem Call.Tells.not_applied {outcome : Except Failure Verdict} (h : c.Tells outcome)
    (hdated : c.IsDated) (hnot : ∀ count last, outcome ≠ .ok (.applied count last)) :
    c.isApplied = false := by
  cases h with
  | empty hsent => exact c.not_applied_of_unsent hsent
  | fault _ hanswer => simp [isApplied, hanswer]
  | rejected _ hanswer hrejects => simp [isApplied, hanswer, hrejects]
  | applied => exact absurd rfl (hnot _ _)
  | undated _ hlast hmoment =>
    obtain ⟨moment, hok⟩ := (hdated _ hlast).moment?
    cases hmoment.symm.trans hok

theorem report_call (a b : Applier) (c : Call) : (a.call c).1 = (b.call c).1 := by
  have hreceive (x y : Applier) : (x.receive c.batch c.answer).1 = (y.receive c.batch c.answer).1 := by
    unfold receive
    split
    · rfl
    · split
      · rfl
      · split <;> rfl
  cases hbatch : c.batch with
  | nil => simp [call, apply, send?, hbatch]
  | cons e rest =>
    rw [hbatch] at hreceive
    simp [call, apply, send?, hbatch, hreceive _ { b with calls := b.calls + 1 }]

theorem serve_cons (a : Applier) (c : Call) (rest : List Call) : a.serve (c :: rest) =
    ((a.call c).1 :: ((a.call c).2.serve rest).1, ((a.call c).2.serve rest).2) := rfl

theorem reports_serve (a b : Applier) (calls : List Call) : (a.serve calls).1 = (b.serve calls).1 := by
  induction calls generalizing a b with
  | nil => rfl
  | cons c rest ih =>
    rw [serve_cons, serve_cons, report_call a b, ih (a.call c).2 (b.call c).2]

theorem reports_append (a : Applier) (before after : List Call) :
    (a.serve (before ++ after)).1 = (a.serve before).1 ++ (a.serve after).1 := by
  induction before generalizing a with
  | nil => rfl
  | cons c rest ih =>
    rw [List.cons_append, serve_cons, serve_cons, List.cons_append, ih, reports_serve _ a after]

theorem commands_serve (a : Applier) (calls : List Call) :
    (a.serve calls).1.map Report.command = calls.map Call.command? := by
  induction calls generalizing a with
  | nil => rfl
  | cons c rest ih =>
    rw [serve_cons, List.map_cons, List.map_cons, ih, (a.accounts_call c).command]

theorem calls_serve (a : Applier) (calls : List Call) :
    (a.serve calls).2.calls = a.calls + calls.countP Call.isSent := by
  induction calls generalizing a with
  | nil => rfl
  | cons c rest ih =>
    rw [serve_cons, ih, (a.accounts_call c).calls, List.countP_cons]
    omega

theorem total_serve (a : Applier) (calls : List Call) : (a.serve calls).2.total =
    a.total + ((calls.filter Call.isApplied).map fun c => c.batch.length).sum := by
  induction calls generalizing a with
  | nil => rfl
  | cons c rest ih =>
    rw [serve_cons, ih, (a.accounts_call c).total, List.filter_cons]
    split
    · rw [List.map_cons, List.sum_cons, Nat.add_assoc]
    · rw [Nat.add_zero]

theorem last_serve (a : Applier) (calls : List Call) : (a.serve calls).2.last =
    ((calls.filter Call.isApplied).getLast?.map Call.lastTimestamp).getD a.last := by
  induction calls generalizing a with
  | nil => rfl
  | cons c rest ih =>
    rw [serve_cons, ih, (a.accounts_call c).last, List.filter_cons]
    split
    · cases hrest : (rest.filter Call.isApplied).getLast? with
      | none => simp [List.getLast?_eq_none_iff.mp hrest]
      | some latest => simp [List.getLast?_cons, hrest]
    · rfl

theorem last_of_dated (h : ∀ c ∈ calls, c.IsDated) :
    (after calls).last = .null ∨ ∃ ts, (after calls).last = .timestamp ts := by
  rw [after, last_serve]
  cases hlatest : (calls.filter Call.isApplied).getLast? with
  | none => exact .inl rfl
  | some c =>
    show c.lastTimestamp = .null ∨ ∃ ts, c.lastTimestamp = .timestamp ts
    unfold Call.lastTimestamp
    cases hlast : c.batch.getLast? with
    | none => exact .inl rfl
    | some e =>
      have hc : c ∈ calls := (List.mem_filter.mp (List.mem_of_getLast? hlatest)).1
      exact .inr (h c hc e hlast)

theorem stats_of_dated (h : a.last = .null ∨ ∃ ts, a.last = .timestamp ts) : a.stats = .ok [
    ("apply_calls", .nat a.calls),
    ("applied_total", .nat a.total),
    ("last_applied", secondsValue a.last.timestamp?)] := by
  rcases h with hnone | ⟨ts, hts⟩
  · simp [stats, hnone, Value.isTruthy, Value.timestamp?, bind, Except.bind, pure, Except.pure]
  · simp [stats, hts, Value.isTruthy, Value.timestamp?, Value.requireTimestamp, bind, Except.bind,
      Except.map, pure, Except.pure]

/-- Accounting is all or nothing. Of any calls there is one command for each batch that is not empty, in
order; the calls counted are these, the total is that of the batches whose reply counts as true, and the last
timestamp is that of the latest of them. A call that is turned down or raises leaves total and timestamp as
they were, if the last entry of its batch is dated, and the calls after it go as if it had never been made. -/
theorem keeps_accounts (calls : List Call) :
    (reports calls).map Report.command = calls.map Call.command? ∧
    (after calls).calls = calls.countP Call.isSent ∧
    (after calls).total = ((calls.filter Call.isApplied).map fun c => c.batch.length).sum ∧
    (after calls).last = ((calls.filter Call.isApplied).getLast?.map Call.lastTimestamp).getD .null ∧
    ((∀ c ∈ calls, c.IsDated) → (after calls).stats = .ok [
      ("apply_calls", .nat (after calls).calls),
      ("applied_total", .nat (after calls).total),
      ("last_applied", secondsValue (after calls).last.timestamp?)]) ∧
    ∀ before c rest, calls = before ++ c :: rest →
      reports calls = reports before ++ ((after before).call c).1 :: reports rest ∧
      c.Tells ((after before).call c).1.outcome ∧
      (c.IsDated → (∀ count last, ((after before).call c).1.outcome ≠ .ok (.applied count last)) →
        ((after before).call c).2.total = (after before).total ∧
        ((after before).call c).2.last = (after before).last) := by
  refine ⟨commands_serve _ calls, ?_, ?_, last_serve _ calls, ?_, ?_⟩
  · exact (calls_serve _ calls).trans (Nat.zero_add _)
  · exact (total_serve _ calls).trans (Nat.zero_add _)
  · exact fun hdated => stats_of_dated (last_of_dated hdated)
  · rintro before c rest rfl
    have hcall := (after before).accounts_call c
    refine ⟨?_, hcall.tells, fun hdated hnot => ?_⟩
    · rw [reports, reports_append, serve_cons, report_call {} (after before) c, reports_serve _ {} rest]
      rfl
    · have happlied := hcall.tells.not_applied hdated hnot
      have htotal := hcall.total
      have hlast := hcall.last
      rw [happlied] at htotal hlast
      exact ⟨htotal, hlast⟩

def entryOf (ts : Timestamp) : Entry where
  timestamp := .timestamp ts
  operation := .text "i"
  ns := .text "app.users"
  payload := .document []
  selector := .null
  raw := [("ts", .timestamp ts), ("op", .text "i")]

def first : Entry := entryOf (.ofWords 5 1)

def second : Entry := entryOf (.ofWords 6 1)

def third : Entry := entryOf (.ofWords 7 1)

def failing : Call := ⟨[third], .fault ⟨.driver .autoReconnect, "connection reset"⟩⟩

def mixed : List Call := [
  ⟨[], .reply [("ok", .nat 1)]⟩,
  ⟨[first], .reply [("ok", .text ""), ("errmsg", .text "duplicate key")]⟩,
  ⟨[first, second], .reply [("ok", .text "yes")]⟩,
  failing,
  ⟨[third], .reply [("ok", .bool true)]⟩]

theorem dated_entryOf (ts : Timestamp) : (entryOf ts).IsDated := ⟨ts, rfl⟩

theorem dated_mixed : ∀ c ∈ mixed, c.IsDated := by
  intro c hc e he
  simp only [mixed, List.mem_cons, List.not_mem_nil, or_false] at hc
  rcases hc with rfl | rfl | rfl | rfl | rfl
  · cases he
  all_goals
    cases he
    exact dated_entryOf _

theorem keeps_accounts_mixed :
    (after mixed).calls = 4 ∧ (after mixed).total = 3 ∧ (after mixed).last = third.timestamp ∧
    (after mixed).stats = .ok [("apply_calls", .nat 4), ("applied_total", .nat 3),
      ("last_applied", .nat 7)] ∧
    ((after (mixed.take 3)).call failing).2.total = (after (mixed.take 3)).total ∧
    ((after (mixed.take 3)).call failing).2.last = (after (mixed.take 3)).last := by
  obtain ⟨_, hcalls, htotal, hlast, hstats, hone⟩ := keeps_accounts mixed
  obtain ⟨_, _, hkept⟩ := hone (mixed.take 3) failing (mixed.drop 4) rfl
  have hdated : failing.IsDated := dated_mixed failing (by simp [mixed])
  have hlatest : (after mixed).last = third.timestamp := hlast
  refine ⟨hcalls, htotal, hlatest, ?_, hkept hdated ?_⟩
  · rw [hstats dated_mixed, hcalls, htotal, hlatest]
    rfl
  · intro count last htold
    cases htold

def undated : Call := ⟨[{ entryOf (.ofWords 5 1) with timestamp := .nat 5 }], .reply [("ok", .nat 1)]⟩

/-- Without a timestamp on its last entry a batch is counted, and the call raises after that; and the accounts
cannot be told any more. -/
theorem not_all_or_nothing_undated :
    (¬ ∀ (before : List Call) (c : Call),
      (∀ count last, ((after before).call c).1.outcome ≠ .ok (.applied count last)) →
        ((after before).call c).2.total = (after before).total ∧
        ((after before).call c).2.last = (after before).last) ∧
    ¬ ∀ calls : List Call, ∃ stats, (after calls).stats = .ok stats := by
  refine ⟨fun hkeeps => ?_, fun htells => ?_⟩
  · obtain ⟨htotal, _⟩ := hkeeps [] undated fun _ _ htold => by cases htold
    cases htotal
  · obtain ⟨stats, hstats⟩ := htells [undated]
    cases hstats

end Applier

end OplogRelay
