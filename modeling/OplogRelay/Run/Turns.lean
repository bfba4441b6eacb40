import OplogRelay.Agenda
import OplogRelay.Run.Basic
/-!
A run in turns, where the order of what happens at one moment counts. Whoever is called in one turn
acts in the next one, in the order of the calls; what falls due acts in the first turn of its
moment, after those who were called before.

The coordinator and the forwarder do not look out themselves. One lookout waits for the request to
shut down and one for the next entry, both for the coordinator; a third one waits for news from the
oplog, for the forwarder. A lookout is called by what it waits for, and in its turn reports to the
one it waits for.

A forwarder that is dismissed while its lookout is back with news overhears the dismissal: it reads
on until it comes to an end by itself, and only then the run is over.
-/
namespace OplogRelay

/-- What happens to a run from outside. -/
inductive Incident where
  | signal (number : Int)
  | append (docs : List Document)
  | inject (f : Fault)
  | reject (message : String)
  deriving Repr

def Incident.stopSignals : List Int := [2, 15]

namespace Turns

inductive Lookout where
  | request
  | entry
  | news
  deriving DecidableEq, Repr

/-- Where a lookout is: not sent, on its way, waiting, called, or back with what it waited for. -/
inductive Duty where
  | off
  | leaving
  | waiting
  | called
  | back
  deriving DecidableEq, Repr, Inhabited

inductive Engagement where
  | incident (i : Incident)
  | tick
  | idle
  | answer
  deriving Repr

def Engagement.isTick : Engagement → Bool
  | .tick => true
  | _ => false

def Engagement.isIdle : Engagement → Bool
  | .idle => true
  | _ => false

inductive Act where
  | coordinate
  | forward
  | look (l : Lookout)
  | report (l : Lookout)
  | reportEnd
  | keep (e : Engagement)
  deriving Repr

def Act.isForCoordinator : Act → Bool
  | .report .request | .report .entry | .reportEnd | .keep .tick => true
  | _ => false

def Act.isForForwarder : Act → Bool
  | .report .news | .keep .idle => true
  | _ => false

inductive Coordinator where
  | starting
  | waiting
  | called
  | busy
  | leaving
  | gone
  deriving DecidableEq, Repr, Inhabited

def Coordinator.isThrough : Coordinator → Bool
  | .leaving | .gone => true
  | _ => false

/-- A forwarder that is blocked waits for room on the queue, one that is listening for its lookout
or the end of its patience; one that gives up waits for its lookout to come back. -/
inductive Forwarding where
  | starting
  | blocked
  | listening
  | givingUp
  | gone
  deriving DecidableEq, Repr, Inhabited

end Turns

/-- `acting` are those who have yet to act in this turn, `calls` those who will in the next one. -/
structure Turns where
  run : Run
  acting : List Turns.Act := []
  calls : List Turns.Act := [.coordinate]
  agenda : Agenda Turns.Engagement := .empty
  coordinator : Turns.Coordinator := .starting
  forwarder : Turns.Forwarding := .starting
  forwarderCalled : Bool := false
  dismissed : Bool := false
  request : Turns.Duty := .off
  entry : Turns.Duty := .off
  news : Turns.Duty := .off
  newsCame : Bool := false
  newsGivenUp : Bool := false
  signals : List Int := []
  deriving Repr

namespace Turns

def ofStarted (r : Run) (incidents : List (Span × Incident)) : Turns where
  run := r
  agenda := incidents.foldl (fun a i => a.add i.1.moment? (.incident i.2)) .empty

def call (a : Act) (s : Turns) : Turns := { s with calls := s.calls ++ [a] }

/-- Takes back calls that mean nothing any more. -/
def takeBack (p : Act → Bool) (s : Turns) : Turns :=
  { s with acting := s.acting.filter (!p ·), calls := s.calls.filter (!p ·) }

def onTransfer (f : Transfer → Transfer) (s : Turns) : Turns :=
  { s with run := { s.run with stage := match s.run.stage with
      | .before w => .before w
      | .moving t => .moving (f t) } }

def callCoordinator (s : Turns) : Turns :=
  match s.coordinator with
  | .waiting =>
    { s with coordinator := .called, agenda := s.agenda.callOff Engagement.isTick }.call .coordinate
  | _ => s

def callForwarder (s : Turns) : Turns :=
  if s.forwarderCalled then s else { s with forwarderCalled := true }.call .forward

def reportToCoordinator (a : Act) (s : Turns) : Turns :=
  match s.coordinator with
  | .waiting => s.call a
  | _ => s

def lookForRequest (s : Turns) : Turns :=
  if s.coordinator.isThrough then s
  else if s.run.world.shutdown then
    let heard := s.onTransfer fun t => t.hear?.getD t
    { heard with request := .back }.reportToCoordinator (.report .request)
  else { s with request := .waiting }

/-- An entry that is taken off the queue makes room for the next one. -/
def lookForEntry (s : Turns) : Turns :=
  if s.coordinator.isThrough then s
  else match s.run.transfer?.bind Transfer.fill? with
    | none => { s with entry := .waiting }
    | some filled =>
      let taken := { s.onTransfer fun _ => filled with entry := .back }
      let told := match taken.forwarder with
        | .blocked => taken.callForwarder
        | _ => taken
      told.reportToCoordinator (.report .entry)

def lookForNews (s : Turns) : Turns :=
  if s.newsGivenUp then { s with news := .off }.call (.report .news)
  else if s.newsCame then { s with news := .back }.call (.report .news)
  else { s with news := .waiting }

def settle (s : Turns) : Turns :=
  match s.run.outcome, s.run.transfer?.map Transfer.phase with
  | none, some (.done outcome) => { s with run := s.run.settle outcome }
  | _, _ => s

/-- The run is over as soon as both the coordinator and the forwarder are done. -/
def close (s : Turns) : Turns :=
  { s.settle with
    coordinator := .gone
    forwarder := .gone
    run := s.settle.run.close Run.allResources }

def rest (s : Turns) : Turns :=
  match s.run.transfer? with
  | none => s
  | some t =>
    if t.forwarder.finished then
      let done := { s with forwarder := .gone }
      match s.coordinator, t.phase with
      | .leaving, _ => done.close
      | _, .waiting true => done.reportToCoordinator .reportEnd
      | _, _ => done
    else if t.forwarder.held.isSome then { s with forwarder := .blocked, forwarderCalled := false }
    else
      { s with
        forwarder := .listening
        forwarderCalled := false
        news := .leaving
        newsCame := false
        newsGivenUp := false
        agenda := s.agenda.add (t.forwarder.due?.map Int.ofNat) .idle }.call (.look .news)

/-- The forwarder goes on for as long as it can; an entry on the queue calls the lookout for it. -/
def goForward : Nat → Turns → Turns
  | 0, s => s
  | steps + 1, s =>
    match s.run.transfer? with
    | none => s
    | some t =>
      match t.forward? with
      | none => s.rest
      | some t' =>
        let moved := s.onTransfer fun _ => t'
        let told :=
          if t.forwarder.forwarded < t'.forwarder.forwarded ∧ moved.entry = .waiting then
            { moved with entry := .called }.call (.look .entry)
          else moved
        goForward steps told

def giveUpNews (s : Turns) : Turns :=
  let told := { s with newsGivenUp := true, forwarder := .givingUp, forwarderCalled := false }
  match s.news with
  | .waiting => { told with news := .called }.call (.look .news)
  | _ => told

def forward (s : Turns) : Turns :=
  match s.forwarder with
  | .starting | .blocked => s.goForward Timed.fuel
  | .listening =>
    let heard := s.takeBack Act.isForForwarder
    if s.news = .back then
      let told := if s.dismissed then heard.settle else heard
      { told with
        news := .off
        dismissed := false
        agenda := s.agenda.callOff Engagement.isIdle }.goForward Timed.fuel
    else if s.dismissed then heard.close
    else heard.giveUpNews
  | .givingUp => (s.takeBack Act.isForForwarder).goForward Timed.fuel
  | .gone => s

/-- The forwarder is dismissed. One that listens hears of it in its turn. -/
def dismiss (s : Turns) : Turns :=
  match s.forwarder with
  | .listening => { s with dismissed := true, coordinator := .leaving }.callForwarder
  | _ => s.close

def sendLookouts (s : Turns) : Turns :=
  let forRequest := match s.request with
    | .off => { s with request := .leaving }.call (.look .request)
    | _ => s
  match forRequest.entry with
  | .off => { forRequest with entry := .leaving }.call (.look .entry)
  | _ => forRequest

/-- Lookouts are sent first; then those that are back report at once. -/
def wait (t : Transfer) (s : Turns) : Turns :=
  let sent := { s.sendLookouts with
    coordinator := .waiting
    agenda := s.agenda.add (t.alarm.map Int.ofNat) .tick }
  let told := match sent.request with
    | .back => sent.call (.report .request)
    | _ => sent
  match told.entry with
  | .back => told.call (.report .entry)
  | _ => told

def pause (s : Turns) : Turns :=
  match s.run.transfer? with
  | none => { s with coordinator := .gone }
  | some t =>
    match t.phase with
    | .waiting _ => s.wait t
    | .applying _ _ due =>
      let busy := { s with coordinator := .busy }
      if t.now < due then { busy with agenda := s.agenda.add (some (due : Int)) .answer }
      else busy.call .coordinate
    | .answered _ _ => s
    | .done _ => s.dismiss

def coordinate (s : Turns) : Turns :=
  match s.coordinator with
  | .starting => (s.call .forward).pause
  | .called | .busy =>
    let woken := s.takeBack Act.isForCoordinator
    let claimed := s.run.transfer?.any fun t => t.claim.isFilled
    let gone := woken.onTransfer (Transfer.goOn 8)
    let still := gone.run.transfer?.any fun t => t.claim.isFilled
    { gone with entry := if claimed && !still then .off else gone.entry }.pause
  | _ => s

def announce (s : Turns) : Turns :=
  match s.news with
  | .leaving => { s with newsCame := true }
  | .waiting => { s with newsCame := true, news := .called }.call (.look .news)
  | _ => s

/-- A signal only asks; the run stops by itself. Other signals than those two are not heeded. -/
def meet (s : Turns) : Incident → Turns
  | .signal number =>
    if Incident.stopSignals.contains number then
      let heard := { s with signals := s.signals ++ [number], run := s.run.requestShutdown }
      match s.request with
      | .waiting => { heard with request := .called }.call (.look .request)
      | _ => heard
    else s
  | .append docs => { s with run := s.run.append docs }.announce
  | .inject f => { s with run := s.run.inject f }.announce
  | .reject message =>
    { s with run := s.run.onDestination fun d => { d with rejection := some message } }

def loseHope (s : Turns) : Turns :=
  match s.forwarder with
  | .listening =>
    if s.newsCame || s.dismissed then s else s.onTransfer fun t => t.expire?.getD t
  | _ => s

def keep (s : Turns) : Engagement → Turns
  | .incident i => s.meet i
  | .tick => s.callCoordinator
  | .idle => s.loseHope.callForwarder
  | .answer => s.call .coordinate

def act (s : Turns) : Act → Turns
  | .coordinate => s.coordinate
  | .forward => s.forward
  | .look .request => s.lookForRequest
  | .look .entry => s.lookForEntry
  | .look .news => s.lookForNews
  | .report .request | .report .entry | .reportEnd => s.callCoordinator
  | .report .news => s.callForwarder
  | .keep e => s.keep e

/-- A new turn. If nobody was called, time passes up to the next appointment. -/
def turn? (s : Turns) : Option Turns :=
  let agenda := s.agenda.tidy
  let moment? := if s.calls.isEmpty then agenda.next? else some s.run.world.now
  moment?.map fun moment =>
    let now := max s.run.world.now moment.toNat
    let (due, rest) := agenda.takeDue now agenda.items.size
    { s with
      run := Timed.moveTo now s.run
      acting := s.calls ++ due.map Act.keep
      calls := []
      agenda := rest }

/-- One act. The turn in which a run is over is played to its end. -/
def step? (s : Turns) : Option Turns :=
  match s.acting with
  | a :: others => some ({ s with acting := others }.act a)
  | [] => if s.run.isOver then none else s.turn?

def play : Nat → Turns → Turns
  | 0, s => s
  | steps + 1, s =>
    match s.step? with
    | some s' => play steps s'
    | none => s

end Turns

end OplogRelay
