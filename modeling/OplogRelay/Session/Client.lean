import OplogRelay.Command
import OplogRelay.Settings.Validation
/-!
Sessions over a database client: the options it is made with, the calls that a session makes on it
and what becomes of the client's faults.
-/
namespace OplogRelay

inductive ReadPreference where
  | primary
  | primaryPreferred
  | secondary
  | secondaryPreferred
  | nearest
  deriving DecidableEq, Repr, Inhabited

def ReadPreference.name : ReadPreference → String
  | primary => "Primary"
  | primaryPreferred => "PrimaryPreferred"
  | secondary => "Secondary"
  | secondaryPreferred => "SecondaryPreferred"
  | nearest => "Nearest"

structure ClientProvider where
  settings : ConnectionSettings
  hosts : HostSpec
  readPreference : ReadPreference := .primary
  socketTimeout : Option Int := none
  deriving Repr, Inhabited

namespace ClientProvider

def make? (settings : ConnectionSettings) (readPreference : ReadPreference)
    (socketTimeout : Option Int) : Except Failure ClientProvider := do
  return ⟨settings, ← Settings.hosts? settings, readPreference, socketTimeout⟩

def describe (p : ClientProvider) : String := p.hosts.render

/-- A lone seed that belongs to no replica set is read from directly. -/
def topology (p : ClientProvider) : Document :=
  match p.hosts.replicaSet with
  | some name => [("replicaset", .text name)]
  | none => if p.hosts.seeds.length = 1 then [("directConnection", .bool true)] else []

/-- There are credentials if there is a user. -/
def credentials (p : ClientProvider) : Document :=
  match p.settings.user? with
  | none => []
  | some name => [
      ("username", .text name),
      ("password", (p.settings.password.map (·.toValue .text)).getD .null),
      ("authSource", p.settings.authDatabase.toValue .text)]

def timeoutValue : Option Int → Value
  | some ms => .int ms
  | none => .null

def options (p : ClientProvider) : Document := [
  ("host", .array (p.hosts.seeds.map fun s => .text s.render)),
  ("read_preference", .text p.readPreference.name),
  ("socketTimeoutMS", timeoutValue p.socketTimeout),
  ("serverSelectionTimeoutMS", .int p.settings.selectionTimeout)] ++
  p.topology ++ p.credentials

end ClientProvider

inductive ClientCall where
  | make (options : Document)
  | ping
  | command (c : Document) (checked : Bool)
  | database (name : String)
  | collection (name : String)
  | find (query : Document)
  | maxAwait (ms : Int)
  | close
  deriving Repr

structure ScriptedClient where
  makeFault : Option Fault := none
  pingFault : Option Fault := none
  commandFault : Option Fault := none
  reply : Document := [("ok", .nat 1)]
  deriving Repr, Inhabited

namespace ScriptedClient

/-- Opens a session. It counts as open once the server has answered a ping; if that fails the
client is closed. -/
def connect (c : ScriptedClient) (p : ClientProvider) : List ClientCall × Except Failure Unit :=
  let make := ClientCall.make p.options
  match c.makeFault with
  | some f =>
    let e := if f.isClientConfiguration then .configuration (.client f) else Failure.ofFault f
    ([make], .error e)
  | none =>
    match c.pingFault with
    | none => ([make, .ping], .ok ())
    | some f =>
      if f.isDriver then
        ([make, .ping, .close], .error (.connection (.unreachable p.describe f.message)))
      else ([make, .ping], .error (.ofFault f))

def command (c : ScriptedClient) (d : Document) : List ClientCall × Except Failure Document :=
  ([.command d false],
    match c.commandFault with
    | some f => .error (.ofFault f)
    | none => .ok c.reply)

/-- Seconds as whole milliseconds. A thousandfold text is that text a thousand times, and is read as
a numeral; a thousandfold array is still no number. -/
def milliseconds? (seconds : Value) : Except Failure Int :=
  match seconds, seconds.amount? with
  | _, some q =>
    match q.thousandfold? with
    | .ok ms => .ok ms
    | .error e => .error (.conversion e)
  | .text t, none =>
    match Numeral.integer? (String.join (List.replicate 1000 t)) with
    | .ok ms => .ok ms
    | .error e => .error (.numeral e)
  | .array items, none => .error (.kind (.noInteger (Value.array items).kindName))
  | v, none => .error (.kind (.unsupported "*" v.kindName (Value.nat 0).kindName))

/-- Opens a cursor that waits so many seconds for new documents; the client is told in whole
milliseconds. -/
def tail (ns : Namespace) (query : Document) (idle : Value) :
    List ClientCall × Except Failure Unit :=
  let calls := [.database ns.database, .collection ns.collection, .find query]
  match milliseconds? idle with
  | .ok ms => (calls ++ [.maxAwait ms], .ok ())
  | .error e => (calls, .error e)

def close : List ClientCall := [.close]

end ScriptedClient

end OplogRelay
