import OplogRelay.Value
/-!
Log records: which part of the program speaks, how urgent it is, what it says and the fields it
says it with.
-/
namespace OplogRelay

inductive Level where
  | trace
  | debug
  | info
  | warning
  | error
  deriving DecidableEq, Repr, Inhabited

namespace Level

def rank : Level → Int
  | trace => 5
  | debug => 10
  | info => 20
  | warning => 30
  | error => 40

def name : Level → String
  | trace => "TRACE"
  | debug => "DEBUG"
  | info => "INFO"
  | warning => "WARNING"
  | error => "ERROR"

end Level

inductive Component where
  | coordinator
  | applier
  | tail
  | oplog
  | forwarder
  | settings
  | program
  deriving DecidableEq, Repr, Inhabited

namespace Component

def path : Component → String
  | coordinator => "pipeline"
  | applier => "apply.applier"
  | tail => "oplog.cursor"
  | oplog => "oplog.memory"
  | forwarder => "oplog.producer"
  | settings => "config"
  | program => "main"

def all : List Component := [coordinator, applier, tail, oplog, forwarder, settings, program]

end Component

structure Record where
  component : Component
  level : Level
  message : String
  extra : Document
  deriving Repr, Inhabited, BEq

def Record.byComponent (records : List Record) : List (Component × List Record) :=
  (Component.all.map fun c => (c, records.filter fun r => r.component == c)).filter
    fun group => !group.2.isEmpty

end OplogRelay
