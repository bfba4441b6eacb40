import OplogRelay.Text.Blank
import OplogRelay.Text.Cut
import OplogRelay.Text.Digit
/-!
Host strings: seeds separated by commas, with the name of a replica set and a slash in front if
they belong to one. A seed is a name and, after its last colon, a port.
-/
namespace OplogRelay

structure Seed where
  name : String
  port : String
  deriving DecidableEq, Repr, Inhabited

def Seed.render (s : Seed) : String := s.name ++ ":" ++ s.port

structure HostSpec where
  seeds : List Seed
  replicaSet : Option String
  deriving DecidableEq, Repr, Inhabited

inductive HostError where
  | invalidPort (host : String)
  | noHosts (host : String)
  deriving DecidableEq, Repr

def HostError.message : HostError → String
  | .invalidPort host => s!"invalid port in host string `{host}`"
  | .noHosts host => s!"no hosts found in host string `{host}`"

namespace HostSpec

def standardPort : Int := 27017

/-- Zero does not count as a given port. -/
def defaultPort (port : Option Int) : Int :=
  match port with
  | some p => if p = 0 then standardPort else p
  | none => standardPort

def render (spec : HostSpec) : String :=
  let seeds := ",".intercalate (spec.seeds.map Seed.render)
  match spec.replicaSet with
  | some name => name ++ "/" ++ seeds
  | none => seeds

/-- A seed from its trimmed text; `none` where its port has a character that is no digit. -/
def seed? (port : Option Int) (cs : List Char) : Option Seed :=
  match Text.cutLast? ':' cs with
  | some (name, own) =>
    if !own.isEmpty && own.all Text.isDigit then some ⟨String.ofList name, String.ofList own⟩
    else none
  | none => some ⟨String.ofList cs, toString (defaultPort port)⟩

/-- An empty name in front of the slash stands for no replica set. -/
def cutReplicaSet (cs : List Char) : Option String × List Char :=
  match Text.cutFirst? '/' cs with
  | some (name, seeds) => (if name.isEmpty then none else some (String.ofList name), seeds)
  | none => (none, cs)

def seedTexts (cs : List Char) : List (List Char) :=
  ((Text.pieces ',' cs).map Text.trim).filter fun piece => !piece.isEmpty

def parse? (host : String) (port : Option Int) : Except HostError HostSpec :=
  let (replicaSet, rest) := cutReplicaSet (Text.trim host.toList)
  match (seedTexts rest).mapM (seed? port) with
  | none => .error (.invalidPort host)
  | some [] => .error (.noHosts host)
  | some (s :: more) => .ok ⟨s :: more, replicaSet⟩

end HostSpec

end OplogRelay
