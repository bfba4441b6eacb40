import OplogRelay.Value
/-!
Commands to a server, and the replies of a server that knows one command: to apply operations.
-/
namespace OplogRelay

/-- What operations are to be applied is taken as it comes; it should be an array of documents. -/
inductive Command where
  | applyOps (ops : Value)
  | other (fields : Document)
  deriving Repr, Inhabited, BEq

namespace Command

def ofDocument (d : Document) : Command :=
  match d.get? "applyOps" with
  | some ops => .applyOps ops
  | none => .other d

def document : Command → Document
  | .applyOps ops => [("applyOps", ops)]
  | .other fields => fields

def isApplyOps : Command → Bool
  | .applyOps _ => true
  | .other _ => false

def ops : Command → List Value
  | .applyOps ops => ops.parts
  | .other _ => []

end Command

namespace Reply

def okay : Value := .float (.ofDecimal false 1 0)

def notOkay : Value := .float (.finite false 0)

def applied (count : Nat) : Document := [
  ("ok", okay),
  ("applied", .nat count),
  ("results", .array (List.replicate count (.bool true)))]

def rejected (message : String) : Document := [
  ("ok", notOkay),
  ("errmsg", .text message),
  ("code", .nat 11000)]

/-- The answer to a command that is not known names its first field. -/
def unknown (fields : Document) : Document :=
  let name := (fields.head?.map Prod.fst).getD ""
  [("ok", notOkay), ("errmsg", .text s!"no such command: '{name}'")]

/-- The answer of a session that has no destination behind it. -/
def unattached : Document := [("ok", notOkay), ("errmsg", .text "no destination attached")]

end Reply

end OplogRelay
