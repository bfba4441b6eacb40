import OplogRelay.CommandLine.Switch
/-!
The help: how the program is called, and each switch with what it is for.
-/
namespace OplogRelay.CommandLine

/-- A switch as it is given, with a word for its value. -/
def invocation (s : Switch) : String := s.label ++ (if s.takesValue then " VALUE" else "")

def Help.width : Nat := (Switch.all.map fun s => (invocation s).length).foldl max 0

def Help.line (s : Switch) : String :=
  let gap := Help.width - (invocation s).length + 2
  "  " ++ invocation s ++ String.ofList (List.replicate gap ' ') ++ s.purpose

def help (program : String) : List String :=
  [s!"usage: {program} --from HOST [options]", "",
    "Poll operations from the replication oplog of one server and apply them to another", "",
    "options:"] ++ Switch.all.map Help.line

end OplogRelay.CommandLine
