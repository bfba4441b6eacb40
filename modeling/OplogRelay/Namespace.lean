import OplogRelay.Text.Cut
import OplogRelay.Text.Quoted
/-!
Namespaces: a database and a collection in it, joined by a dot. The database name ends at the first
dot; the collection name may have dots of its own.
-/
namespace OplogRelay

structure Namespace where
  database : String
  collection : String
  deriving DecidableEq, Repr, Inhabited

inductive NamespaceError where
  | emptyDatabase (text : String)
  | invalidDatabase (text : String) (characters : List Char)
  | missingCollection
  deriving DecidableEq, Repr

namespace Namespace

/-- The characters a database name must not have, in code point order. -/
def forbidden : List Char := [' ', '"', '$', '.', '/', '\\']

def render (ns : Namespace) : String := ns.database ++ "." ++ ns.collection

def parse? (s : String) : Except NamespaceError Namespace :=
  let (database, collection) := (Text.cutFirst? '.' s.toList).getD (s.toList, [])
  let bad := forbidden.filter database.contains
  if database.isEmpty then .error (.emptyDatabase s)
  else if !bad.isEmpty then .error (.invalidDatabase s bad)
  else if collection.isEmpty then .error .missingCollection
  else .ok ⟨String.ofList database, String.ofList collection⟩

end Namespace

def NamespaceError.message : NamespaceError → String
  | .emptyDatabase s => s!"invalid namespace `{s}`: database name is empty"
  | .invalidDatabase s characters =>
    s!"invalid namespace `{s}`: database name contains invalid characters " ++
      Text.bracketed (characters.map fun c => Text.quoted (String.singleton c))
  | .missingCollection => "the oplog namespace must specify a collection"

end OplogRelay
