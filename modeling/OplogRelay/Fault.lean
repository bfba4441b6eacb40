import OplogRelay.Kind
import OplogRelay.Number.Quantity
/-!
Faults that reach the program from below: from the database driver, from decoding what it read, or
from anything else that it calls.
-/
namespace OplogRelay

inductive DriverFault where
  | general
  | autoReconnect
  | networkTimeout
  | connectionFailure
  | serverSelectionTimeout
  | operationFailure
  | executionTimeout
  | cursorNotFound
  | invalidOperation
  | configuration
  | invalidUri
  | invalidName
  deriving DecidableEq, Repr

inductive DecodingFault where
  | general
  | invalidDocument
  | invalidText
  deriving DecidableEq, Repr

inductive FaultKind where
  | driver (fault : DriverFault)
  | decoding (fault : DecodingFault)
  | stream
  | connection
  | runtime
  | badValue
  | wrongKind
  | overflow
  deriving DecidableEq, Repr

structure Fault where
  kind : FaultKind
  message : String
  deriving DecidableEq, Repr

namespace Fault

def ofKindError (e : KindError) : Fault := ⟨.wrongKind, e.message⟩

def ofConversionError (e : ConversionError) : Fault :=
  ⟨if e = .ofNaN then .badValue else .overflow, e.message⟩

def isDriver (f : Fault) : Bool :=
  match f.kind with
  | .driver _ => true
  | _ => false

def isDecoding (f : Fault) : Bool :=
  match f.kind with
  | .decoding _ => true
  | _ => false

/-- Bad client options: a malformed address is one too. -/
def isClientConfiguration (f : Fault) : Bool :=
  f.kind == .driver .configuration || f.kind == .driver .invalidUri

end Fault

end OplogRelay
