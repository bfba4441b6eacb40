/-!
The switches of the command line: how they are spelled, which of them take a value and what they
are for.
-/
namespace OplogRelay

inductive Switch where
  | help
  | version
  | source
  | oplog
  | lookback
  | idleWait
  | host
  | port
  | username
  | password
  | authDatabase
  | batchSize
  | flushInterval
  | verbose
  | quiet
  | logFormat
  deriving DecidableEq, Repr, Inhabited

namespace Switch

def all : List Switch := [
  help, version, source, oplog, lookback, idleWait, host, port, username, password, authDatabase,
  batchSize, flushInterval, verbose, quiet, logFormat]

def names : Switch → List String
  | help => ["-h", "--help"]
  | version => ["--version"]
  | source => ["--from"]
  | oplog => ["--oplogns"]
  | lookback => ["-s", "--seconds"]
  | idleWait => ["--idle-wait"]
  | host => ["--host"]
  | port => ["--port"]
  | username => ["-u", "--username"]
  | password => ["-p", "--password"]
  | authDatabase => ["--authenticationDatabase"]
  | batchSize => ["--batch-size"]
  | flushInterval => ["--flush-interval"]
  | verbose => ["-v", "--verbose"]
  | quiet => ["--quiet"]
  | logFormat => ["--log-format"]

def label (s : Switch) : String := "/".intercalate s.names

def takesValue : Switch → Bool
  | help | version | verbose | quiet => false
  | _ => true

def purpose : Switch → String
  | help => "show this text and exit"
  | version => "show the version and exit"
  | source => "host to pull from"
  | oplog => "ns to pull from (default: local.oplog.rs)"
  | lookback => "seconds to go back (default: 86400)"
  | idleWait => "seconds to wait for new oplog entries (default: 600)"
  | host => "mongodb host to apply to, e.g. setname/host1,host2"
  | port => "server port"
  | username => "username for authentication"
  | password => "password for authentication"
  | authDatabase => "database that holds the user's credentials"
  | batchSize => "entries per applyOps (default: 10000)"
  | flushInterval => "seconds between partial batch flushes (default: 5)"
  | verbose => "more detailed log output (-vv for trace)"
  | quiet => "only log warnings and errors"
  | logFormat => "log output format (json or text)"

def vocabulary : List (String × Switch) := all.flatMap fun s => s.names.map fun name => (name, s)

def find? (name : String) : Option Switch := vocabulary.lookup name

/-- Whether a spelling is a long one; short ones can be run together. -/
def isLong (name : String) : Bool := "--".isPrefixOf name

end Switch

end OplogRelay
