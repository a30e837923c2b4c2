/-!
How a command to the broker can fail.
-/

namespace Parley.Broker

inductive ErrorKind where
  | connection
  | command
  | timeout
deriving DecidableEq, Repr, Inhabited

def ErrorKind.name : ErrorKind → String
  | .connection => "connection"
  | .command => "command"
  | .timeout => "timeout"

def ErrorKind.ofName? (s : String) : Option ErrorKind :=
  [ErrorKind.connection, .command, .timeout].find? (·.name == s)

structure Error where
  kind : ErrorKind
  detail : String
deriving DecidableEq, Repr, Inhabited

def Error.message (e : Error) : String :=
  match e.kind with
  | .connection => "broker connection error: " ++ e.detail
  | .command => "broker command failed: " ++ e.detail
  | .timeout => "broker operation timed out: " ++ e.detail

abbrev Outcome := Except Error Unit

end Parley.Broker
