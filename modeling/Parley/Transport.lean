import Parley.Time.Duration

/-!
How a frame can fail on its way out of a connection.
-/

namespace Parley

/-- Why a frame was not taken or not written. -/
inductive TransportError where
  | closed
  /-- Too many frames wait behind the writer. -/
  | full
  | write (detail : String)
  | timeout (after : Duration)
deriving DecidableEq, Repr

def TransportError.message : TransportError → String
  | .closed => "connection closed"
  | .full => "outbound queue full"
  | .write detail => "write failed: " ++ detail
  | .timeout after => "write timed out after " ++ after.text

end Parley
