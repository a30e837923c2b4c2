import Parley.Frame
import Parley.Hub.Activity

/-!
What a hub does about a frame from a client. The event that it gives rise to speaks for the person
and the room of the connection it came on, whatever the frame says.
-/

namespace Parley.Hub

inductive Dispatch where
  | typing
  | read
  | presence
  /-- Not a frame, or one of an unknown type. -/
  | dropped
deriving DecidableEq, Repr, Inhabited

def Dispatch.name : Dispatch → String
  | .typing => "Typing"
  | .read => "Read"
  | .presence => "Presence"
  | .dropped => "Dropped"

/-- Takes a frame: what it is, and the activity that it starts. -/
def route (s : Service) (hub : Nat) (room user : String) (raw : Bytes) : Dispatch × Option Activity × Service :=
  let event (build : Timestamp → Envelope) : Option Activity × Service :=
    let (time, s) := s.readClock
    (some (.publish hub room .events (.ok (build time).text)), s)
  match ClientFrame.parse raw with
  | .ok (.typing stopped) => (.typing, event (Envelope.typing room user · stopped))
  | .ok (.read lastReadId) => (.read, event (Envelope.read room user · lastReadId))
  | .ok (.presence status) =>
    let (a, s) := Activity.announce s hub room user status
    (.presence, some a, s)
  | .ok .unknown | .error _ => (.dropped, none, s)

end Parley.Hub
