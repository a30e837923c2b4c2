import Parley.Http.Response
import Parley.Text.Blank

/-!
Who may enter a room: those who take part in the conversation of that name.
-/

namespace Parley.Access

open Http (Problem)

/-- The room that a request names: blanks at its ends do not count, and it is not empty. -/
def roomOf? (conversation : Option String) : Option String := (conversation.map Text.trim).filter (· != "")

/-- The room that a request names, if the person takes part in it by the store's answer. -/
def requireParticipant (isParticipant : String → String → Except Store.Error Bool) (user : String)
    (conversation : Option String) : Except Problem String :=
  match roomOf? conversation with
  | none => .error (.badRequest "conversation_id required")
  | some room =>
    match isParticipant room user with
    | .error _ => .error (.internal Problem.internalText)
    | .ok false => .error (.forbidden "Not a participant of this conversation")
    | .ok true => .ok room

end Parley.Access
