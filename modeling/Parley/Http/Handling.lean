import Parley.Access.Membership
import Parley.Hub.Activity
import Parley.Http.Request

/-!
What handling a request comes to: a refusal, or an answer with the service after it and what is made
known to others.
-/

namespace Parley.Http

open Hub

structure Reply where
  response : Response
  /-- Published before the answer is given, whatever comes of it. -/
  before : Option Activity := none
  /-- Published on its own. -/
  apart : Option Activity := none

instance : Inhabited Reply := ⟨{ response := default }⟩

/-- A refusal, or the reply and the service after it. -/
abbrev Handling := Except Response (Reply × Service)

/-- The room that a request names, if the person takes part in it. -/
def enter (s : Service) (user : String) (conversation : Option String) : Except Response String :=
  match Access.requireParticipant s.store.isParticipant user conversation with
  | .ok room => .ok room
  | .error problem => .error problem.response

def fromStore {α : Type} : Except Store.Error α → Except Response α
  | .ok a => .ok a
  | .error e => .error (Problem.ofStore e).response

def reply (s : Service) (v : Json) : Reply × Service := ({ response := .ofJson 200 v }, s)

end Parley.Http
