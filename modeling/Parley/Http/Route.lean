import Parley.Http.Lookup
import Parley.Http.Submission
import Parley.Http.Upgrade

/-!
The routes of the service: a request is answered by its path and its method.
-/

namespace Parley.Http.Route

/-- An upgrade over a transport that cannot be upgraded is refused. -/
def upgradeWithoutTransport (r : Request) : Response := (Upgrade.notUpgrade? r).getD (Request.refused 426)

inductive Path where
  | health
  | upgrade
  | check
  | messages
  | conversations
  | users
deriving DecidableEq, Repr

def Path.ofText? : String → Option Path
  | "/health" => some .health
  | "/ws" => some .upgrade
  | "/api/ws_check" => some .check
  | "/api/messages" => some .messages
  | "/api/conversations" => some .conversations
  | "/api/users" => some .users
  | _ => none

def settled (s : Service) : Handling → Reply × Service
  | .ok done => done
  | .error response => ({ response }, s)

def look (s : Service) (r : Request) : Path → Reply × Service
  | .health => ({ response := Lookup.health }, s)
  | .upgrade => ({ response := upgradeWithoutTransport r }, s)
  | .check => settled s (Lookup.check s r)
  | .messages => settled s (Lookup.messages s r)
  | .conversations => settled s (Lookup.conversations s r)
  | .users => settled s (Lookup.users s r)

def withoutContent (r : Response) : Response :=
  match r.body with
  | .json _ => { r with body := .json "" }
  | _ => r

/-- Nobody answers on this path, or to this method. -/
def nobody (status : Nat) : Reply := { response := ⟨status, .nothing⟩ }

def answer (s : Service) (hub : Nat) (r : Request) : Reply × Service :=
  match Path.ofText? r.path with
  | none => (nobody 404, s)
  | some path =>
    if r.method == "GET" then look s r path
    else if r.method == "HEAD" then
      let (reply, s) := look s r path
      ({ reply with response := withoutContent reply.response }, s)
    else if r.method == "POST" then
      match path with
      | .messages => settled s (Submission.sendMessage s hub r)
      | .conversations => settled s (Submission.createConversation s hub r)
      | _ => (nobody 405, s)
    else (nobody 405, s)

end Parley.Http.Route
