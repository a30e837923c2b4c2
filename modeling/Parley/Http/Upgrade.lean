import Parley.Http.Handling
import Parley.Text.Suffixes

/-!
Upgrades of a request to a session: the form of the request, and the person and the room it is let
in with. Everything is checked before there is a connection.
-/

namespace Parley.Http.Upgrade

def headerText? (r : Request) (name : String) : Option String :=
  (((r.headers.all name).head?).bind Text.Utf8.decode?).map lowerName

/-- Why a request is no upgrade, if it is none. -/
def notUpgrade? (r : Request) : Option Response :=
  let header (name : String) (good : String → Bool) : Bool := (headerText? r name).any good
  if r.method != "GET" then some (Request.refused 405)
  else if header "connection" (fun v => Text.isInfix "upgrade".toList v.toList) &&
      header "upgrade" (· == "websocket") &&
      !(r.headers.all "sec-websocket-key").isEmpty && header "sec-websocket-version" (· == "13") then none
  else some (Request.refused 400)

/-- The room and the person of an upgrade, if the service lets it in. -/
def authorize (s : Service) (r : Request) : Except Response (String × String) := do
  let query ← r.known ["conversation_id", "user_id", "token"]
  let user ← match Identity.ofUpgrade s.seconds s.config r.headers (query.lookup "token") (query.lookup "user_id") with
    | .ok user => pure user
    | .error fault => throw (Problem.unauthorized fault.message).response
  let room ← enter s user (query.lookup "conversation_id")
  return (room, user)

end Parley.Http.Upgrade
