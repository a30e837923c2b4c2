import Parley.Http.Route
import Parley.Schedule

/-!
Requests to a running service. A request is answered after what it publishes beforehand has come to
its end; an upgrade that is let in becomes a session on a new connection.
-/

namespace Parley.Gateway

open Hub Http

def request (x : Schedule) (hub : Nat) (r : Request) : Response × Schedule :=
  let (reply, service) := Route.answer x.service hub r
  let x := x.onService fun _ => service
  let x := match reply.apart with
    | some a => x.onDeployment fun d => (d.spawn (.activity a)).2
    | none => x
  let x := match reply.before with
    | some a => (x.await a).2
    | none => x
  (reply.response, x)

/-- A request as it arrives: blanks at the ends of a header's value do not count. -/
def arriving (r : Request) : Request :=
  let blank (b : UInt8) : Bool := b == 0x20 || b == 0x09
  let trim (v : Bytes) : Bytes := ((v.dropWhile blank).reverse.dropWhile blank).reverse
  { r with headers := r.headers.map fun (n, v) => (n, trim v) }

/-- The sending half of a transport that takes every frame. -/
def openSink : Sink := fun _ => .taken

/-- A request over a transport that can be upgraded: the connection and the task of the new session,
or the answer. -/
def upgrade (x : Schedule) (hub : Nat) (r : Request) :
    Except Response (ConnId × Deployment.TaskId) × Schedule :=
  let r := arriving r
  if Route.Path.ofText? r.path = some .upgrade then
    match Upgrade.notUpgrade? r with
    | some response => (.error response, x)
    | none =>
      match Upgrade.authorize x.service r with
      | .error response => (.error response, x)
      | .ok (room, user) =>
        let (conn, task, deployment) := x.deployment.openSession hub room user openSink
        (.ok (conn, task), { x with deployment })
  else
    let (response, x) := request x hub r
    (.error response, x)

end Parley.Gateway
