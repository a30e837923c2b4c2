import Parley.Hub.Routing

/-!
The life of an authorized connection: it is registered and the person announced, then every frame
from the client is handled, until the client goes. Then the connection is removed and closed, and
if the person has no other connection in the room on this hub, that is announced too. A session that
is dropped is removed all the same, and its transport closed.
-/

namespace Parley.Hub

inductive Item where
  | text (frame : String)
  /-- A frame that is no text: nothing is done about it. -/
  | other
  | close
  /-- Reading failed. -/
  | error
  /-- The stream is over. -/
  | ended
deriving DecidableEq, Repr, Inhabited

/-- Where a session stands. -/
inductive Stage where
  | opening
  /-- The person is being announced. -/
  | joining (a : Activity)
  | reading
  /-- A frame is being handled. -/
  | handling (a : Activity)
  /-- The client has gone; the connection is to be removed. -/
  | releasing
  /-- It has been removed; the transport is to be closed. -/
  | closing
  /-- It is to be seen whether the person has another connection. -/
  | checking
  /-- The departure is being announced. -/
  | leaving (a : Activity)
  | over
  /-- The session was dropped. -/
  | dropped

structure Session where
  hub : Nat
  conn : ConnId
  room : String
  user : String
  /-- What has come from the client and waits to be read. -/
  inbox : List Item := []
  stage : Stage := .opening

namespace Session

def isOver (x : Session) : Bool :=
  match x.stage with
  | .over | .dropped => true
  | _ => false

def feed (x : Session) (i : Item) : Session := { x with inbox := x.inbox ++ [i] }

/-- One step of an activity; at its end the session goes on to another stage. -/
def advance (s : Service) (x : Session) (choice : Choice) (a : Activity) (here : Activity → Stage) (next : Stage) :
    Option (Session × Service) :=
  match a with
  | .finished _ => some ({ x with stage := next }, s)
  | a => (a.step s choice).map fun (a, s) => ({ x with stage := here a }, s)

def read (s : Service) (x : Session) : Option (Session × Service) :=
  match x.inbox with
  | [] => none
  | .text frame :: rest =>
    match route s x.hub x.room x.user (Text.Utf8.encode frame) with
    | (_, some a, s) => some ({ x with inbox := rest, stage := .handling a }, s)
    | (_, none, s) => some ({ x with inbox := rest }, s)
  | .other :: rest => some ({ x with inbox := rest }, s)
  | .close :: rest | .error :: rest | .ended :: rest => some ({ x with inbox := rest, stage := .releasing }, s)

/-- One step, or `none` while the session waits and when it is over. -/
def step (s : Service) (x : Session) (choice : Choice) : Option (Session × Service) :=
  match x.stage with
  | .opening =>
    let (a, s) := Activity.announce (s.register x.hub x.conn) x.hub x.room x.user none
    some ({ x with stage := .joining a }, s)
  | .joining a => advance s x choice a .joining .reading
  | .reading => read s x
  | .handling a => advance s x choice a .handling .reading
  | .releasing => some ({ x with stage := .closing }, s.deregister x.hub x.conn)
  | .closing => some ({ x with stage := .checking }, s.close x.conn)
  | .checking =>
    if (s.registry x.hub).userConnected x.room x.user then some ({ x with stage := .over }, s)
    else
      let (a, s) := Activity.announce s x.hub x.room x.user (some offlineStatus)
      some ({ x with stage := .leaving a }, s)
  | .leaving a => advance s x choice a .leaving .over
  | .over | .dropped => none

/-- Drops the session, where it can be dropped: not between removing and closing. Tells whether a
close of the transport is left to be done. -/
def abort (s : Service) (x : Session) : Option (Bool × Session × Service) :=
  let gone : Session := { x with stage := .dropped }
  match x.stage with
  | .joining _ | .reading | .handling _ => some (true, gone, s.deregister x.hub x.conn)
  | .releasing | .closing => none
  | .opening | .checking | .leaving _ => some (false, gone, s)
  | .over | .dropped => some (false, x, s)

def wake? (x : Session) : Option Instant :=
  match x.stage with
  | .joining a | .handling a | .leaving a => a.wake?
  | _ => none

end Session

end Parley.Hub
