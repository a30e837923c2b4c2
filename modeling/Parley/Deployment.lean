import Parley.Hub.Session
import Parley.Hub.Subscriber

/-!
The service with everything that goes on in it. Each task has a number and takes one step at a time;
any order of steps is possible. Beside the steps of tasks there is what comes from outside: sessions
that begin and are dropped, connections that are registered and released.
-/

namespace Parley

open Hub

inductive Task where
  /-- The writer of a connection. -/
  | writer (conn : ConnId)
  /-- A close of a connection that is left to be done. -/
  | closer (conn : ConnId)
  | activity (a : Activity)
  | session (x : Session)
  | subscriber (x : Subscriber)
  | done

namespace Task

instance : Inhabited Task := ⟨.done⟩

/-- One step of a task, or `none` while it waits and when it is over. -/
def step (s : Service) (choice : Choice) : Task → Option (Task × Service)
  | .writer c =>
    ((s.connection c).step s.now choice.stopFirst).map fun conn => (.writer c, s.updateConnection c fun _ => conn)
  | .closer c => some (.done, s.close c)
  | .activity a => (a.step s choice).map fun (a, s) => (.activity a, s)
  | .session x => (x.step s choice).map fun (x, s) => (.session x, s)
  | .subscriber x => (x.step s choice).map fun (x, s) => (.subscriber x, s)
  | .done => none

/-- When a waiting task has something to do next if nothing else happens. -/
def wake? (s : Service) : Task → Option Instant
  | .writer c => (s.connection c).wake?
  | .activity a => a.wake?
  | .session x => x.wake?
  | .subscriber x => x.wake?
  | .closer _ | .done => none

def isOver : Task → Bool
  | .session x => x.isOver
  | .subscriber x => x.isOver
  | .activity a => a.result?.isSome
  | .done => true
  | _ => false

end Task

structure Deployment where
  service : Service := {}
  tasks : Array Task := #[]
deriving Inhabited

namespace Deployment

abbrev TaskId := Nat

def task (y : Deployment) (n : TaskId) : Task := y.tasks.getD n .done

def setTask (y : Deployment) (n : TaskId) (t : Task) : Deployment := { y with tasks := y.tasks.setIfInBounds n t }

def spawn (y : Deployment) (t : Task) : TaskId × Deployment := (y.tasks.size, { y with tasks := y.tasks.push t })

def step (y : Deployment) (n : TaskId) (choice : Choice) : Option Deployment :=
  ((y.task n).step y.service choice).map fun (t, s) => { (y.setTask n t) with service := s }

def isReady (y : Deployment) (choice : Choice) (n : TaskId) : Bool := ((y.task n).step y.service choice).isSome

def passTo (y : Deployment) (t : Instant) : Deployment :=
  { y with service := { y.service with now := max y.service.now t } }

/-! ### What comes from outside -/

def connect (y : Deployment) (room user : String) (sink : Sink) : ConnId × Deployment :=
  let (c, s) := y.service.connect room user sink
  (c, ({ y with service := s }.spawn (.writer c)).2)

def openSession (y : Deployment) (hub : Nat) (room user : String) (sink : Sink) : ConnId × TaskId × Deployment :=
  let (conn, y) := y.connect room user sink
  let (n, y) := y.spawn (.session { hub, conn, room, user })
  (conn, n, y)

def feed (y : Deployment) (n : TaskId) (i : Item) : Deployment :=
  match y.task n with
  | .session x => y.setTask n (.session (x.feed i))
  | _ => y

/-- Drops a session. Its transport is closed by a task of its own. -/
def abort (y : Deployment) (n : TaskId) : Deployment :=
  match y.task n with
  | .session x =>
    match x.abort y.service with
    | none => y
    | some (closing, x, s) =>
      let y : Deployment := { (y.setTask n (.session x)) with service := s }
      if closing then (y.spawn (.closer x.conn)).2 else y
  | _ => y

def release (y : Deployment) (hub : Nat) (c : ConnId) : Deployment :=
  { y with service := (y.service.deregister hub c).close c }

/-- Removes a connection from its room; a task of its own closes it. -/
def discard (y : Deployment) (hub : Nat) (c : ConnId) : Deployment :=
  ({ y with service := y.service.deregister hub c }.spawn (.closer c)).2

def start (y : Deployment) (hub : Nat) : Option (TaskId × Deployment) :=
  if y.service.hasBroker then some (y.spawn (.subscriber { hub })) else none

def isOver (y : Deployment) (n : TaskId) : Bool := (y.task n).isOver

end Deployment

end Parley
