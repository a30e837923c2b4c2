import Parley.Deployment

/-!
One order of steps: tasks that can go on stand in a queue, the first runs until it waits, and those
that it has woken join the queue behind the others. When nobody can go on, time passes to the
instant that somebody waits for; of those that wait for the same instant the one that began to wait
first goes first.
-/

namespace Parley

open Hub

structure Schedule where
  deployment : Deployment := {}
  /-- The tasks that can go on, the next one first. -/
  queue : List Deployment.TaskId := []
  /-- The tasks that wait for an instant, in the order in which they began to. -/
  timers : List (Instant × Deployment.TaskId) := []
deriving Inhabited

namespace Schedule

open Deployment (TaskId)

/-- What chance decides here: no random part, and stops are seen first. -/
def choice : Choice := {}

/-- How many steps are taken at most without time passing. -/
def patience : Nat := Nat.pow 2 40

def runTask (y : Deployment) (n : TaskId) : Nat → Deployment
  | 0 => y
  | fuel + 1 =>
    match y.step n choice with
    | some y => runTask y n fuel
    | none => y

/-- The tasks that can go on and do not stand in the queue yet. -/
def woken (y : Deployment) (queue : List TaskId) : List TaskId :=
  (List.range y.tasks.size).filter fun n => !queue.contains n && y.isReady choice n

/-- The timers of a deployment: those that still hold, then the new ones. -/
def renewTimers (y : Deployment) (timers : List (Instant × TaskId)) : List (Instant × TaskId) :=
  let wake (n : TaskId) : Option Instant := (y.task n).wake? y.service
  let kept := timers.filter fun (t, n) => wake n == some t
  kept ++ (List.range y.tasks.size).filterMap fun n =>
    match wake n with
    | some t => if kept.contains (t, n) then none else some (t, n)
    | none => none

def drain (x : Schedule) : Nat → Schedule
  | 0 => x
  | fuel + 1 =>
    match x.queue with
    | [] => x
    | n :: rest =>
      let deployment := runTask x.deployment n patience
      drain { deployment, queue := rest ++ woken deployment rest, timers := renewTimers deployment x.timers } fuel

/-- Runs everything that can go on without time passing. -/
def settle (x : Schedule) : Schedule := { x with queue := x.queue ++ woken x.deployment x.queue }.drain patience

def next? (x : Schedule) : Option Instant := (x.timers.map (·.1)).min?

/-- Lets time pass to an instant, at which those that wait for it go on. -/
def passTo (x : Schedule) (t : Instant) : Schedule :=
  let due := (x.timers.filter (·.1 ≤ t)).map (·.2)
  { x with deployment := x.deployment.passTo t, queue := x.queue ++ due }

/-- Lets time pass up to an instant; everything due by then happens at its time. -/
def sleepUntil (x : Schedule) (target : Instant) : Nat → Schedule
  | 0 => x
  | fuel + 1 =>
    match x.next? with
    | some t => if t ≤ target then ((x.passTo t).settle).sleepUntil target fuel else (x.passTo target).settle
    | none => (x.passTo target).settle

def sleep (x : Schedule) (nanos : Nat) : Schedule := x.settle.sleepUntil (x.deployment.service.now + nanos) patience

/-- Runs until a task is over, letting time pass. -/
def runUntilOver (x : Schedule) (n : TaskId) : Nat → Schedule
  | 0 => x
  | fuel + 1 =>
    if x.deployment.isOver n then x
    else match x.next? with
      | none => x
      | some t =>
        let y := x.passTo t
        let y := if y.queue.contains n then { y with queue := n :: y.queue.filter (· != n) } else y
        (y.settle).runUntilOver n fuel

/-! ### What is asked of the service -/

def service (x : Schedule) : Service := x.deployment.service

def onDeployment (x : Schedule) (f : Deployment → Deployment) : Schedule := { x with deployment := f x.deployment }

def onService (x : Schedule) (f : Service → Service) : Schedule :=
  x.onDeployment fun d => { d with service := f d.service }

def onLine (x : Schedule) (f : Broker.Line → Broker.Line) : Schedule :=
  x.onService fun s => { s with line := s.line.map f }

/-- Runs an activity to its end before anything else goes on; time passes as it needs. -/
def await (x : Schedule) (a : Activity) : Except PublishError Unit × Schedule :=
  let (n, deployment) := x.deployment.spawn (.activity a)
  let x := ({ x with deployment, queue := n :: x.queue }.settle).runUntilOver n patience
  match x.deployment.task n with
  | .activity (.finished result) => (result, x)
  | _ => (.error .unending, x)

def publish (x : Schedule) (hub : Nat) (room : String) (category : Category) (event : Except String String) :
    Except PublishError Unit × Schedule :=
  x.await (.publish hub room category event)

def announce (x : Schedule) (hub : Nat) (room user : String) (status : Option String) :
    Except PublishError Unit × Schedule :=
  let (a, s) := Activity.announce x.service hub room user status
  (x.onService fun _ => s).await a

def handleFrame (x : Schedule) (hub : Nat) (room user : String) (raw : Bytes) : Dispatch × Schedule :=
  match route x.service hub room user raw with
  | (dispatch, some a, s) => (dispatch, ((x.onService fun _ => s).await a).2)
  | (dispatch, none, s) => (dispatch, x.onService fun _ => s)

end Schedule

end Parley
