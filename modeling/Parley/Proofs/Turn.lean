import Parley.Proofs.Steps

/-!
What happens to a deployment of its own accord, in any order: a task takes a step, time passes, the
subscription of a hub is begun, the broker fails, comes back, or ends every subscription.
-/

namespace Parley

open Hub

namespace Service

/-- The broker of a service; an empty one, where the service has none. -/
def broker (s : Service) : MemoryBroker := (s.line.map (·.broker)).getD {}

@[simp] theorem broker_of_line {s : Service} {l : Broker.Line} (h : s.line = some l) : s.broker = l.broker := by
  simp [broker, h]

/-- Does something to the broker, where there is one. -/
def onBroker (s : Service) (f : MemoryBroker → MemoryBroker) : Service :=
  { s with line := s.line.map fun l => { l with broker := f l.broker } }

end Service

namespace Task

inductive Step (s : Service) : Task → Task → Service → Prop
  | writer (c : ConnId) (conn : Connection) (now : Instant) (stopFirst : Bool)
      (h : (s.connection c).step now stopFirst = some conn) :
      Step s (.writer c) (.writer c) (s.updateConnection c fun _ => conn)
  | closer (c : ConnId) : Step s (.closer c) .done (s.close c)
  | activity (a a' : Activity) (t : Service) (h : a.Step s a' t) : Step s (.activity a) (.activity a') t
  | session (x x' : Session) (t : Service) (choice : Choice) (h : x.step s choice = some (x', t)) :
      Step s (.session x) (.session x') t
  | subscriber (x x' : Subscriber) (t : Service) (h : x.Step s x' t) : Step s (.subscriber x) (.subscriber x') t

theorem step_spec {s t : Service} {choice : Choice} {k k' : Task} (h : k.step s choice = some (k', t)) :
    Task.Step s k k' t := by
  cases k with
  | writer c =>
    obtain ⟨conn, hc, he⟩ := Option.map_eq_some_iff.1 h
    cases he
    exact .writer c conn _ _ hc
  | closer c => cases h; exact .closer c
  | activity a =>
    obtain ⟨⟨a', t'⟩, ha, he⟩ := Option.map_eq_some_iff.1 h
    cases he
    exact .activity a a' _ (Activity.step_spec ha)
  | session x =>
    obtain ⟨⟨x', t'⟩, hx, he⟩ := Option.map_eq_some_iff.1 h
    cases he
    exact .session x x' _ choice hx
  | subscriber x =>
    obtain ⟨⟨x', t'⟩, hx, he⟩ := Option.map_eq_some_iff.1 h
    cases he
    exact .subscriber x x' _ (Subscriber.step_spec hx)
  | done => cases h

end Task

namespace Deployment

variable (y : Deployment) (n m : TaskId) (t : Task)

/-! ### Tasks -/

theorem task_setTask {n : TaskId} (hn : n < y.tasks.size) : (y.setTask n t).task n = t := by
  simp [setTask, task, hn]

theorem task_setTask_of_ne {n m : TaskId} (h : m ≠ n) : (y.setTask n t).task m = y.task m := by
  simp [setTask, task, h.symm]

@[simp] theorem size_setTask : (y.setTask n t).tasks.size = y.tasks.size := by simp [setTask]

theorem task_spawn : (y.spawn t).2.task m = if m = y.tasks.size then t else y.task m := by
  unfold spawn task
  rw [Array.getD_eq_getD_getElem?, Array.getD_eq_getD_getElem?, Array.getElem?_push]
  split <;> rfl

@[simp] theorem size_spawn : (y.spawn t).2.tasks.size = y.tasks.size + 1 := by simp [spawn]

theorem task_openSession (hub : Nat) (room user : String) (sink : Sink) (m : TaskId) :
    (y.openSession hub room user sink).2.2.task m =
      if m = y.tasks.size + 1 then .session { hub, conn := y.service.connections.size, room, user }
      else if m = y.tasks.size then .writer y.service.connections.size else y.task m := by
  unfold openSession connect
  rw [task_spawn, size_spawn, task_spawn]
  rfl

theorem task_of_size_le {n : TaskId} (h : y.tasks.size ≤ n) : y.task n = .done := by
  simp [task, Array.getElem?_eq_none h]

theorem lt_of_task_ne {n : TaskId} (h : y.task n ≠ .done) : n < y.tasks.size :=
  Nat.lt_of_not_le fun hn => h (y.task_of_size_le hn)

/-- A step of a deployment is a step of one task; the other tasks stay where they are. -/
theorem step_spec {y y' : Deployment} {n : TaskId} {choice : Choice} (h : y.step n choice = some y') :
    n < y.tasks.size ∧ ∃ k s, Task.Step y.service (y.task n) k s ∧ y' = { y.setTask n k with service := s } := by
  obtain ⟨⟨k, s⟩, hk, rfl⟩ := Option.map_eq_some_iff.1 h
  refine ⟨y.lt_of_task_ne fun hd => ?_, k, s, Task.step_spec hk, rfl⟩
  rw [hd] at hk
  cases hk

/-! ### Turns -/

/-- Whether a task is the subscription of a hub. -/
def isSubscriptionOf (hub : Nat) : Task → Bool
  | .subscriber x => x.hub == hub
  | _ => false

/-- Whether the subscription of a hub has been begun. -/
def subscribes (hub : Nat) : Bool := y.tasks.any (isSubscriptionOf hub)

theorem subscribes_of_task {y : Deployment} {n : TaskId} {x : Subscriber} (h : y.task n = .subscriber x) :
    y.subscribes x.hub = true := by
  have hn : n < y.tasks.size := y.lt_of_task_ne (by rw [h]; simp)
  have ht : y.tasks[n] = .subscriber x := by simpa [task, hn] using h
  unfold subscribes
  rw [Array.any_eq_true]
  exact ⟨n, hn, by rw [ht]; simp [isSubscriptionOf]⟩

end Deployment

/-- Something that happens of its own accord. -/
inductive Turn where
  /-- A task takes a step, if it can. -/
  | step (task : Deployment.TaskId) (choice : Choice)
  /-- Time passes up to an instant. -/
  | pass (t : Instant)
  /-- The subscription of a hub is begun; there is one for each hub. -/
  | listen (hub : Nat)
  /-- The broker cannot be reached, or can be again. -/
  | outage (down : Bool)
  /-- Every subscription ends. -/
  | disconnect

namespace Deployment

def turn (y : Deployment) : Turn → Deployment
  | .step n choice => (y.step n choice).getD y
  | .pass t => y.passTo t
  | .listen hub => if hub < y.service.hubs.size && !y.subscribes hub then ((y.start hub).map (·.2)).getD y else y
  | .outage down => { y with service := y.service.onBroker fun b => { b with available := !down } }
  | .disconnect => { y with service := y.service.onBroker (·.disconnect) }

end Deployment

end Parley
