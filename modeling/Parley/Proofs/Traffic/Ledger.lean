import Parley.Proofs.Traffic.Delivered

/-!
Hubs that share a broker, with books on where every message and every frame comes from. The books
only look on: what has come into a feed in the step of a task is that task's, and what has come to a
connection is of the call whose frame the task was handing out.
-/

namespace Parley

open Hub Deployment Function

structure Ledger where
  deployment : Deployment
  /-- The event of each publish call. -/
  posts : TaskId → Option Post := fun _ => none
  /-- The hub of each connection. -/
  home : ConnId → Nat := fun _ => 0
  /-- The calls that the messages of each feed come from, in order. -/
  origins : Nat → List TaskId := fun _ => []
  /-- The calls that the accepted frames of each connection come from, in order. -/
  accepted : ConnId → List TaskId := fun _ => []

namespace Ledger

variable (l : Ledger)

abbrev service (l : Ledger) : Service := l.deployment.service

/-- The events under way. -/
def view : Traffic where
  posts := l.posts
  task n := (l.deployment.task n).carrier
  count := l.service.connections.size
  home := l.home
  room c := (l.service.connection c).room
  members h r := (l.service.registry h).snapshot r
  current := l.service.broker.current
  origins := l.origins
  subscription k := l.service.broker.subscriptions[k]?
  accepted := l.accepted
  frames c := (l.service.connection c).accepted

/-- The books after a step of a task that has led to `y`. -/
def note (n : TaskId) (y : Deployment) : Ledger :=
  { l with
    deployment := y
    origins := fun f =>
      if (l.service.broker.feed f).size < (y.service.broker.feed f).size then l.origins f ++ [n] else l.origins f
    accepted := fun c =>
      if (l.service.connection c).accepted.length < (y.service.connection c).accepted.length then
        l.accepted c ++ [l.view.source n]
      else l.accepted c }

/-- What can happen to hubs that share a broker. -/
inductive Move where
  /-- A task takes a step, time passes, a hub begins to subscribe, the broker fails or disconnects. -/
  | turn (t : Turn)
  /-- A connection comes to a hub. It is in no room yet. -/
  | connect (hub : Nat) (room user : String) (sink : Sink)
  /-- A connection that is open is entered into its room on its hub. -/
  | register (c : ConnId)
  /-- A connection is removed from its room on its hub. -/
  | deregister (c : ConnId)
  /-- The transport of a connection that is not in its room is closed. -/
  | close (c : ConnId)
  /-- An event is published from a hub. -/
  | publish (post : Post)

def withService (s : Service) : Ledger := { l with deployment := { l.deployment with service := s } }

def apply (l : Ledger) : Move → Ledger
  | .turn (.step n choice) => l.note n (l.deployment.turn (.step n choice))
  | .turn t => { l with deployment := l.deployment.turn t }
  | .connect hub room user sink =>
    { l with deployment := (l.deployment.connect room user sink).2
             home := update l.home l.service.connections.size hub }
  | .register c =>
    if c < l.service.connections.size ∧ (l.service.connection c).closed = false then
      l.withService (l.service.register (l.home c) c)
    else l
  | .deregister c => l.withService (l.service.deregister (l.home c) c)
  | .close c =>
    if c ∈ (l.service.registry (l.home c)).snapshot (l.service.connection c).room then l
    else l.withService (l.service.close c)
  | .publish post =>
    { l with deployment := (l.deployment.spawn (.activity (.publish post.hub post.room post.category post.event))).2
             posts := update l.posts l.deployment.tasks.size (some post) }

def run (l : Ledger) (ms : List Move) : Ledger := ms.foldl apply l

/-- So many hubs with a broker in memory, before anyone has come; everything else is as in `base`. -/
def start (base : Service) (hubs : Nat) : Ledger where
  deployment := { service := { base with line := some {}, hubs := Array.replicate hubs {}, connections := #[] } }

/-- The hubs run on one broker and list open connections, and the books have every message. -/
structure Steady (l : Ledger) : Prop where
  line : l.service.line.isSome
  plain : ∀ n, (l.deployment.task n).Plain
  running : ∀ h, (l.service.hub h).stopped = false
  listed : ∀ h r c, c ∈ (l.service.registry h).snapshot r → (l.service.connection c).closed = false
  feeds : 0 < l.service.broker.feeds.size
  feed : ∀ f, (l.service.broker.feed f).toList = (l.origins f).map l.view.message

/-- The books agree with the deployment. -/
structure Sound (l : Ledger) : Prop extends Steady l where
  filed : l.view.Filed
  delivered : l.view.Delivered

theorem sound_start (base : Service) (hubs : Nat) : Sound (start base hubs) := by
  have htask : ∀ n, (start base hubs).view.task n = .done := fun n => by simp [view, start, task, Task.carrier]
  have hhub : ∀ h, (start base hubs).service.hub h = {} := by
    intro h
    simp only [start, Service.hub, Array.getD_eq_getD_getElem?, Array.getElem?_replicate]
    split <;> rfl
  have hmem : ∀ h r, (start base hubs).view.members h r = [] := by
    intro h r
    show ((start base hubs).service.registry h).snapshot r = []
    rw [Service.registry, hhub]
    rfl
  refine ⟨⟨rfl, ?_, fun h => by rw [hhub], fun _ _ _ _ => rfl, Nat.one_pos, ?_⟩, ?_, ?_⟩
  · intro n
    simp [start, task, Task.Plain]
  · intro f
    simp only [start, Service.broker, MemoryBroker.feed, Option.map_some, Option.getD_some, List.map_nil]
    cases f <;> rfl
  · exact {
      posted := fun p q h => by cases h
      fits := fun p a h => by rw [htask] at h; cases h
      placed := fun f i p h => by simp [view, start] at h
      once := fun f i g j p h => by simp [view, start] at h
      alone := fun n m x z h => by rw [htask] at h; cases h
      apart := fun n m x z k h => by rw [htask] at h; cases h
      reads := fun n x k h => by rw [htask] at h; cases h }
  · exact {
      member := fun h r c hc => by rw [hmem] at hc; cases hc
      nodup := fun h r => by rw [hmem]; exact List.nodup_nil
      unborn := fun c _ => ⟨rfl, rfl⟩
      known := fun c p h => by cases h
      room := fun c p h => by cases h
      came := fun c p h => by cases h
      distinct := fun c => List.nodup_nil
      frames := fun c => rfl
      carried := fun n f h => by rw [htask] at h; cases h }

end Ledger

end Parley
