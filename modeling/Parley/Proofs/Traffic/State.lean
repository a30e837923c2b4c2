import Mathlib.Logic.Function.Basic
import Parley.Proofs.Turn

/-!
How the events of publish calls travel: from a call into the broker's feed, or past it to the hub's
own connections; from the feed through the subscription of a hub to the connections of a room. A
`Traffic` is what of a deployment matters here, with the call that each message and each accepted
frame comes from; `Traffic.Change` lists what can happen to it.

A call is known by the number of its task.
-/

namespace Parley

open Hub Deployment

/-- The part of a task that matters to the traffic. -/
def Task.carrier : Task → Task
  | .activity a => .activity a
  | .subscriber x => .subscriber x
  | _ => .done

/-- A task that neither serves a client nor closes a connection. -/
def Task.Plain : Task → Prop
  | .session _ => False
  | .closer _ => False
  | _ => True

/-- The delivery that a task is busy with. -/
def Task.fanout? : Task → Option Fanout
  | .activity (.delivering f _) => some f
  | .subscriber { state := .relaying _ f, .. } => some f
  | _ => none

/-- The task with its delivery at another place. -/
def Task.withFanout (f : Fanout) : Task → Task
  | .activity (.delivering _ r) => .activity (.delivering f r)
  | .subscriber { hub, delay, state := .relaying k _ } => .subscriber { hub, delay, state := .relaying k f }
  | t => t

/-- The subscription that a hub's subscriber reads. -/
def Hub.Subscriber.held? (x : Subscriber) : Option Nat :=
  match x.state with
  | .listening k _ => some k
  | .relaying k _ => some k
  | _ => none

theorem Task.fanout?_eq_some {t : Task} {f : Fanout} (h : t.fanout? = some f) :
    (∃ r, t = .activity (.delivering f r)) ∨ ∃ x k, t = .subscriber x ∧ x.state = .relaying k f := by
  unfold fanout? at h
  split at h
  · rename_i g r
    cases h
    exact .inl ⟨r, rfl⟩
  · rename_i hub delay k g
    cases h
    exact .inr ⟨_, k, rfl, rfl⟩
  · cases h

/-- The events under way. -/
@[ext] structure Traffic where
  /-- The event of each publish call. -/
  posts : TaskId → Option Post
  task : TaskId → Task
  /-- How many connections there are. -/
  count : Nat
  /-- The hub and the room of each connection. -/
  home : ConnId → Nat
  room : ConnId → String
  /-- The connections that a hub lists in a room. -/
  members : Nat → String → List ConnId
  /-- The number of the broker's current feed. -/
  current : Nat
  /-- The calls that the messages of each feed come from, in order. -/
  origins : Nat → List TaskId
  subscription : Nat → Option Broker.Subscription
  /-- The calls whose frames a connection has accepted, in order, and those frames. -/
  accepted : ConnId → List TaskId
  frames : ConnId → List String

namespace Traffic

variable (v : Traffic)

def roomOf (p : TaskId) : String := ((v.posts p).map (·.room)).getD ""

def text (p : TaskId) : String := ((v.posts p).bind (·.event.toOption)).getD ""

def message (p : TaskId) : Broker.Message := ((v.posts p).map (·.message (v.text p))).getD default

/-- The call whose frame a task hands out: a subscriber hands out the message before its place. -/
def source (n : TaskId) : TaskId :=
  match v.task n with
  | .subscriber { state := .relaying k _, .. } =>
    match v.subscription k with
    | some s => (v.origins s.feed).getD (s.position - 1) n
    | none => n
  | _ => n

/-- The steps of a publish call that move no event. -/
inductive Quiet : Activity → Activity → Prop
  | pause (q : Post) (n n' : UInt32) (t : Instant) : Quiet (.attempting q n) (.pausing q n' t)
  | resume (q : Post) (n : UInt32) (t : Instant) : Quiet (.pausing q n t) (.attempting q n)
  | fail (q : Post) (n : UInt32) (e : PublishError) (he : ∀ k b, e ≠ .exhausted k b) :
      Quiet (.attempting q n) (.finished (.error e))
  | settle (k : Nat) (r : Except PublishError Unit) : Quiet (.delivering (.done k) r) (.finished r)

/-- The steps of a delivery that reach no connection. -/
inductive Passes (takes : ConnId → Prop) : Fanout → Fanout → Prop
  | blank (hub : Nat) (room : String) : Passes takes (.listing hub room none) (.done 0)
  | list (hub : Nat) (room text : String) :
      Passes takes (.listing hub room (some text)) (.handing text (v.members hub room) 0)
  | skip (frame : String) (c : ConnId) (rest : List ConnId) (sent : Nat) (ht : ¬ takes c) :
      Passes takes (.handing frame (c :: rest) sent) (.handing frame rest sent)
  | finish (frame : String) (sent : Nat) : Passes takes (.handing frame [] sent) (.done sent)

/-- What can happen, where `takes` tells which connections would take a frame. -/
inductive Change (takes : ConnId → Prop) (v : Traffic) : Traffic → Prop
  | none : Change takes v v
  /-- A publish call begins. -/
  | call (p : TaskId) (q : Post) (hp : v.task p = .done) : Change takes v
      { v with posts := Function.update v.posts p (some q)
               task := Function.update v.task p (.activity (.attempting q 1)) }
  /-- A hub begins to subscribe. -/
  | listen (n : TaskId) (x : Subscriber) (hn : v.task n = .done) (hx : x.held? = none)
      (alone : ∀ m z, v.task m = .subscriber z → z.hub ≠ x.hub) : Change takes v
      { v with task := Function.update v.task n (.subscriber x) }
  /-- A connection comes; one is entered into its room on its hub, or removed from it. -/
  | connect (hub : Nat) (room : String) : Change takes v
      { v with count := v.count + 1
               home := Function.update v.home v.count hub, room := Function.update v.room v.count room }
  | enlist (members : Nat → String → List ConnId)
      (hm : ∀ h r c, c ∈ members h r → c ∈ v.members h r ∨ (c < v.count ∧ v.home c = h ∧ v.room c = r))
      (hnd : ∀ h r, (members h r).Nodup) : Change takes v { v with members }
  /-- A call goes on without its event. -/
  | quiet (p : TaskId) (a a' : Activity) (hp : v.task p = .activity a) (ha : Quiet a a') : Change takes v
      { v with task := Function.update v.task p (.activity a') }
  /-- The broker accepts the event of a call. -/
  | accept (p : TaskId) (q : Post) (n : UInt32) (text : String) (hp : v.task p = .activity (.attempting q n))
      (he : q.event = .ok text) : Change takes v
      { v with task := Function.update v.task p (.activity (.finished (.ok ())))
               origins := Function.update v.origins v.current (v.origins v.current ++ [p]) }
  /-- A call has no attempt left. -/
  | fallBack (p : TaskId) (q : Post) (n : UInt32) (text : String) (hp : v.task p = .activity (.attempting q n))
      (he : q.event = .ok text) (k : UInt32) (e : Broker.Error) : Change takes v
      { v with task := Function.update v.task p (.activity (.delivering q.fanout (.error (.exhausted k e)))) }
  /-- A delivery goes on. -/
  | pass (n : TaskId) (f f' : Fanout) (hn : (v.task n).fanout? = some f) (hf : v.Passes takes f f') : Change takes v
      { v with task := Function.update v.task n ((v.task n).withFanout f') }
  | hand (n : TaskId) (frame : String) (c : ConnId) (rest : List ConnId) (sent : Nat)
      (hn : (v.task n).fanout? = some (.handing frame (c :: rest) sent)) (ht : takes c) : Change takes v
      { v with task := Function.update v.task n ((v.task n).withFanout (.handing frame rest (sent + 1)))
               accepted := Function.update v.accepted c (v.accepted c ++ [v.source n])
               frames := Function.update v.frames c (v.frames c ++ [frame]) }
  /-- A subscription is made, at the end of the current feed. -/
  | subscribed (n : TaskId) (x : Subscriber) (hn : v.task n = .subscriber x) (hx : x.held? = Option.none) (k : Nat)
      (hk : v.subscription k = Option.none)
      (globs : List Glob) (hg : MemoryBroker.readPatterns Subscriber.patterns = .ok globs) : Change takes v
      { v with task := Function.update v.task n (.subscriber { x with state := .listening k false })
               subscription := Function.update v.subscription k
                 (some { feed := v.current, position := (v.origins v.current).length, patterns := globs }) }
  /-- A subscriber reads a message, at its place or behind what it has lost or has not asked for. -/
  | received (n : TaskId) (x : Subscriber) (hn : v.task n = .subscriber x) (k : Nat) (r : Bool)
      (hx : x.state = .listening k r) (s : Broker.Subscription) (hs : v.subscription k = some s) (place : Nat)
      (p : TaskId) (hp : (v.origins s.feed)[place]? = some p) (hle : s.position ≤ place)
      (hskip : ∀ i p, (v.origins s.feed)[i]? = some p →
        max s.position (MemoryBroker.oldest (v.origins s.feed).length) ≤ i →
        i < place → s.patterns.any (·.accepts (v.message p).channel) = false) : Change takes v
      { v with task := Function.update v.task n
                 (.subscriber { x with state := .relaying k (Subscriber.relay x.hub (v.message p)) })
               subscription := Function.update v.subscription k (some { s with position := place + 1 }) }
  | relayed (n : TaskId) (x : Subscriber) (hn : v.task n = .subscriber x) (k j : Nat)
      (hx : x.state = .relaying k (.done j)) :
      Change takes v { v with task := Function.update v.task n (.subscriber { x with state := .listening k true }) }
  /-- A subscriber holds no subscription any more, as it is over, or waits on. -/
  | rest (n : TaskId) (x x' : Subscriber) (hn : v.task n = .subscriber x) (hub : x'.hub = x.hub)
      (hx : x'.held? = Option.none)
      (hend : ∀ k s, x.held? = some k → v.subscription k = some s → s.dropped = true ∨ s.feed ≠ v.current)
      (subscription : Nat → Option Broker.Subscription)
      (hs : ∀ j, x.held? ≠ some j → subscription j = v.subscription j) : Change takes v
      { v with task := Function.update v.task n (.subscriber x'), subscription }
  /-- Every subscription ends: a new feed begins. -/
  | disconnect : Change takes v { v with current := v.current + 1 }

end Traffic

end Parley
