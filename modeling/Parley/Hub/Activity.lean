import Parley.Channel
import Parley.Envelope
import Parley.Hub.Fanout

/-!
What a hub does about an event, one step at a time. An event is published on the broker, attempt
after attempt with a pause between them; when no attempt is left it goes to the hub's own
connections. Without a broker it goes there at once. For presence the status is recorded first.
-/

namespace Parley.Hub

/-- What chance decides about one step. -/
structure Choice where
  /-- The number that is drawn for the random part of a delay. -/
  draw : Nat := 0
  /-- Whether a stop is seen before anything else that is ready. -/
  stopFirst : Bool := true
deriving DecidableEq, Repr, Inhabited

structure Post where
  hub : Nat
  room : String
  category : Category
  /-- The text of the event, or why it has none. -/
  event : Except String String

namespace Post

def message (p : Post) (text : String) : Broker.Message := ⟨p.category.channel p.room, Text.Utf8.encode text⟩

/-- The delivery to the hub's own connections. -/
def fanout (p : Post) : Fanout := .listing p.hub p.room p.event.toOption

end Post

def presenceKey (room user : String) : String := "presence:" ++ room ++ ":" ++ user

/-- How long a presence record lives unless it is renewed. -/
def presenceLife : Duration := .ofSecs 60

/-- Where the handling of an event stands. -/
inductive Activity where
  /-- The status is to be recorded. -/
  | recording (post : Post) (user status : String)
  /-- This attempt is to be made, the first being number one. -/
  | attempting (post : Post) (attempt : UInt32)
  /-- The next attempt comes at this instant. -/
  | pausing (post : Post) (attempt : UInt32) (resume : Instant)
  /-- The event goes to the hub's own connections; the result is settled. -/
  | delivering (fanout : Fanout) (result : Except PublishError Unit)
  | finished (result : Except PublishError Unit)

namespace Activity

/-- What follows attempt number `attempt` with its outcome. -/
def afterAttempt (s : Service) (post : Post) (attempt : UInt32) (draw : Nat) (outcome : Broker.Outcome) : Activity :=
  match s.policy.next attempt outcome with
  | .done => .finished (.ok ())
  | .fallback e => .delivering post.fanout (.error (.exhausted s.policy.maxAttempts e))
  | .attempting next =>
    match (s.policy.backoff attempt).add? (s.policy.jitter draw) with
    | some delay => .pausing post next (s.now + delay.nanos)
    | none => .finished (.error .unending)

def attempt (s : Service) (post : Post) (n : UInt32) (draw : Nat) : Activity × Service :=
  match s.line, post.event with
  | none, _ => (.delivering post.fanout (.ok ()), s)
  | some _, .error reason => (.finished (.error (.unwritable reason)), s)
  | some line, .ok text =>
    let (outcome, line) := line.publish s.now (post.message text)
    (afterAttempt s post n draw outcome, { s with line := some line })

/-- Records a status; a failure changes nothing else. -/
def recordStatus (s : Service) (post : Post) (user status : String) : Activity × Service :=
  match s.onLine (·.setEx s.now (presenceKey post.room user) status presenceLife) with
  | none => (.delivering post.fanout (.ok ()), s)
  | some (_, s) => (.attempting post 1, s)

/-- One step, or `none` while the pause lasts and at the end. -/
def step (s : Service) (choice : Choice) : Activity → Option (Activity × Service)
  | .recording post user status => some (recordStatus s post user status)
  | .attempting post n => some (attempt s post n choice.draw)
  | .pausing post n t => if t ≤ s.now then some (.attempting post n, s) else none
  | .delivering (.done _) result => some (.finished result, s)
  | .delivering f result =>
    let (f, s) := f.step s
    some (.delivering f result, s)
  | .finished _ => none

def wake? : Activity → Option Instant
  | .pausing _ _ t => some t
  | _ => none

def result? : Activity → Option (Except PublishError Unit)
  | .finished r => some r
  | _ => none

def publish (hub : Nat) (room : String) (category : Category) (event : Except String String) : Activity :=
  .attempting { hub, room, category, event } 1

/-- The activity of announcing a status; an empty one is `online`. -/
def announce (s : Service) (hub : Nat) (room user : String) (status : Option String) : Activity × Service :=
  let status := (status.filter (· != "")).getD defaultStatus
  let (time, s) := s.readClock
  let event := (Envelope.presence room user time status).text
  (.recording { hub, room, category := .presence, event := .ok event } user status, s)

end Activity

/-- The recorded status of a person in a room, where it is known. -/
def readStatus (s : Service) (room user : String) : Option String × Service :=
  match s.onLine (·.get s.now (presenceKey room user)) with
  | some (.ok v, s) => (v, s)
  | some (.error _, s) => (none, s)
  | none => (none, s)

end Parley.Hub
