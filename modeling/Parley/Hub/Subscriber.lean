import Parley.Hub.Activity

/-!
The subscription of a hub: every message on a channel of a room goes to the hub's connections in that
room. A subscription that ends, or cannot be made, is made again after a delay, which doubles each
time up to five seconds and starts anew after a subscription that gave a message. A hub that is told
to stop gives its subscription up.
-/

namespace Parley.Hub

inductive Listening where
  | subscribing
  /-- Reading a subscription, which has given a message or not. -/
  | listening (subscription : Nat) (received : Bool)
  /-- A message is on its way to the connections. -/
  | relaying (subscription : Nat) (fanout : Fanout)
  /-- The next try comes at this instant. -/
  | waiting (resume : Instant)
  | over
deriving DecidableEq, Repr

def firstDelay : Duration := .ofMillis 100

def longestDelay : Duration := .ofSecs 5

structure Subscriber where
  hub : Nat
  /-- The delay before the next try, without its random part. -/
  delay : Duration := firstDelay
  state : Listening := .subscribing
deriving DecidableEq, Repr

namespace Subscriber

def patterns : List String := Category.all.map Category.pattern

def isOver (x : Subscriber) : Bool := x.state = .over

/-- A subscription was over, or could not be made: waits and doubles the delay. -/
def pause (s : Service) (x : Subscriber) (choice : Choice) (received : Bool) : Subscriber :=
  let delay := if received then firstDelay else x.delay
  let wait := delay.nanos + (s.policy.jitter choice.draw).nanos
  { x with delay := (delay.mul 2).min longestDelay, state := .waiting (s.now + wait) }

def quit (s : Service) (x : Subscriber) : Subscriber × Service :=
  let s := match x.state, s.line with
    | .listening n _, some l => { s with line := some { l with broker := l.broker.drop n } }
    | _, _ => s
  ({ x with state := .over }, s)

/-- The delivery of a message: to the room of its channel, if it is the channel of a room. -/
def relay (hub : Nat) (m : Broker.Message) : Fanout :=
  match Channel.parse? m.channel with
  | some (_, room) => .listing hub room (Text.Utf8.decode? m.payload)
  | none => .done 0

def listen (s : Service) (x : Subscriber) (choice : Choice) (line : Broker.Line) (n : Nat) (received : Bool) :
    Option (Subscriber × Service) :=
  match line.broker.receive n with
  | (.waiting, _) => none
  | (.message m, broker) =>
    some ({ x with state := .relaying n (relay x.hub m) }, { s with line := some { line with broker } })
  | (.ended, broker) => some (x.pause s choice received, { s with line := some { line with broker := broker.drop n } })

/-- What the subscription does when it does not look at the stop. -/
def proceed (s : Service) (x : Subscriber) (choice : Choice) : Option (Subscriber × Service) :=
  match s.line, x.state with
  | none, .over => none
  | none, _ => some ({ x with state := .over }, s)
  | some line, .subscribing =>
    let (made, line) := line.subscribe s.now patterns
    let s := { s with line := some line }
    match made with
    | .ok n => some ({ x with state := .listening n false }, s)
    | .error _ => some (x.pause s choice false, s)
  | some line, .listening n received => listen s x choice line n received
  | some _, .relaying n (.done _) => some ({ x with state := .listening n true }, s)
  | some _, .relaying n f =>
    let (f, s) := f.step s
    some ({ x with state := .relaying n f }, s)
  | some _, .waiting t => if t ≤ s.now then some ({ x with state := .subscribing }, s) else none
  | some _, .over => none

/-- Whether the subscription looks at the stop where it stands. -/
def looksForStop (x : Subscriber) : Bool :=
  match x.state with
  | .relaying .. | .over => false
  | _ => true

/-- One step, or `none` while the subscription waits and when it is over. A stop is seen now or,
where there is something else to do, at a later step. -/
def step (s : Service) (x : Subscriber) (choice : Choice) : Option (Subscriber × Service) :=
  if (s.hub x.hub).stopped && x.looksForStop then
    if choice.stopFirst then some (x.quit s) else some ((x.proceed s choice).getD (x.quit s))
  else x.proceed s choice

def wake? (x : Subscriber) : Option Instant :=
  match x.state with
  | .waiting t => some t
  | _ => none

end Subscriber

end Parley.Hub
