import Parley.Broker.Error
import Parley.Glob
import Parley.Text.Utf8

/-!
The broker in memory. Accepted messages go to the end of a feed; a disconnect begins a new feed.
A subscription is a place in one feed with the patterns it asks for. It reads on from its place, and
has lost what lies more than `capacity` messages back; at the end of a feed that is not the current
one it is over. Records carry the instant until which they live.
-/

namespace Parley

/-- A point of the virtual clock, in nanoseconds. -/
abbrev Instant := Nat

namespace Broker

structure Message where
  channel : String
  payload : Bytes
deriving DecidableEq, Repr, Inhabited

/-- A stored text and the instant at which it is gone. -/
structure Record where
  value : String
  expiry : Instant
deriving DecidableEq, Repr, Inhabited

structure Subscription where
  feed : Nat
  position : Nat
  patterns : List Glob
  /-- Given up by its owner. -/
  dropped : Bool := false
deriving Repr, Inhabited

inductive Delivery where
  | message (m : Message)
  /-- Nothing yet. -/
  | waiting
  /-- Nothing ever again. -/
  | ended
deriving DecidableEq, Repr

/-- How many messages are kept for a subscription that does not read. -/
def capacity : Nat := 1024

/-- The failure of every command while the broker cannot be reached. -/
def unavailable : Error := ⟨.connection, "broker unavailable"⟩

end Broker

structure MemoryBroker where
  available : Bool := true
  records : List (String × Broker.Record) := []
  /-- Every feed there has been; the last one is current. -/
  feeds : Array (Array Broker.Message) := #[#[]]
  subscriptions : Array Broker.Subscription := #[]
  /-- How many publishes were tried. -/
  attempts : Nat := 0
deriving Repr, Inhabited

namespace MemoryBroker

open Broker

def current (b : MemoryBroker) : Nat := b.feeds.size - 1

def feed (b : MemoryBroker) (n : Nat) : Array Message := b.feeds.getD n #[]

/-! ### Messages -/

/-- Publishes a message. A message that is refused goes to nobody. -/
def publish (b : MemoryBroker) (m : Message) : Outcome × MemoryBroker :=
  let b := { b with attempts := b.attempts + 1 }
  if b.available then (.ok (), { b with feeds := b.feeds.modify b.current (·.push m) })
  else (.error unavailable, b)

/-- Ends every subscription once it has read what is kept for it. -/
def disconnect (b : MemoryBroker) : MemoryBroker := { b with feeds := b.feeds.push #[] }

/-- The patterns of texts, or the first fault. -/
def readPatterns (texts : List String) : Except Error (List Glob) :=
  texts.foldr (fun t rest =>
    match Glob.parse t with
    | .ok g => rest.map (g :: ·)
    | .error fault => .error ⟨.command, "invalid pattern: " ++ fault.message⟩) (.ok [])

/-- A new subscription, which has everything that is published from now on. -/
def subscribe (b : MemoryBroker) (patterns : List String) : Except Error Nat × MemoryBroker :=
  if !b.available then (.error unavailable, b)
  else match readPatterns patterns with
    | .error e => (.error e, b)
    | .ok patterns =>
      let s : Subscription := { feed := b.current, position := (b.feed b.current).size, patterns }
      (.ok b.subscriptions.size, { b with subscriptions := b.subscriptions.push s })

/-- The place of the first message from `position` on that one of the patterns accepts, or the end. -/
def seek (messages : Array Message) (patterns : List Glob) (position : Nat) : Nat :=
  if h : position < messages.size then
    if patterns.any (·.accepts messages[position].channel) then position
    else seek messages patterns (position + 1)
  else position
termination_by messages.size - position

/-- The oldest place that is still kept in a feed of so many messages. -/
def oldest (size : Nat) : Nat := size - capacity

def receive (b : MemoryBroker) (n : Nat) : Delivery × MemoryBroker :=
  match b.subscriptions[n]? with
  | none => (.ended, b)
  | some s =>
    if s.dropped then (.ended, b)
    else
      let messages := b.feed s.feed
      let place := seek messages s.patterns (max s.position (oldest messages.size))
      let moved (p : Nat) : MemoryBroker :=
        { b with subscriptions := b.subscriptions.set! n { s with position := p } }
      match messages[place]? with
      | some m => (.message m, moved (place + 1))
      | none => if s.feed = b.current then (.waiting, moved place) else (.ended, moved place)

def hasNext (b : MemoryBroker) (n : Nat) : Bool :=
  match (b.receive n).1 with
  | .waiting => false
  | _ => true

/-- As many messages as a subscription has, up to a number of them, and whether it is over then. -/
def receiveMany (b : MemoryBroker) (n : Nat) : Nat → List Message × Bool × MemoryBroker
  | 0 => ([], false, b)
  | limit + 1 =>
    match b.receive n with
    | (.message m, b) =>
      let (ms, ended, b) := receiveMany b n limit
      (m :: ms, ended, b)
    | (.waiting, b) => ([], false, b)
    | (.ended, b) => ([], true, b)

def drop (b : MemoryBroker) (n : Nat) : MemoryBroker :=
  { b with subscriptions := b.subscriptions.modify n fun s => { s with dropped := true } }

def subscriberCount (b : MemoryBroker) : Nat :=
  b.subscriptions.toList.countP fun s => !s.dropped && s.feed == b.current

/-! ### Records -/

def put (b : MemoryBroker) (key : String) (r : Record) : MemoryBroker :=
  { b with records := (key, r) :: b.records.filter (·.1 != key) }

/-- Stores a text under a key for so long. -/
def setEx (b : MemoryBroker) (now : Instant) (key value : String) (ttl : Nat) : Outcome × MemoryBroker :=
  if b.available then (.ok (), b.put key ⟨value, now + ttl⟩) else (.error unavailable, b)

def peek (b : MemoryBroker) (key : String) : Option Record := b.records.lookup key

/-- The text of a record that lives beyond `now`. -/
def Record.live? (r : Record) (now : Instant) : Option String := if now < r.expiry then some r.value else none

/-- Removes what is stored under a key if it is gone by `now`. -/
def sweep (b : MemoryBroker) (now : Instant) (key : String) : MemoryBroker :=
  { b with records := b.records.filter fun (k, r) => !(k == key && r.expiry ≤ now) }

/-- The text under a key: the clock is read, then the record, and one that is gone is removed. -/
def get (b : MemoryBroker) (now : Instant) (key : String) : Except Error (Option String) × MemoryBroker :=
  if !b.available then (.error unavailable, b)
  else match b.peek key with
    | none => (.ok none, b)
    | some r =>
      match Record.live? r now with
      | some v => (.ok (some v), b)
      | none => (.ok none, b.sweep now key)

end MemoryBroker

end Parley
