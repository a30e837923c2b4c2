import Parley.Broker.Memory
import Parley.Time.Duration

/-!
The broker behind a Redis server. Each call is one command, a subscription one command for each of
its patterns; the server answers with a reply, and a reply of the wrong kind is a failed command.
`Server` keeps texts, subscriptions and a record of the commands it received.
-/

namespace Parley.Redis

open Broker (Error ErrorKind Outcome)

inductive Command where
  | ping
  | setEx (key : String) (secs : Nat) (value : String)
  | get (key : String)
  | publish (channel : String) (payload : Bytes)
  | psubscribe (pattern : String)
deriving DecidableEq, Repr

def Command.name : Command → String
  | .ping => "PING"
  | .setEx .. => "SETEX"
  | .get .. => "GET"
  | .publish .. => "PUBLISH"
  | .psubscribe .. => "PSUBSCRIBE"

/-- The words of a command as they are sent. -/
def Command.words (c : Command) : List Bytes :=
  let e := Text.Utf8.encode
  e c.name :: match c with
    | .ping => []
    | .setEx key secs value => [e key, e (toString secs), e value]
    | .get key => [e key]
    | .publish channel payload => [e channel, payload]
    | .psubscribe pattern => [e pattern]

inductive Reply where
  | status (text : String)
  | integer (n : Int)
  | bulk (text : Option String)
  | error (text : String)
deriving DecidableEq, Repr

/-- The reply that a line states; `none` for any other line. -/
def Reply.ofLine? (line : String) : Option Reply :=
  let rest := String.ofList (line.toList.drop 1)
  match line.toList.head? with
  | some '-' => some (.error rest)
  | some '+' => some (.status rest)
  | some ':' => some (.integer (rest.toInt?.getD 0))
  | some '$' => some (.bulk none)
  | _ => none

/-- A subscription: its patterns in the order in which they were asked for, and what has come. -/
structure Listener where
  patterns : List String
  inbox : List Broker.Message := []
deriving Repr, Inhabited

structure Server where
  texts : List (String × String) := []
  listeners : List (String × Listener) := []
  /-- Replies that the next commands of a name get instead of their own; `none` is their own. -/
  scripted : List (String × List (Option Reply)) := []
  /-- The commands received since they were last looked at, the latest first. -/
  received : List Command := []
deriving Repr, Inhabited

namespace Server

/-- Whether a pattern matches a channel: a star at its end matches anything, and so does no star. -/
def patternMatches (pattern channel : String) : Bool :=
  let cs := pattern.toList
  let stem := if cs.getLast? = some '*' then cs.dropLast else cs
  stem.isPrefixOf channel.toList

/-- The scripted reply for the next command of a name, and the script without it. -/
def nextScripted (name : String) : List (String × List (Option Reply)) →
    Option Reply × List (String × List (Option Reply))
  | [] => (none, [])
  | (n, r :: rs) :: rest => if n = name then (r, (n, rs) :: rest) else
    let (reply, rest) := nextScripted name rest
    (reply, (n, r :: rs) :: rest)
  | (_, []) :: rest => nextScripted name rest

def script (s : Server) (name : String) (replies : List (Option Reply)) : Server :=
  { s with scripted := s.scripted ++ [(name, replies)] }

/-- What a message does to a subscription: it comes once for each pattern that matches. -/
def Listener.hear (l : Listener) (m : Broker.Message) : Listener :=
  { l with inbox := l.inbox ++ (l.patterns.filter (patternMatches · m.channel)).map fun _ => m }

/-- A command's own reply and effect. -/
def perform (s : Server) : Command → Reply × Server
  | .ping => (.status "PONG", s)
  | .setEx key _ value => (.status "OK", { s with texts := (key, value) :: s.texts.filter (·.1 != key) })
  | .get key => (.bulk (s.texts.lookup key), s)
  | .publish channel payload =>
    let heard := s.listeners.map fun (n, l) => (n, Listener.hear l ⟨channel, payload⟩)
    (.integer (s.listeners.countP fun (_, l) => l.patterns.any (patternMatches · channel)),
     { s with listeners := heard })
  | .psubscribe _ => (.status "OK", s)

/-- Receives a command and replies. A scripted reply takes the place of the effect. -/
def handle (s : Server) (c : Command) : Reply × Server :=
  let s := { s with received := c :: s.received }
  match nextScripted c.name s.scripted with
  | (some reply, rest) => (reply, { s with scripted := rest })
  | (none, rest) => perform { s with scripted := rest } c

end Server

/-! ### Calls -/

def commandFailed : ErrorKind := .command

def connect (s : Server) : Except ErrorKind Unit × Server :=
  match s.handle .ping with
  | (.status _, s) | (.bulk (some _), s) => (.ok (), s)
  | (_, s) => (.error commandFailed, s)

/-- The seconds that a record is kept: whole ones, and at least one. -/
def keepSecs (ttl : Duration) : Nat := max ttl.secs 1

def setEx (s : Server) (key value : String) (ttl : Duration) : Except ErrorKind Unit × Server :=
  match s.handle (.setEx key (keepSecs ttl) value) with
  | (.error _, s) => (.error commandFailed, s)
  | (_, s) => (.ok (), s)

def get (s : Server) (key : String) : Except ErrorKind (Option String) × Server :=
  match s.handle (.get key) with
  | (.bulk v, s) => (.ok v, s)
  | (.status t, s) => (.ok (some t), s)
  | (_, s) => (.error commandFailed, s)

def publish (s : Server) (m : Broker.Message) : Except ErrorKind Unit × Server :=
  match s.handle (.publish m.channel m.payload) with
  | (.integer _, s) => (.ok (), s)
  | (_, s) => (.error commandFailed, s)

/-- Asks for each pattern in turn; the first refusal ends it. -/
def subscribeAll (s : Server) : List String → Except ErrorKind Unit × Server
  | [] => (.ok (), s)
  | p :: rest =>
    match s.handle (.psubscribe p) with
    | (.error _, s) => (.error commandFailed, s)
    | (_, s) => subscribeAll s rest

/-- A subscription under a name, in place of one of the same name. -/
def subscribe (s : Server) (name : String) (patterns : List String) : Except ErrorKind Unit × Server :=
  match subscribeAll s patterns with
  | (.error e, s) => (.error e, s)
  | (.ok (), s) =>
    (.ok (), { s with listeners := s.listeners.filter (·.1 != name) ++ [(name, { patterns })] })

def receive (s : Server) (name : String) (count : Nat) : List Broker.Message × Server :=
  match s.listeners.lookup name with
  | none => ([], s)
  | some l =>
    (l.inbox.take count, { s with listeners := s.listeners.map fun (n, m) =>
      if n = name then (n, { l with inbox := l.inbox.drop count }) else (n, m) })

/-! ### Failures -/

/-- The kinds of failure that the connection to a server can have. -/
inductive Trouble where
  /-- Input or output failed. -/
  | io (timedOut : Bool)
  /-- The server refused, or its answer made no sense. -/
  | reply
deriving DecidableEq, Repr

/-- The kind under which a trouble is reported. -/
def Trouble.kind : Trouble → ErrorKind
  | .io true => .timeout
  | .io false => .connection
  | .reply => .command

end Parley.Redis
