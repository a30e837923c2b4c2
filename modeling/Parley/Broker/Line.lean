import Parley.Broker.Memory
import Parley.Time.Duration

/-!
The line from the hubs to their broker. Every call is entered in a journal with its time and its
outcome. Calls can be made to fail on the line: such a call does not reach the broker.
-/

namespace Parley.Broker

inductive CallKind where
  | publish
  | setEx
  | get
  | subscribe
deriving DecidableEq, Repr, Inhabited

inductive Call where
  | publish (m : Message)
  | setEx (key value : String) (ttl : Duration)
  | get (key : String)
  | subscribe (patterns : List String)
deriving DecidableEq, Repr

def Call.kind : Call → CallKind
  | .publish _ => .publish
  | .setEx .. => .setEx
  | .get _ => .get
  | .subscribe _ => .subscribe

/-- A call that was made, when, and how it ended. -/
structure Entry where
  time : Instant
  call : Call
  outcome : Outcome
deriving Repr

structure Plan where
  kind : CallKind
  /-- The failure, or nothing for a call that is to go through. -/
  failure : Option ErrorKind
deriving DecidableEq, Repr, Inhabited

/-- A broker and the line to it. -/
structure Line where
  broker : MemoryBroker := {}
  /-- How the next calls of each kind are to end, the next one first. -/
  plans : List Plan := []
  /-- The calls that were made, in order. -/
  journal : List Entry := []
  /-- What is said of a planned failure. -/
  said : String := "scripted"
deriving Repr

instance : Inhabited Line := ⟨{}⟩

namespace Line

/-- Takes the next plan for a call: its failure, if it is to fail. -/
def takePlan (l : Line) (kind : CallKind) : Option Error × Line :=
  match l.plans.find? (·.kind == kind) with
  | none => (none, l)
  | some p => (p.failure.map (⟨·, l.said⟩), { l with plans := l.plans.erase p })

/-- Makes a call: it fails as planned, or goes through to the broker. -/
def call {α : Type} (l : Line) (now : Instant) (c : Call) (run : MemoryBroker → Except Error α × MemoryBroker) :
    Except Error α × Line :=
  let (planned, l) := l.takePlan c.kind
  let (answer, broker) : Except Error α × MemoryBroker := match planned with
    | some e => (.error e, l.broker)
    | none => run l.broker
  (answer, { l with broker, journal := l.journal ++ [⟨now, c, answer.map fun _ => ()⟩] })

def publish (l : Line) (now : Instant) (m : Message) : Outcome × Line := l.call now (.publish m) (·.publish m)

def setEx (l : Line) (now : Instant) (key value : String) (ttl : Duration) : Outcome × Line :=
  l.call now (.setEx key value ttl) (·.setEx now key value ttl.nanos)

def get (l : Line) (now : Instant) (key : String) : Except Error (Option String) × Line :=
  l.call now (.get key) (·.get now key)

def subscribe (l : Line) (now : Instant) (patterns : List String) : Except Error Nat × Line :=
  l.call now (.subscribe patterns) (·.subscribe patterns)

end Line

end Parley.Broker
