import Parley.Broker.Memory
import Parley.Hub.Registry
import Parley.Text.Quoted
import Parley.Transport

/-!
A connection: frames wait in a queue of limited length behind a writer, which hands them to the
transport one at a time. The writer takes a frame, begins to write it and waits for the transport,
at most ten seconds; a frame that fails costs only itself. Closing stops the writer and closes the
transport once.
-/

namespace Parley.Hub

/-- What becomes of a write. -/
inductive Fate where
  /-- Written at once. -/
  | taken
  /-- Failed at once. -/
  | refused
  /-- Written after so many nanoseconds. -/
  | delayed (nanos : Nat)
  /-- Failed after so many nanoseconds. -/
  | failing (nanos : Nat)
  /-- Never finished. -/
  | stalled
deriving DecidableEq, Repr, Inhabited

/-- The sending half of a transport: the fate of its first write, its second, and so on. -/
abbrev Sink := Nat → Fate

/-- What the other end of a transport sees. -/
inductive Sight where
  | text (frame : String)
  /-- A write failed. -/
  | failed
  /-- A write began that never ends. -/
  | stalled
  | closed
deriving DecidableEq, Repr, Inhabited

/-- Where a writer stands. -/
inductive Writer where
  | idle
  /-- It has taken a frame from the queue. -/
  | holding (frame : String)
  /-- It waits for the transport, until the transport is done, with the frame written or not, and no longer
  than the deadline. -/
  | writing (frame : String) (done : Option (Instant × Bool)) (deadline : Instant)
  | stopped
deriving DecidableEq, Repr, Inhabited

structure Connection where
  label : String
  room : String
  user : String
  sink : Sink
  queue : List String := []
  closed : Bool := false
  writer : Writer := .idle
  /-- Every frame that was ever queued, in order. -/
  accepted : List String := []
  /-- Every frame whose write has begun, in order. -/
  begun : List String := []
  /-- What the other end has seen, in order. -/
  sights : List Sight := []

instance : Inhabited Connection := ⟨{ label := "", room := "", user := "", sink := fun _ => .taken }⟩

namespace Connection

/-- How many frames may wait behind the writer. -/
def capacity : Nat := 256

def writeLimit : Duration := .ofSecs 10

def see (c : Connection) (s : Sight) : Connection := { c with sights := c.sights ++ [s] }

/-- Queues a frame, without waiting for the transport. -/
def send (c : Connection) (frame : String) : Except TransportError Unit × Connection :=
  if c.closed then (.error .closed, c)
  else if capacity ≤ c.queue.length then (.error .full, c)
  else (.ok (), { c with queue := c.queue ++ [frame], accepted := c.accepted ++ [frame] })

theorem send_eq_ok_iff (c : Connection) (frame : String) :
    (c.send frame).1 = .ok () ↔ c.closed = false ∧ c.queue.length < capacity := by
  unfold send
  cases hc : c.closed with
  | true => simp
  | false =>
    by_cases hq : capacity ≤ c.queue.length
    · simp [hq]
    · simp [hq, Nat.lt_of_not_le hq]

/-- Closes the transport; only the first time counts. -/
def close (c : Connection) : Connection :=
  if c.closed then c else ({ c with closed := true }).see .closed

@[simp] theorem closed_close (c : Connection) : c.close.closed = true := by
  unfold close
  split
  · assumption
  · rfl

theorem close_close (c : Connection) : c.close.close = c.close := by
  have h := closed_close c
  generalize c.close = d at h
  simp [close, h]

/-! ### The writer -/

/-- Stops the writer. What it holds and what waits behind it is discarded. -/
def halt (c : Connection) : Connection := { c with queue := [], writer := .stopped }

def take (c : Connection) : Option Connection :=
  match c.queue with
  | [] => none
  | frame :: rest => some { c with queue := rest, writer := .holding frame }

def beginWrite (c : Connection) (now : Instant) (frame : String) : Connection :=
  let deadline := now + writeLimit.nanos
  let c' := { c with begun := c.begun ++ [frame] }
  match c.sink c.begun.length with
  | .taken => { c' with writer := .idle }.see (.text frame)
  | .refused => { c' with writer := .idle }.see .failed
  | .delayed nanos => { c' with writer := .writing frame (some (now + nanos, true)) deadline }
  | .failing nanos => { c' with writer := .writing frame (some (now + nanos, false)) deadline }
  | .stalled => { c' with writer := .writing frame none deadline }.see .stalled

/-- Ends a write that the transport has finished, or one whose time is over. -/
def endWrite (c : Connection) (now : Instant) (frame : String) (done : Option (Instant × Bool)) (deadline : Instant) :
    Option Connection :=
  match done with
  | some (t, written) =>
    if t ≤ now && t ≤ deadline then some ({ c with writer := .idle }.see (if written then .text frame else .failed))
    else if deadline ≤ now then some { c with writer := .idle }
    else none
  | none => if deadline ≤ now then some { c with writer := .idle } else none

/-- What the writer does when it does not look at the closing. -/
def proceed (c : Connection) (now : Instant) : Option Connection :=
  match c.writer with
  | .stopped => none
  | .idle => c.take
  | .holding frame => some (c.beginWrite now frame)
  | .writing frame done deadline => c.endWrite now frame done deadline

/-- One step of the writer, or `none` while it waits. On a closed connection it stops, now or, where
it can also proceed, at a later step. -/
def step (c : Connection) (now : Instant) (stopFirst : Bool) : Option Connection :=
  if c.writer = .stopped then none
  else if c.closed then
    if stopFirst then some c.halt else some ((c.proceed now).getD c.halt)
  else c.proceed now

def wake? (c : Connection) : Option Instant :=
  match c.writer with
  | .writing _ (some (t, _)) deadline => some (min t deadline)
  | .writing _ none deadline => some deadline
  | _ => none

/-- The text that shows a connection to a programmer. -/
def shown (c : Connection) : String :=
  "Connection \x7b id: " ++ Text.Quoted.quote c.label ++ ", room: " ++ Text.Quoted.quote c.room ++ ", user_id: " ++
    Text.Quoted.quote c.user ++ " \x7d"

end Connection

end Parley.Hub
