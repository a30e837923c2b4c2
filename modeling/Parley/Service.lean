import Parley.Broker.Line
import Parley.Config
import Parley.Hub.Connection
import Parley.Retry
import Parley.Store.Memory

/-!
The service: its hubs share one store and, where there is one, the line to one broker. Connections
have their numbers throughout the service; a hub's registry tells which of them it serves.
-/

namespace Parley

/-- A hub: who is connected to it, and whether its subscription has been told to stop. -/
structure Hub where
  registry : Hub.Registry := {}
  stopped : Bool := false
deriving Repr, Inhabited

structure Service where
  config : Config := {}
  policy : RetryPolicy := .default
  /-- The time since the service began. -/
  now : Instant := 0
  clock : Clockwork := {}
  store : MemoryStore := {}
  /-- Nothing, where the service has no broker. -/
  line : Option Broker.Line := none
  hubs : Array Hub := #[{}]
  connections : Array Hub.Connection := #[]
deriving Inhabited

namespace Service

open Hub

def hasBroker (s : Service) : Bool := s.line.isSome

/-! ### Hubs -/

def hub (s : Service) (h : Nat) : Hub := s.hubs.getD h {}

def registry (s : Service) (h : Nat) : Registry := (s.hub h).registry

def updateHub (s : Service) (h : Nat) (f : Hub → Hub) : Service := { s with hubs := s.hubs.modify h f }

def setRegistry (s : Service) (h : Nat) (r : Registry) : Service := s.updateHub h fun x => { x with registry := r }

/-- Tells the subscription of a hub to stop. -/
def stopHub (s : Service) (h : Nat) : Service := s.updateHub h fun x => { x with stopped := true }

/-! ### Connections -/

def connection (s : Service) (c : ConnId) : Connection := s.connections.getD c default

def updateConnection (s : Service) (c : ConnId) (f : Connection → Connection) : Service :=
  { s with connections := s.connections.modify c f }

/-- A new connection, which no hub serves yet. -/
def connect (s : Service) (room user : String) (sink : Sink) : ConnId × Service :=
  let (label, clock) := s.clock.draw .connection
  (s.connections.size, { s with clock, connections := s.connections.push { label, room, user, sink } })

def send (s : Service) (c : ConnId) (frame : String) : Except TransportError Unit × Service :=
  let (sent, conn) := (s.connection c).send frame
  (sent, s.updateConnection c fun _ => conn)

def close (s : Service) (c : ConnId) : Service := s.updateConnection c Connection.close

def register (s : Service) (h : Nat) (c : ConnId) : Service :=
  let conn := s.connection c
  s.setRegistry h ((s.registry h).add conn.room ⟨c, conn.user⟩)

/-- Removes a connection from a room of a hub, and tells whether it was there. -/
def removeFrom (s : Service) (h : Nat) (room : String) (c : ConnId) : Bool × Service :=
  let (found, r) := (s.registry h).remove room c
  (found, s.setRegistry h r)

/-- Removes a connection from its own room on a hub. -/
def deregister (s : Service) (h : Nat) (c : ConnId) : Service := (s.removeFrom h (s.connection c).room c).2

/-! ### The broker -/

/-- The service after something was done on the line, if there is a line. -/
def onLine {α : Type} (s : Service) (run : Broker.Line → α × Broker.Line) : Option (α × Service) :=
  s.line.map fun l =>
    let (a, l) := run l
    (a, { s with line := some l })

/-! ### Time -/

/-- The time of the calendar, strictly later than the one read before. -/
def readClock (s : Service) : Timestamp × Service :=
  let (t, clock) := s.clock.read
  (t, { s with clock })

/-- The seconds of the calendar since 1970. -/
def seconds (s : Service) : Nat := (s.clock.time.micros / 1000000).toNat

end Service

end Parley
