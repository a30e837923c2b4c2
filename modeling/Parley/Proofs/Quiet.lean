import Parley.Proofs.Turn

/-!
What the handling of events, the writers and the subscriptions leave alone: who is in which room, whose a
connection is, and whether it is closed.
-/

namespace Parley.Hub

/-- Whose a connection is, and whether and how often it has been closed. -/
def Connection.footing (c : Connection) : String × String × Bool × Nat := (c.room, c.user, c.closed, c.closes)

theorem Connection.footing_eq_iff {c c' : Connection} :
    c'.footing = c.footing ↔ c'.room = c.room ∧ c'.user = c.user ∧ c'.closed = c.closed ∧ c'.closes = c.closes := by
  simp only [footing, Prod.mk.injEq]

@[simp] theorem Connection.footing_send (c : Connection) (frame : String) : (c.send frame).2.footing = c.footing := by
  simp only [footing, room_send, user_send, closed_send, closes_send]

/-- What the handling of an event leaves alone: who is in which room, and every connection's footing. -/
structure Quiet (s t : Service) : Prop where
  hubs : t.hubs = s.hubs
  size : t.connections.size = s.connections.size
  footing : ∀ c, (t.connection c).footing = (s.connection c).footing

namespace Quiet

variable {s t : Service}

theorem refl (s : Service) : Quiet s s := ⟨rfl, rfl, fun _ => rfl⟩

theorem registry (h : Quiet s t) (g : Nat) : t.registry g = s.registry g := by
  simp only [Service.registry, Service.hub, h.hubs]

theorem hub (h : Quiet s t) (g : Nat) : t.hub g = s.hub g := by
  simp only [Service.hub, h.hubs]

theorem room (h : Quiet s t) (c : ConnId) : (t.connection c).room = (s.connection c).room :=
  congrArg (·.1) (h.footing c)

theorem user (h : Quiet s t) (c : ConnId) : (t.connection c).user = (s.connection c).user :=
  congrArg (·.2.1) (h.footing c)

theorem closed (h : Quiet s t) (c : ConnId) : (t.connection c).closed = (s.connection c).closed :=
  congrArg (·.2.2.1) (h.footing c)

theorem closes (h : Quiet s t) (c : ConnId) : (t.connection c).closes = (s.connection c).closes :=
  congrArg (·.2.2.2) (h.footing c)

theorem line (s : Service) (l : Option Broker.Line) : Quiet s { s with line := l } := ⟨rfl, rfl, fun _ => rfl⟩

theorem readClock (s : Service) : Quiet s s.readClock.2 := ⟨rfl, rfl, fun _ => rfl⟩

theorem updateConnection (s : Service) (c : ConnId) (f : Connection → Connection)
    (hf : (f (s.connection c)).footing = (s.connection c).footing) : Quiet s (s.updateConnection c f) :=
  ⟨rfl, by simp, fun d => s.field_updateConnection c d f Connection.footing hf⟩

theorem send (s : Service) (c : ConnId) (frame : String) : Quiet s (s.send c frame).2 :=
  updateConnection s c _ (Connection.footing_send _ _)

theorem write (s : Service) (c : ConnId) {conn : Connection} (h : Connection.Kept (s.connection c) conn) :
    Quiet s (s.updateConnection c fun _ => conn) :=
  updateConnection s c _ (Connection.footing_eq_iff.2 ⟨h.room, h.user, h.closed, h.closes⟩)

end Quiet

theorem Fanout.Step.quiet {s t : Service} {f f' : Fanout} (h : Fanout.Step s f f' t) : Quiet s t := by
  cases h with
  | hand frame c rest sent ht => exact .send s c frame
  | _ => exact .refl s

theorem Activity.Step.quiet {s t : Service} {a a' : Activity} (h : Activity.Step s a a' t) : Quiet s t := by
  cases h with
  | deliver f f' t r hf => exact hf.quiet
  | unrecorded | direct | unwritable | resume | delivered => exact .refl s
  | _ => exact .line s _

theorem Subscriber.Step.quiet {s t : Service} {x x' : Subscriber} (h : Subscriber.Step s x x' t) : Quiet s t := by
  cases h with
  | relay n f f' hx t hf => exact hf.quiet
  | relayed | retry | stop => exact .refl s
  | _ => exact .line s _

end Parley.Hub
