import Parley.Proofs.Sessions.Step

/-!
The sessions of a deployment and the registries of its hubs agree: a connection is listed exactly while
its session says so, in the session's room, and it is closed exactly when the session says so. Every step
of a task, every new session, every frame from a client and every drop keeps it that way.
-/

namespace Parley

open Hub Deployment

namespace Hub

inductive Standing where
  /-- It is to be registered. -/
  | awaited
  | listed
  /-- It has been removed and is to be closed. -/
  | removed
  | closed
  /-- The session was dropped; whatever is left to be done is not its own. -/
  | dropped
deriving DecidableEq

def Stage.standing : Stage → Standing
  | .opening => .awaited
  | .joining _ | .reading | .handling _ | .releasing => .listed
  | .closing => .removed
  | .checking | .leaving _ | .over => .closed
  | .dropped => .dropped

/-- How far a connection has come; there is no way back. -/
def Standing.rank : Standing → Nat
  | .awaited => 0
  | .listed => 1
  | .removed => 2
  | .closed => 3
  | .dropped => 4

namespace Session

abbrev standing (x : Session) : Standing := x.stage.standing

def member (x : Session) : Member := ⟨x.conn, x.user⟩

/-- Whose session it is, on which connection, in which room of which hub. -/
def self (x : Session) : Nat × ConnId × String × String := (x.hub, x.conn, x.room, x.user)

theorem self_eq_iff {x x' : Session} :
    x'.self = x.self ↔ x'.hub = x.hub ∧ x'.conn = x.conn ∧ x'.room = x.room ∧ x'.user = x.user := by
  simp only [self, Prod.mk.injEq]

theorem conn_of_self {x x' : Session} (h : x'.self = x.self) : x'.conn = x.conn := (self_eq_iff.1 h).2.1

/-- A session and the service agree about its connection: it is there, bears the session's names, and is open
until the session closes it or is dropped. -/
structure Agrees (s : Service) (x : Session) : Prop where
  hub : x.hub < s.hubs.size
  conn : x.conn < s.connections.size
  room : (s.connection x.conn).room = x.room
  user : (s.connection x.conn).user = x.user
  unclosed : x.standing ≠ .closed → x.standing ≠ .dropped → (s.connection x.conn).closed = false
  closed : x.standing = .closed → (s.connection x.conn).closed = true

theorem Agrees.congr {s t : Service} {x x' : Session} (h : x.Agrees s) (hself : x'.self = x.self)
    (hs : x'.standing = x.standing) (hubs : t.hubs.size = s.hubs.size) (size : s.connections.size ≤ t.connections.size)
    (hf : (t.connection x.conn).footing = (s.connection x.conn).footing) : x'.Agrees t := by
  obtain ⟨hhub, hconn, hroom, huser⟩ := self_eq_iff.1 hself
  obtain ⟨froom, fuser, fclosed, -⟩ := Connection.footing_eq_iff.1 hf
  refine ⟨?_, ?_, ?_, ?_, ?_, ?_⟩
  · rw [hhub, hubs]
    exact h.hub
  · rw [hconn]
    exact Nat.lt_of_lt_of_le h.conn size
  · rw [hconn, froom, hroom]
    exact h.room
  · rw [hconn, fuser, huser]
    exact h.user
  · rw [hconn, fclosed, hs]
    exact h.unclosed
  · rw [hconn, fclosed, hs]
    exact h.closed

end Session

/-- A stage about an event and the one after it stand alike, whatever the event has come to. -/
theorem Stage.Busy.standing {g : Stage} {a : Activity} {here : Activity → Stage} {next : Stage}
    (h : g.Busy a here next) :
    (∀ b, (here b).standing = g.standing) ∧ next.standing = g.standing := by
  cases h <;> exact ⟨fun _ => rfl, rfl⟩

end Hub

/-- Sessions, registries and connections agree. -/
structure Tended (y : Deployment) : Prop where
  agrees : ∀ n x, y.task n = .session x → x.Agrees y.service
  /-- No two sessions have one connection. -/
  alone : ∀ n m x z, y.task n = .session x → y.task m = .session z → x.conn = z.conn → n = m
  members : ∀ h r e, e ∈ (y.service.registry h).members r ↔
    ∃ n x, y.task n = .session x ∧ x.standing = .listed ∧ x.hub = h ∧ x.room = r ∧ x.member = e
  nodup : ∀ h r, ((y.service.registry h).snapshot r).Nodup
  filled : ∀ h, (y.service.registry h).Filled
  /-- Only the connection of a dropped session is left for another task to close. -/
  closer : ∀ m c, y.task m = .closer c → ∃ n x, y.task n = .session x ∧ x.conn = c ∧ x.standing = .dropped
  closes : ∀ c, (y.service.connection c).closes = if (y.service.connection c).closed then 1 else 0

/-- The close of the connection of a dropped session has been done or is left to a task. -/
def Attended (y : Deployment) (x : Session) : Prop :=
  x.standing = .dropped → (y.service.connection x.conn).closed = true ∨ ∃ m, y.task m = .closer x.conn

/-! ### What can change -/

/-- The service goes from `s` to `t`, a session to `x`, and of all connections only its own is concerned. -/
structure Moves (s : Service) (x : Session) (t : Service) : Prop where
  hubs : t.hubs.size = s.hubs.size
  size : s.connections.size ≤ t.connections.size
  footing : ∀ c, c ≠ x.conn → (t.connection c).footing = (s.connection c).footing
  agrees : x.Agrees t
  members : ∀ h r e, e ∈ (t.registry h).members r ↔
    (e ∈ (s.registry h).members r ∧ e.id ≠ x.conn) ∨ (x.standing = .listed ∧ x.hub = h ∧ x.room = r ∧ x.member = e)
  nodup : ∀ h r, ((t.registry h).snapshot r).Nodup
  filled : ∀ h, (t.registry h).Filled
  closes : (t.connection x.conn).closes = if (t.connection x.conn).closed then 1 else 0

/-- No session is concerned, nor a close that is left to be done. -/
structure Still (y y' : Deployment) : Prop where
  quiet : Quiet y.service y'.service
  sessions : ∀ n x, y'.task n = .session x ↔ y.task n = .session x
  closers : ∀ n c, y'.task n = .closer c ↔ y.task n = .closer c

/-- One session is concerned, the one of task `n`: it is begun or goes on, and is `x` afterwards. -/
structure Shift (y : Deployment) (n : TaskId) (x : Session) (y' : Deployment) : Prop where
  after : y'.task n = .session x
  moves : Moves y.service x y'.service
  self : ∀ z, y.task n = .session z → z.self = x.self
  rank : ∀ z, y.task n = .session z → z.standing.rank ≤ x.standing.rank
  others : ∀ m z, m ≠ n → (y'.task m = .session z ↔ y.task m = .session z)
  apart : ∀ m z, m ≠ n → y.task m = .session z → z.conn ≠ x.conn
  closers : ∀ c, c ≠ x.conn → ((∃ m, y'.task m = .closer c) ↔ ∃ m, y.task m = .closer c)
  own : (∃ m, y'.task m = .closer x.conn) → x.standing = .dropped

namespace Tended

variable {y y' : Deployment}

/-- Who is listed under a connection's number is the session that has it. -/
theorem of_mem (hy : Tended y) {n : TaskId} {x : Session} (hx : y.task n = .session x) {h : Nat} {r : String}
    {e : Member} (he : e ∈ (y.service.registry h).members r) (hc : e.id = x.conn) :
    x.standing = .listed ∧ x.hub = h ∧ x.room = r ∧ x.member = e := by
  obtain ⟨m, z, hz, hs, rfl, rfl, rfl⟩ := (hy.members h r e).1 he
  obtain rfl := hy.alone m n z x hz hx hc
  rw [hx] at hz
  cases hz
  exact ⟨hs, rfl, rfl, rfl⟩

theorem still (hy : Tended y) (h : Still y y') : Tended y' where
  agrees n x hx := (hy.agrees n x ((h.sessions n x).1 hx)).congr rfl rfl (by rw [h.quiet.hubs])
    (Nat.le_of_eq h.quiet.size.symm) (h.quiet.footing x.conn)
  alone n m x z hx hz := hy.alone n m x z ((h.sessions n x).1 hx) ((h.sessions m z).1 hz)
  members g r e := by
    rw [h.quiet.registry, hy.members]
    simp only [h.sessions]
  nodup g r := by rw [h.quiet.registry]; exact hy.nodup g r
  filled g := by rw [h.quiet.registry]; exact hy.filled g
  closer m c hc := by
    obtain ⟨n, x, hx, hxc, hd⟩ := hy.closer m c ((h.closers m c).1 hc)
    exact ⟨n, x, (h.sessions n x).2 hx, hxc, hd⟩
  closes c := by rw [h.quiet.closes, h.quiet.closed]; exact hy.closes c

theorem shift (hy : Tended y) {n : TaskId} {x : Session} (h : Shift y n x y') : Tended y' := by
  -- a session after the change is the one that goes on, or was there before and has another connection
  have cases : ∀ m z, y'.task m = .session z → (m = n ∧ z = x) ∨ (m ≠ n ∧ y.task m = .session z ∧ z.conn ≠ x.conn) := by
    intro m z hz
    by_cases hm : m = n
    · rw [hm, h.after] at hz
      cases hz
      exact .inl ⟨hm, rfl⟩
    · have hz' := (h.others m z hm).1 hz
      exact .inr ⟨hm, hz', h.apart m z hm hz'⟩
  refine ⟨?_, ?_, ?_, h.moves.nodup, h.moves.filled, ?_, ?_⟩
  · intro m z hz
    rcases cases m z hz with ⟨-, rfl⟩ | ⟨-, hz, hc⟩
    · exact h.moves.agrees
    · exact (hy.agrees m z hz).congr rfl rfl h.moves.hubs h.moves.size (h.moves.footing z.conn hc)
  · intro m k z w hz hw hc
    rcases cases m z hz with ⟨rfl, rfl⟩ | ⟨-, hz, hzc⟩ <;> rcases cases k w hw with ⟨rfl, rfl⟩ | ⟨-, hw, hwc⟩
    · rfl
    · exact absurd hc.symm hwc
    · exact absurd hc hzc
    · exact hy.alone m k z w hz hw hc
  · intro g r e
    rw [h.moves.members]
    constructor
    · rintro (⟨he, hc⟩ | ⟨hs, hg, hr, he⟩)
      · obtain ⟨m, z, hz, hs, rfl, rfl, rfl⟩ := (hy.members g r e).1 he
        have hm : m ≠ n := by
          rintro rfl
          exact hc (Session.conn_of_self (h.self z hz))
        exact ⟨m, z, (h.others m z hm).2 hz, hs, rfl, rfl, rfl⟩
      · exact ⟨n, x, h.after, hs, hg, hr, he⟩
    · rintro ⟨m, z, hz, hs, rfl, rfl, rfl⟩
      rcases cases m z hz with ⟨-, rfl⟩ | ⟨-, hz, hc⟩
      · exact .inr ⟨hs, rfl, rfl, rfl⟩
      · exact .inl ⟨(hy.members _ _ _).2 ⟨m, z, hz, hs, rfl, rfl, rfl⟩, hc⟩
  · intro m c hm
    by_cases hc : c = x.conn
    · subst hc
      exact ⟨n, x, h.after, rfl, h.own ⟨m, hm⟩⟩
    · obtain ⟨i, hi⟩ := (h.closers c hc).1 ⟨m, hm⟩
      obtain ⟨k, z, hz, rfl, hd⟩ := hy.closer i c hi
      have hk : k ≠ n := by
        rintro rfl
        exact hc (Session.conn_of_self (h.self z hz))
      exact ⟨k, z, (h.others k z hk).2 hz, rfl, hd⟩
  · intro c
    by_cases hc : c = x.conn
    · subst hc
      exact h.moves.closes
    · obtain ⟨-, -, hclosed, hcloses⟩ := Connection.footing_eq_iff.1 (h.moves.footing c hc)
      rw [hclosed, hcloses]
      exact hy.closes c

end Tended

end Parley
