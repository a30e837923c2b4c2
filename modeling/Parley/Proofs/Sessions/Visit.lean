import Mathlib.Logic.Relation
import Parley.Proofs.Sessions.Solo

/-!
# What one connection does to its room

A connection comes to a room of a hub without a broker, its client sends what it will, and goes. The session of that
connection is alone: beside it only writers take steps and time passes.

* `Session.Course` is how such a session goes on, with what it does and what comes from its client. `Session.Ends`
  says that it comes to its end, however it goes on.
* `Session.Course.stands`, `Session.Course.said` and `Session.Course.told` carry the step lemma `Stands.forth`
  through a whole course: where the session stands then, what is broadcast, and what a connection is told.
* `Edit` is a change of what the client sends that makes no difference.
* A `Visit` is somebody who comes to a room, `Visit.greetings` what is said while they are there, and `Visit.talk`
  all that is said. The main result is `Visit.conducted_alone`.
-/

namespace Parley

open Hub Relation

namespace Hub

variable {ok : Service → Prop} {s₀ s t u : Service} {x x' z : Session} {i : Item} {coming items items' : List Item}
  {ds : List Deed} {c : ConnId} {hub : ℕ} {room user : String} {sink : Sink}

/-! ### Beside a session -/

/-- What goes on beside a session that is alone. -/
inductive Alongside (s : Service) : Service → Prop
  /-- The writer of a connection takes a step. -/
  | write (c : ConnId) (conn : Connection) (stopFirst : Bool) (h : (s.connection c).step s.now stopFirst = some conn) :
      Alongside s (s.updateConnection c fun _ => conn)
  /-- Time passes. -/
  | pass (now : Instant) : Alongside s { s with now }

/-- What leaves alone all but what waits behind the connections. -/
structure Beside (s t : Service) : Prop where
  quiet : Quiet s t
  line : t.line = s.line
  clock : t.clock = s.clock
  accepted : ∀ c, (t.connection c).accepted = (s.connection c).accepted

theorem Alongside.beside (h : Alongside s t) : Beside s t := by
  cases h with
  | pass now => exact ⟨⟨rfl, rfl, fun _ => rfl⟩, rfl, rfl, fun _ => rfl⟩
  | write c conn stopFirst hstep =>
    have hkept := Connection.step_kept hstep
    exact ⟨.write s c hkept, rfl, rfl, fun d => s.field_updateConnection c d _ Connection.accepted hkept.accepted⟩

namespace Session

theorem Stands.beside (h : x.Stands s₀ s coming) (hb : Beside s t) : x.Stands s₀ t coming :=
  h.quiet x.stage hb.quiet (hb.line.trans h.line) rfl h.undropped h.fits h.awaits h.leaves

theorem due_beside (hb : Beside s t) (c : ConnId) : x.due s₀ t coming c = x.due s₀ s coming c := by
  simp only [due, debt, hb.quiet.closed, hb.quiet.registry, hb.clock]

theorem Stands.feed (h : x.Stands s₀ s (i :: coming)) : (x.feed i).Stands s₀ s coming :=
  h.quiet x.stage (.refl s) h.line rfl h.undropped h.fits
    (fun hl => by rw [List.append_assoc]; exact h.awaits hl) h.leaves

theorem append_feed (x : Session) (i : Item) (coming : List Item) :
    (x.feed i).inbox ++ coming = x.inbox ++ i :: coming := by
  simp [Session.feed]

theorem due_feed (c : ConnId) : (x.feed i).due s₀ s coming c = x.due s₀ s (i :: coming) c := by
  simp only [due, debt, share, append_feed]
  rfl

theorem weight_feed_lt : (x.feed i).weight coming < x.weight (i :: coming) := by
  refine Prod.Lex.toLex_lt_toLex.mpr (.inl ?_)
  simp only [Session.feed, List.length_append, List.length_cons, List.length_nil]
  omega

/-! ### Courses -/

/-- A session goes on from one moment to another, with the deeds listed, while these items come from its client, and the
service is so whenever the session takes a step. -/
inductive Course (ok : Service → Prop) : Service → Session → List Item → List Deed → Session → Service → Prop
  | refl (s : Service) (x : Session) (coming : List Item) : Course ok s x coming [] x s
  | own {s t u : Service} {x x' z : Session} {coming : List Item} {ds : List Deed} (choice : Choice)
      (hok : ok s) (h : x.step s choice = some (x', t)) (rest : Course ok t x' coming ds z u) :
      Course ok s x coming (x.stage.activity.begins ++ calls s t ++ ds) z u
  | arrive {s u : Service} {x z : Session} {i : Item} {coming : List Item} {ds : List Deed}
      (rest : Course ok s (x.feed i) coming ds z u) : Course ok s x (i :: coming) ds z u
  | beside {s t u : Service} {x z : Session} {coming : List Item} {ds : List Deed} (h : Alongside s t)
      (rest : Course ok t x coming ds z u) : Course ok s x coming ds z u

/-- However a session goes on, it comes to its end: it never waits but for its client, of whom it does not wait in
vain, and takes a step only so often. -/
inductive Ends : Service → Session → List Item → Prop
  | over {s : Service} {x : Session} {coming : List Item} (h : x.stage = .over) : Ends s x coming
  | on {s : Service} {x : Session} {coming : List Item}
      (go : ∀ t, ReflTransGen Alongside s t →
        (∀ choice, (x.step t choice).isSome = true) ∨ x.stage = .reading ∧ x.inbox = [] ∧ coming ≠ [])
      (own : ∀ t choice x' u, ReflTransGen Alongside s t → x.step t choice = some (x', u) → Ends u x' coming)
      (arrive : ∀ t i rest, ReflTransGen Alongside s t → coming = i :: rest → Ends t (x.feed i) rest) : Ends s x coming

theorem Stands.alongside (h : x.Stands s₀ s coming) (ht : ReflTransGen Alongside s t) : x.Stands s₀ t coming := by
  induction ht with
  | refl => exact h
  | tail _ hstep ih => exact ih.beside hstep.beside

theorem Stands.ends (h : x.Stands s₀ s coming) : Ends s x coming := by
  induction hw : x.weight coming using WellFoundedLT.induction generalizing s x coming with
  | ind w ih =>
    subst hw
    by_cases hover : x.stage = .over
    · exact .over hover
    · refine .on (fun t ht => (h.alongside ht).goes hover) (fun t choice x' u ht hstep => ?_) fun t i rest ht hi => ?_
      · have hforth := (h.alongside ht).forth hstep
        exact ih _ hforth.nearer hforth.stands rfl
      · subst hi
        exact ih _ weight_feed_lt (h.alongside ht).feed rfl

theorem stays_of_self (h : x'.self = x.self) : x'.stays s₀ = x.stays s₀ := by
  obtain ⟨hhub, -, hroom, huser⟩ := self_eq_iff.mp h
  rw [stays, stays, hhub, hroom, huser]

/-- **Where a session stands** at the end of a course. -/
theorem Course.stands (hc : Course ok s x coming ds z t) (h : x.Stands s₀ s coming) :
    z.self = x.self ∧ ∃ left, z.Stands s₀ t left := by
  induction hc with
  | refl s x coming => exact ⟨rfl, coming, h⟩
  | own choice hok hstep rest ih =>
    have hforth := h.forth hstep
    obtain ⟨hself, hstands⟩ := ih hforth.stands
    exact ⟨hself.trans hforth.self, hstands⟩
  | arrive rest ih => exact ih h.feed
  | beside hside rest ih => exact ih (h.beside hside.beside)

/-- **What is broadcast** in a course that comes to the end. -/
theorem Course.said (hc : Course ok s x coming ds z t) (h : x.Stands s₀ s coming) (hover : z.stage = .over) :
    ds = (x.stage.activity.owed ++ x.stage.rest x.room x.user (x.stays s₀) (x.inbox ++ coming) s.clock).map
      fun text => .broadcast x.hub x.room (some text) := by
  induction hc with
  | refl s x coming =>
    rw [hover]
    rfl
  | own choice hok hstep rest ih =>
    have hforth := h.forth hstep
    obtain ⟨texts, hbegins, hsaid⟩ := hforth.said
    have hcalls := calls_of_line (hforth.stands.line.trans h.line.symm)
    obtain ⟨hhub, -, hroom, huser⟩ := self_eq_iff.mp hforth.self
    rw [ih hforth.stands hover, stays_of_self hforth.self, hhub, hroom, huser, hcalls, hbegins, hsaid]
    simp
  | arrive rest ih =>
    have hsaid := ih h.feed hover
    rwa [append_feed] at hsaid
  | beside hside rest ih =>
    have hsaid := ih (h.beside hside.beside) hover
    rwa [hside.beside.clock] at hsaid

theorem due_over (hover : x.stage = .over) (c : ConnId) : x.due s₀ s coming c = [] := by
  simp [due, debt, share, hover, Stage.activity, Stage.rest, Activity.owes, Activity.owed]

/-- **What a connection is told** in a course that comes to the end while no queue is full. -/
theorem Course.told (hc : Course (Roomy · hub room) s x coming ds z t) (h : x.Stands s₀ s coming) (hhub : x.hub = hub)
    (hroom : x.room = room) (hover : z.stage = .over) (c : ConnId) :
    (t.connection c).accepted = (s.connection c).accepted ++ x.due s₀ s coming c := by
  induction hc with
  | refl s x coming => rw [due_over hover, List.append_nil]
  | own choice hok hstep rest ih =>
    subst hhub hroom
    have hforth := h.forth hstep
    obtain ⟨hhub, -, hroom, -⟩ := self_eq_iff.mp hforth.self
    rw [ih hforth.stands hhub hroom hover]
    cases hforth.hears hok c with
    | nothing hqueue haccepted hdue => rw [haccepted, hdue]
    | text text hqueue haccepted hdue => rw [haccepted, hdue, List.append_assoc, List.singleton_append]
  | arrive rest ih => rw [ih h.feed hhub hroom hover, due_feed]
  | beside hside rest ih =>
    rw [ih (h.beside hside.beside) hhub hroom hover, hside.beside.accepted, due_beside hside.beside]

/-! ### Free queues -/

/-- The queues have room for all that a session will say, and for more. -/
def Free (s₀ s : Service) (x : Session) (coming : List Item) : Prop :=
  ∀ c, c ∈ (s₀.registry x.hub).snapshot x.room ∨ c = x.conn →
    (s.connection c).queue.length + (x.due s₀ s coming c).length < Connection.capacity

theorem Stands.roomy (h : x.Stands s₀ s coming) (hfree : x.Free s₀ s coming) : Roomy s x.hub x.room := by
  intro c hc
  refine Nat.lt_of_le_of_lt (Nat.le_add_right _ _) (hfree c ?_)
  rw [h.snapshot] at hc
  split at hc
  · exact (List.mem_append.mp hc).imp_right List.mem_singleton.mp
  · exact .inl hc

theorem Forth.free (h : Forth s₀ s x coming t x') (hroomy : Roomy s x.hub x.room) (hfree : x.Free s₀ s coming) :
    x'.Free s₀ t coming := by
  obtain ⟨hhub, hconn, hroom, -⟩ := self_eq_iff.mp h.self
  intro c hc
  rw [hhub, hconn, hroom] at hc
  have hbefore := hfree c hc
  cases h.hears hroomy c with
  | nothing hqueue haccepted hdue => rwa [hqueue, hdue]
  | text text hqueue haccepted hdue =>
    rw [hdue, List.length_cons] at hbefore
    rw [hqueue, List.length_append, List.length_singleton]
    omega

/-- With free queues a session comes to its end before any of them is full. -/
theorem Stands.exists_course (h : x.Stands s₀ s coming) (hfree : x.Free s₀ s coming) :
    ∃ ds z t, Course (Roomy · x.hub x.room) s x coming ds z t ∧ z.stage = .over := by
  induction hw : x.weight coming using WellFoundedLT.induction generalizing s x coming with
  | ind w ih =>
    subst hw
    by_cases hover : x.stage = .over
    · exact ⟨[], x, s, .refl s x coming, hover⟩
    · rcases h.goes hover with hstep | ⟨-, -, hcoming⟩
      · obtain ⟨⟨x', t⟩, hstep⟩ := Option.isSome_iff_exists.mp (hstep default)
        have hforth := h.forth hstep
        have hroomy := h.roomy hfree
        obtain ⟨ds, z, u, hrest, hz⟩ := ih _ hforth.nearer hforth.stands (hforth.free hroomy hfree) rfl
        obtain ⟨hhub, -, hroom, -⟩ := self_eq_iff.mp hforth.self
        rw [hhub, hroom] at hrest
        exact ⟨_, z, u, .own default hroomy hstep hrest, hz⟩
      · obtain ⟨i, rest, rfl⟩ := List.exists_cons_of_ne_nil hcoming
        have hfree' : (x.feed i).Free s₀ s rest := fun c hc => by
          rw [due_feed]
          exact hfree c hc
        obtain ⟨ds, z, u, hrest, hz⟩ := ih _ weight_feed_lt h.feed hfree' rfl
        exact ⟨ds, z, u, .arrive hrest, hz⟩

end Session

/-! ### What makes no difference -/

theorem heard_append_of_ends (h : i.ends = true) (items after : List Item) :
    heard (items ++ i :: after) = heard items := by
  induction items with
  | nil => exact heard_cons_of_ends h
  | cons j items ih =>
    rw [List.cons_append]
    cases hj : j.ends with
    | true => rw [heard_cons_of_ends hj, heard_cons_of_ends hj]
    | false => rw [heard_cons hj, heard_cons hj, ih]

theorem heard_append_other (before after : List Item) :
    heard (before ++ .other :: after) = heard (before ++ after) := by
  induction before with
  | nil => exact heard_cons rfl
  | cons j before ih =>
    rw [List.cons_append, List.cons_append]
    cases hj : j.ends with
    | true => rw [heard_cons_of_ends hj, heard_cons_of_ends hj]
    | false => rw [heard_cons hj, heard_cons hj, ih]

/-- One change of what a client sends, of which nothing is heard. -/
inductive Edit : List Item → List Item → Prop
  /-- A frame that is no text comes too. -/
  | insert (before after : List Item) : Edit (before ++ after) (before ++ .other :: after)
  /-- When the client has gone, other items come. -/
  | replace {i : Item} (h : i.ends = true) (before after after' : List Item) :
      Edit (before ++ i :: after) (before ++ i :: after')

theorem heard_of_edits (h : EqvGen Edit items items') : heard items' = heard items := by
  induction h with
  | rel _ _ hedit =>
    cases hedit with
    | insert before after => exact heard_append_other before after
    | replace hi before after after' => rw [heard_append_of_ends hi, heard_append_of_ends hi]
  | refl => rfl
  | symm _ _ _ ih => exact ih.symm
  | trans _ _ _ _ _ ih ih' => exact ih'.trans ih

end Hub

/-! ### Visits -/

/-- Somebody comes to a room of a hub. -/
structure Visit where
  service : Service
  hub : ℕ
  room : String
  user : String
  sink : Sink

namespace Visit

variable (v : Visit) (items : List Item)

def conn : ConnId := v.service.connections.size

def start : Service := (v.service.connect v.room v.user v.sink).2

def session : Session where
  hub := v.hub
  conn := v.conn
  room := v.room
  user := v.user

def hosts : List ConnId := (v.service.registry v.hub).snapshot v.room

def stays : Bool := (v.service.registry v.hub).userConnected v.room v.user

def greetings : List Envelope := said v.room v.user v.start.clock items

def talk : List Envelope := v.greetings items ++ saidLast v.room v.user v.stays v.start.clock items

/-- There is such a hub, and no broker; the registry is as calls leave it, and the connections of the room are there. -/
structure Proper : Prop where
  line : v.service.line = none
  lt_size : v.hub < v.service.hubs.size
  reached : ∃ calls, v.service.registry v.hub = Registry.after calls
  there : ∀ c ∈ v.hosts, c < v.service.connections.size

/-- The session goes on to the end while these items come from its client. -/
def Goes (ok : Service → Prop) (ds : List Deed) (t : Service) : Prop :=
  ∃ z, Session.Course ok v.start v.session (items ++ [.ended]) ds z t ∧ z.stage = .over

def Roomy (s : Service) : Prop := Hub.Roomy s v.hub v.room

/-- Who has been told what. -/
structure Told (t : Service) : Prop where
  hosts : ∀ c ∈ v.hosts, (t.connection c).accepted = (v.service.connection c).accepted ++
    if (v.service.connection c).closed then [] else (v.talk items).map Envelope.text
  own : (t.connection v.conn).accepted = (v.greetings items).map Envelope.text
  others : ∀ c, c ∉ v.hosts → c ≠ v.conn → (t.connection c).accepted = (v.service.connection c).accepted

/-- The registries are as they were. -/
structure Restored (t : Service) : Prop where
  members : ∀ room, (t.registry v.hub).members room = (v.service.registry v.hub).members room
  rooms : (t.registry v.hub).rooms.Perm (v.service.registry v.hub).rooms
  elsewhere : ∀ g, g ≠ v.hub → t.registry g = v.service.registry g

/-- What one connection does to its room. -/
structure Conducted : Prop where
  /-- It comes to its end, however it goes on. -/
  ends : Session.Ends v.start v.session (items ++ [.ended])
  /-- What is broadcast is said of these items, and so of all that differ from them by edits. -/
  broadcast : ∀ {ok items' ds t}, EqvGen Edit items items' → v.Goes items' ok ds t →
    ds = (v.talk items).map fun e => .broadcast v.hub v.room (some e.text)
  /-- The room is told all of it, and the visitor all but the farewell, unless a queue is full. -/
  told : ∀ {items' ds t}, EqvGen Edit items items' → v.Goes items' v.Roomy ds t → v.Told items t
  restored : ∀ {ok items' ds t}, EqvGen Edit items items' → v.Goes items' ok ds t → v.Restored t
  /-- No queue gets full where each has room for all that is said, and for more. -/
  possible : (∀ c ∈ v.hosts, (v.service.connection c).queue.length + (v.talk items).length < Connection.capacity) →
    (v.greetings items).length < Connection.capacity → ∃ ds t, v.Goes items v.Roomy ds t

variable {v items} {ok : Service → Prop} {t : Service} {items' : List Item} {ds : List Deed} {c : ConnId}

theorem talk_of_edits (h : EqvGen Edit items items') :
    v.talk items' = v.talk items ∧ v.greetings items' = v.greetings items := by
  simp only [talk, greetings, said, saidLast, heard_of_edits h, and_self]

theorem connection_conn : ∃ label,
    v.start.connection v.conn = { label := label, room := v.room, user := v.user, sink := v.sink } :=
  ⟨_, by
    simp only [start, conn, Service.connection, Service.connect, Array.getD_eq_getD_getElem?,
      Array.getElem?_push_size, Option.getD_some]
    rfl⟩

theorem connection_of_ne (h : c ≠ v.conn) : v.start.connection c = v.service.connection c :=
  v.service.connection_connect_of_ne v.room v.user v.sink h

/-- That the stream is over at last is not heard. -/
theorem rest_session (stays : Bool) : v.session.stage.rest v.room v.user stays (items ++ [.ended]) v.start.clock =
    (v.greetings items ++ saidLast v.room v.user stays v.start.clock items).map Envelope.text := by
  show (said _ _ _ (items ++ [.ended]) ++ saidLast _ _ _ _ (items ++ [.ended])).map Envelope.text = _
  rw [said, saidLast, heard_append_of_ends rfl]
  rfl

theorem due_session (c : ConnId) : v.session.due v.start v.start (items ++ [.ended]) c =
    if (v.start.connection c).closed then []
    else if c = v.conn then (v.greetings items).map Envelope.text
    else if c ∈ v.hosts then (v.talk items).map Envelope.text
    else [] := by
  have hdebt : v.session.debt v.start v.start (items ++ [.ended]) c =
      v.session.share v.start (items ++ [.ended]) v.start.clock c := by
    show [] ++ ((if _ then [] else []) ++ _) = _
    rw [ite_self]
    rfl
  rw [Session.due, hdebt]
  show (if _ then _ else if _ then v.session.stage.rest v.room v.user true (items ++ [Item.ended]) v.start.clock
    else if _ then v.session.stage.rest v.room v.user v.stays (items ++ [Item.ended]) v.start.clock else _) = _
  rw [rest_session, rest_session]
  show (if _ then _ else if _ then (v.greetings items ++ []).map Envelope.text else _) = _
  rw [List.append_nil]
  rfl

theorem Proper.stands (h : v.Proper) (items : List Item) : v.session.Stands v.start v.start (items ++ [.ended]) := by
  obtain ⟨calls, hcalls⟩ := h.reached
  obtain ⟨label, hconn⟩ := v.connection_conn
  have hsize : v.start.connections.size = v.service.connections.size + 1 := Array.size_push _
  exact {
    line := h.line
    agrees := ⟨h.lt_size, by rw [hsize]; exact Nat.lt_succ_self _, congrArg (·.room) hconn, congrArg (·.user) hconn,
      fun _ _ => congrArg (·.closed) hconn, nofun⟩
    there := fun c hc => by rw [hsize]; exact Nat.lt_succ_of_lt (h.there c hc)
    once := by
      show ((v.service.registry v.hub).snapshot v.room).Nodup
      rw [hcalls]
      exact (Registry.orderly_after calls).once v.room
    new := fun hmem => Nat.lt_irrefl _ (h.there _ hmem)
    here := rfl
    elsewhere := fun _ _ => rfl
    undropped := nofun
    fits := trivial
    awaits := fun _ => ⟨.ended, by simp, rfl⟩
    leaves := nofun }

theorem Goes.broadcast (hg : v.Goes items ok ds t) (h : v.Proper) :
    ds = (v.talk items).map fun e => .broadcast v.hub v.room (some e.text) := by
  obtain ⟨z, hc, hover⟩ := hg
  rw [hc.said (h.stands items) hover]
  show ((v.session.stage.rest v.room v.user v.stays (items ++ [.ended]) v.start.clock).map _) = _
  rw [rest_session, List.map_map]
  rfl

theorem Goes.told (hg : v.Goes items v.Roomy ds t) (h : v.Proper) : v.Told items t := by
  obtain ⟨z, hc, hover⟩ := hg
  have htold := fun c => Session.Course.told hc (h.stands items) rfl rfl hover c
  have hnew : v.conn ∉ v.hosts := (h.stands items).new
  refine ⟨fun c hc => ?_, ?_, fun c hc hne => ?_⟩
  · have hne : c ≠ v.conn := fun heq => hnew (heq ▸ hc)
    rw [htold, due_session, connection_of_ne hne, if_neg hne, if_pos hc]
  · obtain ⟨label, hconn⟩ := v.connection_conn
    rw [htold, due_session, if_pos rfl]
    show (v.start.connection v.conn).accepted ++ (if (v.start.connection v.conn).closed then _ else _) = _
    rw [hconn]
    rfl
  · rw [htold, due_session, connection_of_ne hne, if_neg hne, if_neg hc, ite_self, List.append_nil]

theorem Goes.restored (hg : v.Goes items ok ds t) (h : v.Proper) : v.Restored t := by
  obtain ⟨z, hc, hover⟩ := hg
  have hstart := h.stands items
  obtain ⟨hself, left, hz⟩ := hc.stands hstart
  obtain ⟨hhub, hconn, hroom, huser⟩ := Session.self_eq_iff.mp hself
  obtain ⟨calls, hcalls⟩ := h.reached
  have hplace : t.registry v.hub =
      (((v.service.registry v.hub).add v.room v.session.member).remove v.room v.session.member.id).2 := by
    have hhere := hz.here
    rw [Session.standing, hover, hhub, hroom, Session.member, hconn, huser] at hhere
    exact hhere
  have hnew : v.session.member.id ∉ (v.service.registry v.hub).snapshot v.room := hstart.new
  refine ⟨fun room => ?_, ?_, fun g hg => hz.elsewhere g (hhub ▸ hg)⟩
  · rw [hplace, Registry.members_remove_add hnew]
  · rw [hplace]
    exact Registry.rooms_remove_add_perm (hcalls ▸ Registry.orderly_after calls) hnew

/-- With free queues there is a visit during which none of them is full. -/
theorem Proper.exists_goes (h : v.Proper)
    (hhosts : ∀ c ∈ v.hosts, (v.service.connection c).queue.length + (v.talk items).length < Connection.capacity)
    (hown : (v.greetings items).length < Connection.capacity) : ∃ ds t, v.Goes items v.Roomy ds t := by
  have hnew : v.conn ∉ v.hosts := (h.stands items).new
  have hfree : v.session.Free v.start v.start (items ++ [.ended]) := by
    intro c hc
    rw [due_session]
    rcases hc with hc | hc
    · have hne : c ≠ v.conn := fun heq => hnew (heq ▸ hc)
      have hhost := hhosts c hc
      rw [if_neg hne, if_pos (show c ∈ v.hosts from hc), connection_of_ne hne]
      split
      · exact Nat.lt_of_le_of_lt (Nat.add_le_add_left (Nat.zero_le _) _) hhost
      · rwa [List.length_map]
    · obtain rfl : c = v.conn := hc
      obtain ⟨label, hconn⟩ := v.connection_conn
      rw [hconn, if_neg Bool.false_ne_true, if_pos rfl, List.length_map]
      exact (Nat.zero_add _).symm ▸ hown
  obtain ⟨ds, z, t, hc, hover⟩ := (h.stands items).exists_course hfree
  exact ⟨ds, t, z, hc, hover⟩

/-- **What one connection does to its room.** -/
theorem conducted_alone (h : v.Proper) (items : List Item) : v.Conducted items where
  ends := (h.stands items).ends
  broadcast hedits hg := by
    rw [hg.broadcast h, (talk_of_edits hedits).1]
  told hedits hg := by
    obtain ⟨htalk, hgreetings⟩ := talk_of_edits (v := v) hedits
    obtain ⟨hhosts, hown, hothers⟩ := hg.told h
    rw [htalk] at hhosts
    rw [hgreetings] at hown
    exact ⟨hhosts, hown, hothers⟩
  restored _ hg := hg.restored h
  possible := h.exists_goes

/-- Cy comes to a room where two people are. -/
def third : Visit where
  service := Service.twoMembers
  hub := 0
  room := "r"
  user := "cy"
  sink := fun _ => .taken

/-- Two of these are heard. -/
def fiveItems : List Item :=
  [.text "\x7b\"type\":\"typing\"\x7d", .other, .text "\x7b\"type\":\"read\",\"last_read_id\":\"m-1\"\x7d", .close,
    .text "\x7b\"type\":\"typing\",\"stopped\":true\x7d"]

theorem conducted_alone_fiveItems : third.Proper ∧ third.Conducted fiveItems ∧
    (∃ ds t, third.Goes fiveItems third.Roomy ds t) ∧
    (third.talk fiveItems).map (·.type) = [.presence, .typing, .read, .presence] := by
  have hreached : third.service.registry 0 = Registry.after [.add ⟨0, "r", "ann"⟩, .add ⟨1, "r", "bob"⟩] := by decide
  have hproper : third.Proper := ⟨rfl, by decide, ⟨_, hreached⟩, by decide⟩
  have hconducted := conducted_alone hproper fiveItems
  exact ⟨hproper, hconducted, hconducted.possible (by decide +kernel) (by decide +kernel), by decide +kernel⟩

end Visit

end Parley
