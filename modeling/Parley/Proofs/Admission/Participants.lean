import Parley.Proofs.Admission.Guarded

/-!
Who is let in, and who speaks. In every history of upgrades, requests, frames and losses a connection is
listed only for a person who takes part in its room, under the name that its own upgrade was given; and a
typing, read or presence event is only ever about a person who takes part in its room. An upgrade that is
not let in changes nothing.
-/

namespace Parley

open Hub Deployment Http

/-! ### What is heard -/

/-- A text that was handed to the broker, lies in a feed, was accepted by a connection, or is under way. -/
inductive Deployment.Heard (y : Deployment) (text : String) : Prop
  | handed (l : Broker.Line) (hl : y.service.line = some l) (e : Broker.Entry) (he : e ∈ l.journal) (m : Broker.Message)
      (hc : e.call = .publish m) (hm : m.payload = Text.Utf8.encode text)
  | fed (l : Broker.Line) (hl : y.service.line = some l) (f : Nat) (m : Broker.Message) (hf : m ∈ l.broker.feed f)
      (hm : m.payload = Text.Utf8.encode text)
  | accepted (c : ConnId) (hc : text ∈ (y.service.connection c).accepted)
  | underWay (n : TaskId) (hn : (y.task n).text? = some text)

theorem Broker.Message.Says.of_payload {P : String → Prop} {m : Broker.Message} (h : m.Says P) {text : String}
    (hm : m.payload = Text.Utf8.encode text) : P text := by
  obtain ⟨text', hp, ht⟩ := h
  have hd := congrArg Text.Utf8.decode? (hp.symm.trans hm)
  rw [Text.Utf8.decode?_encode, Text.Utf8.decode?_encode] at hd
  cases hd
  exact ht

theorem Deployment.Says.heard {P : String → Prop} {y : Deployment} (h : y.Says P) {text : String} (ht : y.Heard text) :
    P text := by
  cases ht with
  | handed l hl e he m hc hm => exact ((h.service.line l hl).journal e he m hc).of_payload hm
  | fed l hl f m hf hm => exact ((h.service.line l hl).broker f m hf).of_payload hm
  | accepted c hc => exact h.service.accepted c text hc
  | underWay n hn => exact h.tasks n text hn

/-! ### Histories -/

namespace Gateway

/-- Something that happens to a service and its gateway. -/
inductive Move where
  /-- A task takes a step, time passes, a hub begins to subscribe, the broker fails or disconnects. -/
  | turn (t : Turn)
  /-- A request comes over a transport that can be upgraded. -/
  | upgrade (hub : Nat) (r : Request)
  /-- A request is answered; what is published with the answer takes its course. -/
  | request (hub : Nat) (r : Request)
  /-- Something comes from the client of a session. -/
  | item (n : TaskId) (i : Item)
  /-- A session is dropped where it stands. -/
  | drop (n : TaskId)
  /-- From now on the transport of a connection takes what is written as the sink says. -/
  | transport (c : ConnId) (sink : Sink)
  /-- The store changes in any way in which nobody loses a place in a conversation; it may fail, or work again. -/
  | store (m : MemoryStore)
  /-- The calendar is set. -/
  | calendar (t : Timestamp)

def after (y : Deployment) : Move → Deployment
  | .turn t => y.turn t
  | .upgrade hub r => if hub < y.service.hubs.size then (upgrade { deployment := y } hub r).2.deployment else y
  | .request hub r => y.serve hub r
  | .item n i => y.feed n i
  | .drop n => y.abort n
  | .transport c sink => { y with service := y.service.updateConnection c fun conn => { conn with sink } }
  | .store m =>
    if y.service.store.participants.all m.participants.contains then
      { y with service := { y.service with store := m } }
    else y
  | .calendar t => { y with service := { y.service with clock := { y.service.clock with time := t } } }

def course (y : Deployment) (ms : List Move) (k : Nat) : Deployment := (ms.take k).foldl after y

/-- So many hubs before anyone has come, with a new broker where `base` has one; the rest is as in `base`. -/
def vacant (base : Service) (hubs : Nat) : Deployment :=
  Deployment.vacant { base with line := base.line.map fun l => { plans := l.plans } } hubs

variable {y : Deployment}

/-- A move lets nobody in, or it is an upgrade that is granted, and begins its session. -/
theorem Guarded.after (hy : Guarded y) (m : Move) : Inner y (after y m) ∨
    ∃ hub r room user, m = .upgrade hub r ∧ hub < y.service.hubs.size ∧ Admits y.service r room user ∧
      after y m = (y.openSession hub room user openSink).2.2 := by
  cases m with
  | turn u => exact .inl (inner_turn hy u)
  | upgrade hub r =>
    simp only [Gateway.after]
    split
    · rename_i hh
      by_cases hp : Route.Path.ofText? r.path = some .upgrade
      · rcases upgrade_spec { deployment := y } hub hp with ⟨room, user, -, -, ha, -, hd⟩ | ⟨⟨response, hu⟩, -⟩
        · exact .inr ⟨hub, r, room, user, rfl, hh, ha, hd⟩
        · rw [hu]
          exact .inl (.refl hy)
      · exact .inl (inner_request hy hub hp)
    · exact .inl (.refl hy)
  | request hub r => exact .inl (inner_serve hy hub r)
  | item n i => exact .inl (inner_feed hy n i)
  | drop n => exact .inl (inner_abort hy n)
  | transport c sink => exact .inl (inner_transport hy c sink)
  | store m =>
    simp only [Gateway.after]
    split
    · rename_i hm
      exact .inl (inner_store hy fun p hp => List.contains_iff_mem.1 (List.all_eq_true.1 hm p hp))
    · exact .inl (.refl hy)
  | calendar t => exact .inl (inner_calendar hy t)

/-- What holds of a session that an upgrade of the history began. -/
def Entered (y : Nat → Deployment) (ms : List Move) (k hub : Nat) (conn : ConnId) (room user : String) : Prop :=
  ∃ j r, j < k ∧ ms[j]? = some (.upgrade hub r) ∧ conn = (y j).service.connections.size ∧
    Admits (y j).service r room user

theorem Entered.succ {y : Nat → Deployment} {ms : List Move} {k hub : Nat} {conn : ConnId} {room user : String}
    (h : Entered y ms k hub conn room user) : Entered y ms (k + 1) hub conn room user := by
  obtain ⟨j, r, hj, h⟩ := h
  exact ⟨j, r, Nat.lt_succ_of_lt hj, h⟩

theorem course_succ (y : Deployment) (ms : List Move) (k : Nat) :
    course y ms (k + 1) = (ms[k]?.map (after (course y ms k))).getD (course y ms k) :=
  foldl_take_succ after y ms k

theorem task_vacant (base : Service) (hubs n : Nat) : (vacant base hubs).task n = .done := by
  simp [vacant, Deployment.vacant, task]

theorem guarded_vacant (base : Service) (hubs : Nat) : Guarded (vacant base hubs) := by
  refine ⟨tended_vacant _ hubs, fun n x hx => ?_, fun n x hx => ?_,
    ⟨⟨fun l hl => ?_, fun c text ht => ?_⟩, fun n => ?_⟩⟩
  · rw [task_vacant] at hx
    cases hx
  · rw [task_vacant] at hx
    cases hx
  · obtain ⟨l', -, rfl⟩ := Option.map_eq_some_iff.1 hl
    refine ⟨fun e he => ?_, fun f m hm => ?_⟩
    · cases he
    · have hnone : MemoryBroker.feed {} f = #[] := by cases f <;> rfl
      rw [show ({ plans := l'.plans } : Broker.Line).broker = {} from rfl, hnone] at hm
      exact absurd hm (Array.not_mem_empty m)
  · cases ht
  · rw [task_vacant]
    exact .none

/-- **The invariant of a history**: only participants are let in, and every session was begun by an upgrade. -/
theorem guarded_course_vacant (base : Service) (hubs : Nat) (ms : List Move) (k : Nat) :
    Guarded (course (vacant base hubs) ms k) ∧ (course (vacant base hubs) ms k).service.config = base.config ∧
      ∀ n x, (course (vacant base hubs) ms k).task n = .session x →
        Entered (course (vacant base hubs) ms) ms k x.hub x.conn x.room x.user := by
  induction k with
  | zero =>
    refine ⟨guarded_vacant base hubs, rfl, fun n x hx => ?_⟩
    rw [show course (vacant base hubs) ms 0 = vacant base hubs from rfl, task_vacant] at hx
    cases hx
  | succ k ih =>
    obtain ⟨hg, hconfig, hsessions⟩ := ih
    rw [course_succ]
    cases hm : ms[k]? with
    | none => exact ⟨hg, hconfig, fun n x hx => (hsessions n x hx).succ⟩
    | some m =>
      simp only [Option.map_some, Option.getD_some]
      rcases hg.after m with h | ⟨hub, r, room, user, rfl, hh, ha, hd⟩
      · refine ⟨h.guarded, h.config.trans hconfig, fun n x hx => ?_⟩
        obtain ⟨z, hz, hself⟩ := h.sessions n x hx
        obtain ⟨hhub, hconn, hroom, huser⟩ := Session.self_eq_iff.1 hself
        rw [hhub, hconn, hroom, huser]
        exact (hsessions n z hz).succ
      · rw [hd]
        refine ⟨guarded_openSession hg hh ha openSink, hconfig, fun n x hx => ?_⟩
        rcases sessions_of_change (hg.tended.change_openSession hh room user openSink) hx with ⟨z, hz, hself⟩ | hnew
        · obtain ⟨hhub, hconn, hroom, huser⟩ := Session.self_eq_iff.1 hself
          rw [hhub, hconn, hroom, huser]
          exact (hsessions n z hz).succ
        · cases hnew
          exact ⟨k, r, Nat.lt_succ_self k, hm, rfl, ha⟩

/-! ### Only participants -/

def person (s : Service) (r : Request) : Except Identity.Fault String :=
  Identity.ofUpgrade s.seconds s.config (arriving r).headers (r.query.lookup "token") (r.query.lookup "user_id")

def room? (r : Request) : Option String := Access.roomOf? (r.query.lookup "conversation_id")

/-- Reasons not to let a request in: nobody or no room is named, the store fails, or the person does not take
part in the room. -/
inductive Refuses (s : Service) (r : Request) : Prop
  | unverified (fault : Identity.Fault) (h : person s r = .error fault)
  | unnamed (h : room? r = none)
  | unavailable (h : s.store.available = false)
  | stranger (room user : String) (hr : room? r = some room) (hu : person s r = .ok user)
      (h : s.store.takesPart room user = false)

theorem Refuses.not_admits {s : Service} {r : Request} (h : Refuses s r) (room user : String) :
    ¬ Admits s r room user := by
  rintro ⟨-, hg⟩
  have hu : person s r = .ok user := hg.identity
  have hr : room? r = some room := hg.named
  cases h with
  | unverified fault h =>
    rw [h] at hu
    cases hu
  | unnamed h =>
    rw [h] at hr
    cases hr
  | unavailable h =>
    have ha := hg.available
    rw [h] at ha
    cases ha
  | stranger room' user' hr' hu' h =>
    rw [hr] at hr'
    rw [hu] at hu'
    cases hr'
    cases hu'
    have ht := hg.takesPart
    rw [h] at ht
    cases ht

/-- What is so of a history `ms` from a deployment where nobody has come yet, `y k` being the deployment
after `k` moves. -/
structure FailsClosed (config : Config) (y : Nat → Deployment) (ms : List Move) : Prop where
  settings : ∀ k, (y k).service.config = config
  /-- Who is listed takes part in the room, and was let into it by an upgrade of its own, which gave the
  connection its number: by the name that was found out then, and into the room that was named. -/
  listed : ∀ k hub room e, e ∈ ((y k).service.registry hub).members room →
    room ≠ "" ∧ Text.trim room = room ∧ (y k).service.store.takesPart room e.user = true ∧
      ((y k).service.connection e.id).room = room ∧ ((y k).service.connection e.id).user = e.user ∧
      ∃ j r, j < k ∧ ms[j]? = some (.upgrade hub r) ∧ e.id = (y j).service.connections.size ∧
        person (y j).service r = .ok e.user ∧ room? r = some room ∧ (y j).service.store.takesPart room e.user = true
  /-- Whoever is heard of in a room takes part in it. -/
  heard : ∀ k (e : Envelope), e.IsPersonal → (y k).Heard e.text → (y k).service.store.takesPart e.room e.user = true
  /-- At any time an upgrade with a reason against it is turned down. -/
  refused : ∀ (x : Schedule) hub r, Route.Path.ofText? r.path = some .upgrade → Refuses x.service r →
    ∃ response, (upgrade x hub r).1 = .error response
  /-- An upgrade that is turned down changes nothing at all. -/
  unchanged : ∀ (x : Schedule) hub r, Route.Path.ofText? r.path = some .upgrade → ∀ response,
    (upgrade x hub r).1 = .error response → (upgrade x hub r).2 = x

/-- **Upgrades fail closed**: with any settings, on any number of hubs, whatever is asked, whatever clients
send, and whoever is given a place in a conversation. -/
theorem upgrades_fail_closed (base : Service) (hubs : Nat) (ms : List Move) :
    FailsClosed base.config (course (vacant base hubs) ms) ms where
  settings k := (guarded_course_vacant base hubs ms k).2.1
  listed k hub room e he := by
    obtain ⟨hg, -, hentered⟩ := guarded_course_vacant base hubs ms k
    obtain ⟨n, x, hx, -, rfl, rfl, rfl⟩ := (hg.tended.members hub room e).1 he
    obtain ⟨j, r, hj, hm, hconn, ha⟩ := hentered n x hx
    obtain ⟨hne, htrim⟩ := hg.named n x hx
    have hagrees := hg.tended.agrees n x hx
    exact ⟨hne, htrim, hg.takesPart n x hx, hagrees.room, hagrees.user, j, r, hj, hm, hconn, ha.2.identity,
      ha.2.named, ha.2.takesPart⟩
  heard k e he ht := (guarded_course_vacant base hubs ms k).1.vouched.heard ht e he rfl
  refused x hub r hp hr := by
    rcases upgrade_spec x hub hp with ⟨room, user, -, -, ha, -⟩ | ⟨⟨response, hu⟩, -⟩
    · exact absurd ha (hr.not_admits room user)
    · exact ⟨response, by rw [hu]⟩
  unchanged x hub r hp response hu := by
    rcases upgrade_spec x hub hp with ⟨_, _, conn, n, -, hok, -⟩ | ⟨⟨response', he⟩, -⟩
    · rw [hok] at hu
      cases hu
    · rw [he]

-- Ann takes part in `r` and comes with blanks around the room's name; Bob does not take part.
example :
    let headers : Headers := [("connection", "Upgrade"), ("upgrade", "websocket"), ("sec-websocket-key", "x"),
      ("sec-websocket-version", "13")].map fun p => (p.1, Text.Utf8.encode p.2)
    let ask (user : String) : Move :=
      .upgrade 0 { path := "/ws", query := [("conversation_id", " r "), ("user_id", user)], headers }
    let y := course (vacant { store := { participants := [("r", "ann")] } } 1)
      [ask "bob", ask "ann", .turn (.step 1 {})] 3
    (y.service.connections.size, (y.service.registry 0).members "r") = (1, [⟨0, "ann"⟩]) := by
  decide +kernel

end Gateway

end Parley
