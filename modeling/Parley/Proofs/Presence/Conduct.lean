import Parley.Proofs.Presence.Said
import Parley.Proofs.Sessions.Cleanup

/-!
# What sessions say of presence

A session tells of its person's presence when it joins (the default status), when its client asks
for it (any status), and when it leaves (`offline`). Each time it first puts the record and then
publishes the event, and with a broker that is up both go through at once.

* `Activity.Tells` is an activity on its way to tell of a status, `Activity.Plain` one that tells of
  nobody. `Activity.Step.tells` and `Activity.Step.plain` say what their steps do to the broker:
  `Service.Puts`, `Service.Accepts`, or nothing (`Service.Mute`).
* `Session.Conduct` says that the activity of a session fits its stage. Clients may be held to
  statuses of which some `P` holds (`Item.Says`).
-/

namespace Parley

open Hub

/-! ### What a step does to the broker -/

namespace Service

/-- A record is put, and nothing else is said. -/
structure Puts (s : Service) (key status : String) (t : Service) : Prop where
  ready : t.Ready
  accepted : t.broker.accepted = s.broker.accepted
  peek : ∃ r : Broker.Record, r.value = status ∧
    ∀ k, t.broker.peek k = if k = key then some r else s.broker.peek k

/-- A message is accepted, and nothing else is said. -/
structure Accepts (s : Service) (m : Broker.Message) (t : Service) : Prop where
  ready : t.Ready
  records : t.broker.records = s.broker.records
  accepted : t.broker.accepted = s.broker.accepted ++ [m]

variable {s : Service} {line : Broker.Line}

theorem puts_setEx (hs : s.Ready) (hl : s.line = some line) (key status : String) (life : Duration) :
    s.Puts key status { s with line := some (line.setEx s.now key status life).2 } := by
  obtain ⟨line', hl', hp, ha⟩ := hs.up
  obtain rfl : line' = line := by simpa [hl] using hl'.symm
  obtain ⟨-, hbroker, hplans⟩ := line'.call_of_plans_nil s.now (.setEx key status life)
    (·.setEx s.now key status life.nanos) hp
  have hset : (line'.broker.setEx s.now key status life.nanos).2 =
      line'.broker.put key ⟨status, s.now + life.nanos⟩ := by
    simp [MemoryBroker.setEx, ha]
  have hb : (line'.setEx s.now key status life).2.broker = line'.broker.put key ⟨status, s.now + life.nanos⟩ :=
    hbroker.trans hset
  have hfeeds := hs.feeds
  rw [broker_of_line hl'] at hfeeds
  refine ⟨⟨⟨_, rfl, hplans, by rw [hb]; exact ha⟩, ?_⟩, ?_, ⟨status, s.now + life.nanos⟩, rfl, fun k => ?_⟩
  · rw [broker_of_line rfl, hb]
    exact hfeeds
  · rw [broker_of_line hl', broker_of_line rfl, hb]
    rfl
  · rw [broker_of_line hl', broker_of_line rfl, hb]
    exact MemoryBroker.peek_put _ _ _ _

theorem accepts_publish (hs : s.Ready) (hl : s.line = some line) (m : Broker.Message) :
    (line.publish s.now m).1 = .ok () ∧ s.Accepts m { s with line := some (line.publish s.now m).2 } := by
  obtain ⟨hok, hup⟩ := publish_of_up hl hs.up m
  obtain ⟨line', hl', hp, -⟩ := hs.up
  obtain rfl : line' = line := by simpa [hl] using hl'.symm
  have hb : (line'.publish s.now m).2.broker = (line'.broker.publish m).2 :=
    (line'.call_of_plans_nil s.now (.publish m) (·.publish m) hp).2.1
  have hfeeds := hs.feeds
  rw [broker_of_line hl'] at hfeeds
  obtain ⟨hpublished, -⟩ := line'.publish_ok s.now hok
  refine ⟨hok, ⟨hup, ?_⟩, ?_, ?_⟩
  · rw [broker_of_line rfl, hpublished, Array.size_modify]
    exact hfeeds
  · rw [broker_of_line hl', broker_of_line rfl, hb, MemoryBroker.records_publish]
  · rw [broker_of_line hl', broker_of_line rfl]
    exact MemoryBroker.accepted_modify_current hfeeds hpublished

end Service

namespace Hub

variable {s t : Service} {room user : String} {P : String → Prop}

/-! ### Activities -/

/-- The event of a post tells that a person has a status of which `P` holds. -/
def Post.Tells (p : Post) (room user : String) (P : String → Prop) : Prop :=
  p.room = room ∧ p.category = .presence ∧
    ∃ time status, P status ∧ p.event = .ok (Envelope.presence room user time status).text

/-- An activity that tells of a status of which `P` holds, or has told. -/
def Activity.Tells (room user : String) (P : String → Prop) : Activity → Prop
  | .recording post u status => u = user ∧ P status ∧ post.Tells room user P
  | .attempting post _ => post.Tells room user P
  | .pausing .. | .delivering .. => False
  | .finished _ => True

/-- An activity that tells of nobody's presence. -/
def Activity.Plain : Activity → Prop
  | .recording .. => False
  | .attempting post _ | .pausing post _ _ => post.category ≠ .presence
  | .delivering .. | .finished _ => True

theorem Activity.tells_announce (s : Service) (hub : Nat) (status : Option String)
    (hP : P ((status.filter (· != "")).getD defaultStatus)) :
    (Activity.announce s hub room user status).1.Tells room user P :=
  ⟨rfl, hP, rfl, rfl, _, _, hP, rfl⟩

/-- What a step does of an activity that tells of a status: it records it, or it publishes it. -/
inductive Activity.Told (s : Service) (room user : String) (P : String → Prop) : Activity → Activity → Service → Prop
  | record (post : Post) (status : String) (t : Service) (hpost : post.Tells room user P) (hst : P status)
      (h : s.Puts (presenceKey room user) status t) :
      Told s room user P (.recording post user status) (.attempting post 1) t
  | publish (post : Post) (n : UInt32) (status : String) (t : Service) (m : Broker.Message) (hst : P status)
      (hm : m.Announces room user status) (h : s.Accepts m t) :
      Told s room user P (.attempting post n) (.finished (.ok ())) t

theorem Activity.Step.tells {a a' : Activity} (hs : s.Ready) (ha : a.Tells room user P) (h : Activity.Step s a a' t) :
    Activity.Told s room user P a a' t := by
  have hup := hs.up
  obtain ⟨line, hline, -⟩ := hup
  cases h with
  | record l hl post u status =>
    obtain ⟨rfl, hst, hroom, hrest⟩ := ha
    subst hroom
    exact .record post status _ ⟨rfl, hrest⟩ hst (Service.puts_setEx hs hl _ _ _)
  | unrecorded hl | direct hl =>
    rw [hl] at hline
    cases hline
  | unwritable l hl post n reason he =>
    obtain ⟨-, -, time, status, -, hevent⟩ := ha
    rw [hevent] at he
    cases he
  | accepted l hl post n text he hp =>
    obtain ⟨hroom, hcategory, time, status, hst, hevent⟩ := ha
    obtain rfl : text = (Envelope.presence room user time status).text := by simpa [hevent] using he.symm
    refine .publish post n status _ _ hst ⟨time, ?_⟩ (Service.accepts_publish hs hl _).2
    rw [Post.message, hcategory, hroom]
  | exhausted l hl post n text he e hp | again l hl post n text he e hp | unending l hl post n text he e hp =>
    rw [(Service.accepts_publish hs hl _).1] at hp
    cases hp
  | resume | deliver | delivered => exact absurd ha id

theorem Activity.Told.tells {a a' : Activity} (h : Activity.Told s room user P a a' t) : a'.Tells room user P := by
  cases h with
  | record post status t hpost => exact hpost
  | publish => trivial

theorem Activity.Told.ready {a a' : Activity} (h : Activity.Told s room user P a a' t) : t.Ready := by
  cases h with
  | record post status t hpost hst h => exact h.ready
  | publish post n status t m hst hm h => exact h.ready

/-- A step of an activity that tells of nobody: nothing is said, or something about nobody. -/
theorem Activity.Step.plain {a a' : Activity} (hs : s.Ready) (ha : a.Plain) (h : Activity.Step s a a' t) :
    a'.Plain ∧ (s.Mute t ∨ ∃ m, s.Accepts m t ∧ ∀ room user status, ¬ m.Announces room user status) := by
  cases h with
  | record => exact absurd ha id
  | unrecorded => exact absurd ha id
  | direct | unwritable => exact ⟨trivial, .inl (.of_line hs rfl)⟩
  | accepted l hl post n text he hp =>
    refine ⟨trivial, .inr ⟨_, (Service.accepts_publish hs hl _).2, fun room user status => ?_⟩⟩
    exact Broker.Message.not_announces_of_category ha rfl
  | exhausted l hl post n text he e hp | again l hl post n text he e hp | unending l hl post n text he e hp =>
    rw [(Service.accepts_publish hs hl _).1] at hp
    cases hp
  | resume => exact ⟨ha, .inl (.of_line hs rfl)⟩
  | deliver f f' t r hf => exact ⟨trivial, .inl (.of_line hs hf.line)⟩
  | delivered => exact ⟨trivial, .inl (.of_line hs rfl)⟩

/-! ### Sessions -/

/-- If the frame is one about presence, `P` holds of the status it gives. -/
def Item.Says (P : String → Prop) : Item → Prop
  | .text frame => ∀ status, ClientFrame.parse (Text.Utf8.encode frame) = .ok (.presence status) →
      P ((status.filter (· != "")).getD defaultStatus)
  | .other | .close | .error | .ended => True

/-- The activity of a stage fits it. -/
def Stage.Conduct (room user : String) (P : String → Prop) : Stage → Prop
  | .joining a => a.Tells room user (· = defaultStatus)
  | .handling a => a.Tells room user P ∨ a.Plain
  | .leaving a => a.Tells room user (· = offlineStatus)
  | _ => True

/-- A session does what fits its stage, and its client says what it may. -/
structure Session.Conduct (P : String → Prop) (x : Session) : Prop where
  inbox : ∀ i ∈ x.inbox, i.Says P
  stage : x.stage.Conduct x.room x.user P

theorem tells_route {hub : Nat} {frame : String} {a : Activity} (hi : Item.Says P (.text frame))
    (h : (route s hub room user (Text.Utf8.encode frame)).2.1 = some a) : a.Tells room user P ∨ a.Plain := by
  unfold route at h
  cases hp : ClientFrame.parse (Text.Utf8.encode frame) with
  | error e => simp [hp] at h
  | ok f =>
    rw [hp] at h
    cases f with
    | typing stopped | read lastReadId =>
      cases h
      exact .inr (by simp [Activity.publish, Activity.Plain])
    | presence status =>
      cases h
      exact .inl (Activity.tells_announce s hub status (hi status hp))
    | unknown => cases h

end Hub

end Parley
