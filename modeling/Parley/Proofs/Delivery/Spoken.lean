import Parley.Proofs.Admission.Frames
import Parley.Proofs.Delivery.Idle
import Parley.Proofs.Delivery.Retries

/-!
# What comes of a frame from a client

A frame that is understood gives rise to one event (`Utterance`): about the person and the room of the connection it
came on, of its own type, with the one member that goes with the type. What the service does about it is to record
the status, if it has one and there is a broker, and to publish the event (`Utterance.Came`). A frame that is not
understood is nothing.

`speaks_for_sender` puts this together, for every frame and whatever else goes on. `Activity.course_deeds` is about
every course of the activity. The service begins the activity as a task, and takes one of these courses with it;
without a broker, and where nothing else goes on, the activity is over when the service is done with the frame
(`Utterance.Handled`).
-/

namespace Parley

open Hub

namespace Hub

def Dispatch.of : ClientFrame → Dispatch
  | .typing _ => .typing
  | .read _ => .read
  | .presence _ => .presence
  | .unknown => .dropped

/-- An event to be published, and the status to be recorded before. -/
structure Utterance where
  category : Category
  event : Envelope
  status : Option String := none

namespace Utterance

/-- The status of a person who sent this one; an absent or empty one is `online`. -/
def shown (status : Option String) : String :=
  match status with
  | none | some "" => "online"
  | some t => t

/-- What a frame from a person in a room says at a time. -/
def of? (room user : String) (time : Timestamp) : ClientFrame → Option Utterance
  | .typing stopped => some {
      category := .events
      event := { type := .typing, room, user, time, fields := if stopped then [("stopped", .bool true)] else [] } }
  | .read lastReadId => some {
      category := .events
      event := { type := .read, room, user, time, fields := (lastReadId.map fun v => ("last_read_id", v)).toList } }
  | .presence status => some {
      category := .presence
      event := { type := .presence, room, user, time, fields := [("status", .string (shown status))] }
      status := some (shown status) }
  | .unknown => none

variable (u : Utterance) (hub : Nat) (room user : String)

def post : Post := ⟨hub, room, u.category, .ok u.event.text⟩

def activity : Activity :=
  match u.status with
  | none => .attempting (u.post hub room) 1
  | some status => .recording (u.post hub room) user status

/-- What publishing it comes to: with a broker the status is recorded, well or not, and the event published; without
one it is sent to the connections of the room. -/
def Came (broker : Bool) (p : RetryPolicy) (ds : List Deed) (r : Except PublishError Unit) : Prop :=
  if broker then
    match u.status with
    | none => Activity.Published p (u.post hub room) u.event.text 1 ds r
    | some status => ∃ o rest, ds = .call (.setEx (presenceKey room user) status presenceLife) o :: rest ∧
        Activity.Published p (u.post hub room) u.event.text 1 rest r
  else ds = [.broadcast hub room (some u.event.text)] ∧ r = .ok ()

variable {u hub room user} {s t : Service} {ds : List Deed} {r : Except PublishError Unit}

theorem came_of_course {E : Service → Service → Prop} (hE : Activity.Settled E)
    (h : Activity.Course E s (u.activity hub room user) ds (.finished r) t) :
    u.Came hub room user s.hasBroker s.policy ds r := by
  have he : (u.post hub room).event = .ok u.event.text := rfl
  have hcomes := Activity.course_deeds hE he h
  unfold activity at hcomes
  unfold Came
  cases hs : u.status with
  | none =>
    rw [hs] at hcomes
    exact hcomes rfl
  | some status =>
    rw [hs] at hcomes
    exact hcomes rfl

/-- It can be published, whatever the broker makes of it. -/
theorem exists_course (u : Utterance) (hub : Nat) (room user : String) (hw : s.policy.Waits) :
    ∃ ds r t, Activity.Course Service.Passes s (u.activity hub room user) ds (.finished r) t := by
  unfold activity
  cases u.status with
  | none => exact Activity.exists_finished hw _ 1
  | some status =>
    cases hl : s.line with
    | none =>
      obtain ⟨t, ht⟩ := Activity.exists_delivered Service.Passes s (u.post hub room).fanout (.ok ())
      exact ⟨_, _, t, .own {} (by simp [Activity.step, Activity.recordStatus, Service.onLine, hl]) ht⟩
    | some l =>
      let t : Service := { s with line := some (l.setEx s.now (presenceKey room user) status presenceLife).2 }
      obtain ⟨ds, r, v, hcourse⟩ := Activity.exists_finished (s := t) hw (u.post hub room) 1
      have hstep : (Activity.recording (u.post hub room) user status).step s {} =
          some (.attempting (u.post hub room) 1, t) := by
        simp [Activity.step, Activity.recordStatus, Service.onLine, hl, t, post]
      exact ⟨_, r, v, .own {} hstep hcourse⟩

theorem shown_eq (status : Option String) : (status.filter (· != "")).getD defaultStatus = shown status := by
  unfold shown
  split
  · rfl
  · rfl
  · rename_i t ht
    have hne : t ≠ "" := fun h => ht h
    simp [Option.filter, hne]

end Utterance

/-- The members of an event are those that every event has, with the room and the person that are given, and its own. -/
theorem Utterance.json_of {room user : String} {time : Timestamp} {f : ClientFrame} {u : Utterance}
    (hu : Utterance.of? room user time f = some u) :
    u.event.json = .object (("type", .string u.event.type.name) :: ("conversation_id", .string room) ::
      ("user_id", .string user) :: ("timestamp", .string time.text) :: u.event.fields) := by
  cases f <;> cases hu <;> rfl

theorem Utterance.tags_of {room user : String} {time : Timestamp} {f : ClientFrame} {u : Utterance} {v : Json}
    (hu : Utterance.of? room user time f = some u) (hv : ClientFrame.Says v f) :
    v.tags = [.string u.event.type.name] := by
  cases hv with
  | unknown => cases hu
  | types ht | typing b ht | reads ht | read w ht | present ht | blank ht | presence t ht =>
    cases hu
    exact ht

/-- A frame that says something starts the activity of publishing it. -/
theorem route_of_utterance (s : Service) (hub : Nat) {room user : String} {raw : Bytes} {f : ClientFrame}
    {u : Utterance} (hf : ClientFrame.parse raw = .ok f) (hu : Utterance.of? room user s.readClock.1 f = some u) :
    route s hub room user raw = (.of f, some (u.activity hub room user), s.readClock.2) := by
  unfold route
  rw [hf]
  cases f with
  | typing stopped =>
    cases hu
    cases stopped <;> rfl
  | read lastReadId =>
    cases hu
    cases lastReadId <;> rfl
  | presence status =>
    cases hu
    dsimp only
    unfold Activity.announce
    rw [Utterance.shown_eq]
    rfl
  | unknown => cases hu

/-- What a frame is taken for depends on nothing but the frame. -/
theorem route_fst (s : Service) (hub : Nat) (room user : String) (raw : Bytes) :
    (route s hub room user raw).1 = match ClientFrame.parse raw with
      | .ok f => .of f
      | .error _ => .dropped := by
  unfold route
  cases ClientFrame.parse raw with
  | error e => rfl
  | ok f => cases f <;> rfl

/-- A frame that is dropped does nothing. -/
theorem route_dropped {s : Service} {hub : Nat} {room user : String} {raw : Bytes}
    (h : (route s hub room user raw).1 = .dropped) : route s hub room user raw = (.dropped, none, s) := by
  unfold route at h ⊢
  cases hp : ClientFrame.parse raw with
  | error e => rfl
  | ok f => rw [hp] at h; cases f <;> first | rfl | cases h

namespace Utterance

/-- What a schedule does about one that has been understood. -/
structure Handled (u : Utterance) (hub : Nat) (room user : String) (x y : Schedule) : Prop where
  /-- Its activity is begun, as a task of its own, -/
  begun : Deployment.Reaches
    ({ x.deployment with service := x.service.readClock.2 }.spawn (.activity (u.activity hub room user))).2 y.deployment
  /-- which goes on at once, until it is over or has to let time pass, -/
  run : (x.service.registry hub).connectionCount room ≤ 2 ^ 39 → ∃ z b, Deployment.Reaches
      ({ x.deployment with service := x.service.readClock.2 }.spawn (.activity (u.activity hub room user))).2 z ∧
    z.task x.deployment.tasks.size = .activity b ∧ b.Rests z.service.now ∧ Deployment.Reaches z y.deployment
  /-- and takes a course of the activity: to its end without a broker, and where nothing else goes on. -/
  carried : ∃ b ds, y.deployment.task x.deployment.tasks.size = .activity b ∧
    Activity.Course Service.Steady x.service.readClock.2 (u.activity hub room user) ds b y.service ∧
    (∀ r, b = .finished r → u.Came hub room user x.service.hasBroker x.service.policy ds r) ∧
    (x.service.hasBroker = false ∨ x.Idle → (x.service.registry hub).connectionCount room ≤ 2 ^ 39 →
      ∃ r, b = .finished r)

variable {hub : Nat} {room user : String}

theorem activity_ne_pausing (u : Utterance) (p : Post) (n : UInt32) (t : Instant) :
    u.activity hub room user ≠ .pausing p n t := by
  unfold activity
  cases u.status <;> nofun

theorem stretch_activity_le (u : Utterance) {s : Service} (h : (s.registry hub).connectionCount room ≤ 2 ^ 39) :
    (u.activity hub room user).stretch s ≤ Schedule.patience := by
  have hattempts : s.policy.maxAttempts.toNat < 2 ^ 32 := s.policy.maxAttempts.toNat_lt
  have hpatience : Schedule.patience = 2 ^ 40 := rfl
  have hpost : (u.post hub room).stretch s 1 + 1 ≤ Schedule.patience := by
    show 2 * (s.policy.maxAttempts.toNat - 1) + (s.registry hub).connectionCount room + 4 + 1 ≤ _
    omega
  unfold activity
  cases u.status with
  | none => exact Nat.le_of_succ_le hpost
  | some status => exact hpost

end Utterance

/-- **A frame that says something is seen to.** -/
theorem handled_of_utterance (x : Schedule) (hub : Nat) {room user : String} {raw : Bytes} {f : ClientFrame}
    {u : Utterance}
    (hf : ClientFrame.parse raw = .ok f) (hu : Utterance.of? room user x.service.readClock.1 f = some u) :
    u.Handled hub room user x (x.handleFrame hub room user raw).2 := by
  let y : Schedule := x.onService fun _ => x.service.readClock.2
  have hawait : (x.handleFrame hub room user raw).2 = (y.await (u.activity hub room user)).2 := by
    rw [Schedule.handleFrame, route_of_utterance x.service hub hf hu]
  rw [hawait]
  refine ⟨y.await_reaches _, fun hcount => ?_, ?_⟩
  · obtain ⟨z, b, hz, hheld, hy⟩ := y.await_held (u.stretch_activity_le (s := y.service) hcount)
    exact ⟨z, b, hz, hheld.task, hheld.rests, hy⟩
  obtain ⟨b, ds, htask, hcourse⟩ := y.await_carries (u.activity hub room user)
  refine ⟨b, ds, htask, hcourse, fun r hr => ?_, fun hx hcount => ?_⟩
  · subst hr
    exact Utterance.came_of_course (s := x.service.readClock.2) Service.settled_steady hcourse
  · have hpatience : (u.activity hub room user).stretch y.service ≤ Schedule.patience := u.stretch_activity_le hcount
    obtain ⟨r, hr⟩ : ∃ r, (y.await (u.activity hub room user)).2.deployment.task x.deployment.tasks.size =
        .activity (.finished r) := by
      rcases hx with hbroker | hidle
      · exact y.await_of_direct hbroker u.activity_ne_pausing hpatience
      · exact y.await_of_idle (hidle.onService ⟨rfl, rfl, rfl, .refl _⟩) hpatience
    exact ⟨r, Task.activity.inj (htask.symm.trans hr)⟩

theorem handleFrame_fst (x : Schedule) (hub : Nat) (room user : String) (raw : Bytes) :
    (x.handleFrame hub room user raw).1 = (route x.service hub room user raw).1 := by
  unfold Schedule.handleFrame
  split <;> simp_all

/-- The handling of a frame from a person in a room. -/
structure Spoken (s : Service) (hub : Nat) (room user : String) (raw : Bytes) : Prop where
  /-- A frame is dropped if it is none or of an unknown type, -/
  dropped_iff : (route s hub room user raw).1 = .dropped ↔
    (∃ e, ClientFrame.parse raw = .error e) ∨ ClientFrame.parse raw = .ok .unknown
  /-- and then nothing happens at all. -/
  dropped : (route s hub room user raw).1 = .dropped → route s hub room user raw = (.dropped, none, s) ∧
    ∀ x : Schedule, x.service = s → x.handleFrame hub room user raw = (.dropped, x)
  /-- It is understood if it is a value that says something, and then as that. -/
  understood : ∀ f, ClientFrame.parse raw = .ok f ↔ ∃ v, Json.parse raw = .ok v ∧ ClientFrame.Says v f
  /-- Any other frame says one thing, which is published, whatever else goes on. -/
  handled : ∀ f, ClientFrame.parse raw = .ok f → f ≠ .unknown → ∃ u, Utterance.of? room user s.readClock.1 f = some u ∧
    (∀ v, Json.parse raw = .ok v → v.tags = [.string u.event.type.name]) ∧
    u.event.json = .object (("type", .string u.event.type.name) :: ("conversation_id", .string room) ::
      ("user_id", .string user) :: ("timestamp", .string s.readClock.1.text) :: u.event.fields) ∧
    route s hub room user raw = (.of f, some (u.activity hub room user), s.readClock.2) ∧
    (∀ E, Activity.Settled E → ∀ ds r t,
      Activity.Course E s.readClock.2 (u.activity hub room user) ds (.finished r) t →
      u.Came hub room user s.hasBroker s.policy ds r) ∧
    (s.policy.Waits → ∃ ds r t,
      Activity.Course Service.Passes s.readClock.2 (u.activity hub room user) ds (.finished r) t) ∧
    (∀ w p, Surroundings.Lasting w p → Activity.Ends w (u.activity hub room user)) ∧
    ∀ x : Schedule, x.service = s → u.Handled hub room user x (x.handleFrame hub room user raw).2
  /-- What it is taken for does not depend on the service, -/
  alike : (∀ s' hub' room' user', (route s' hub' room' user' raw).1 = (route s hub room user raw).1) ∧
    ∀ x : Schedule, (x.handleFrame hub room user raw).1 = (route s hub room user raw).1
  /-- and what is done about it on nothing but its type and the member that goes with the type. -/
  blind : ∀ raw' v v', Json.parse raw = .ok v → Json.parse raw' = .ok v' → v.tags = v'.tags →
    (∀ name ∈ ["stopped", "last_read_id", "status"], v.arguments name = v'.arguments name) →
    ∀ f f', ClientFrame.parse raw = .ok f → ClientFrame.parse raw' = .ok f' →
    route s hub room user raw = route s hub room user raw' ∧
    ∀ x : Schedule, x.handleFrame hub room user raw = x.handleFrame hub room user raw'

/-- **A client speaks for itself, and only what it says is done.** -/
theorem speaks_for_sender (s : Service) (hub : Nat) (room user : String) (raw : Bytes) :
    Spoken s hub room user raw where
  dropped_iff := by
    rw [route_fst]
    cases ClientFrame.parse raw with
    | error e => simp
    | ok f => cases f <;> simp [Dispatch.of]
  dropped h := by
    have hroute := route_dropped h
    refine ⟨hroute, fun x hx => ?_⟩
    subst hx
    rw [Schedule.handleFrame, hroute]
    rfl
  understood _ := ClientFrame.parse_iff
  handled f hf hne := by
    obtain ⟨u, hu⟩ : ∃ u, Utterance.of? room user s.readClock.1 f = some u := by
      cases f with
      | unknown => exact absurd rfl hne
      | _ => exact ⟨_, rfl⟩
    have hroute := route_of_utterance s hub hf hu
    have htype : ∀ v, Json.parse raw = .ok v → v.tags = [.string u.event.type.name] := by
      intro v hv
      obtain ⟨w, hw, hsays⟩ := ClientFrame.parse_iff.mp hf
      obtain rfl : v = w := Except.ok.inj (hv.symm.trans hw)
      exact Utterance.tags_of hu hsays
    refine ⟨u, hu, htype, Utterance.json_of hu, hroute, fun E hE ds r t h =>
      Utterance.came_of_course (s := s.readClock.2) hE h,
      fun hw => u.exists_course hub room user hw, fun w p hw => Activity.ends hw _, fun x hx => ?_⟩
    subst hx
    exact handled_of_utterance x hub hf hu
  alike :=
    ⟨fun s' hub' room' user' => by rw [route_fst, route_fst],
      fun x => by rw [handleFrame_fst, route_fst, route_fst]⟩
  blind raw' v v' hv hv' ht ha f f' hf hf' := by
    obtain ⟨w, hw, hsays⟩ := ClientFrame.parse_iff.mp hf
    obtain ⟨w', hw', hsays'⟩ := ClientFrame.parse_iff.mp hf'
    obtain rfl : v = w := Except.ok.inj (hv.symm.trans hw)
    obtain rfl : v' = w' := Except.ok.inj (hv'.symm.trans hw')
    obtain rfl := hsays.unique hsays' ht ha
    have hroute : ∀ s : Service, route s hub room user raw = route s hub room user raw' := by
      intro s
      unfold route
      rw [hf, hf']
    exact ⟨hroute s, fun x => by rw [Schedule.handleFrame, hroute, Schedule.handleFrame]⟩

end Hub

end Parley
