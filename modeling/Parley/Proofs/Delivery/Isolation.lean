import Mathlib.Data.List.Forall2
import Mathlib.Logic.Relation
import Parley.Proofs.Steps

/-!
# A connection does not notice the others

Two courses of one hub share who connects, registers and leaves, what is broadcast, and what becomes
of one connection `c`. Everything else may differ between them at every moment: what waits behind the
other connections, how far their writers are, whether their transports fail, stall or are closed, and
the order in which the registry lists the connections of a room.

* `Disturbed` is what goes on beside the shared acts, also in the middle of a delivery.
* `Course` is a course of shared acts with disturbances; `exists_course` says that there always is one.
* `Alike` is what two services have in common that `c` and the hub can tell nothing apart by.
* `unaffected_by_others` is the result: after every act the two courses are alike.
-/

namespace Parley.Isolation

open Hub Relation

/-! ### Disturbances -/

section Disturbances

variable (h : Nat) (c : ConnId)

/-- Something beside the shared acts. -/
inductive Disturbs (s : Service) : Service → Prop
  /-- Another connection comes to be in any state. -/
  | other (d : ConnId) (hd : d ≠ c) (x : Connection) (hroom : x.room = (s.connection d).room)
      (huser : x.user = (s.connection d).user) : Disturbs s (s.updateConnection d fun _ => x)
  /-- The registry lists the connections of its rooms in another order. -/
  | relist (r : Registry) (hr : ∀ room, ((s.registry h).members room).Perm (r.members room)) :
      Disturbs s (s.setRegistry h r)
  | pass (t : Instant) : Disturbs s { s with now := t }

abbrev Disturbed : Service → Service → Prop := ReflTransGen (Disturbs h c)

variable {h c} {s : Service} {d : ConnId}

theorem updateConnection_const (s : Service) (d : ConnId) (f : Connection → Connection) :
    (s.updateConnection d fun _ => f (s.connection d)) = s.updateConnection d f := by
  unfold Service.updateConnection Service.connection
  congr 1
  refine Array.ext (by simp) fun i hi hi' => ?_
  rw [Array.getElem_modify, Array.getElem_modify]
  split
  · rename_i hdi
    subst hdi
    have hd : d < s.connections.size := by simpa using hi
    simp [hd]
  · rfl

theorem send_eq (s : Service) (d : ConnId) (frame : String) :
    (s.send d frame).2 = s.updateConnection d fun x => (x.send frame).2 :=
  updateConnection_const s d fun x => (x.send frame).2

/-- A change of another connection that leaves it with its room and its person is a disturbance. -/
theorem disturbs_update (hd : d ≠ c) (f : Connection → Connection)
    (hf : ∀ x, (f x).room = x.room ∧ (f x).user = x.user) :
    Disturbs h c s (s.updateConnection d f) := by
  rw [← updateConnection_const]
  exact .other d hd _ (hf _).1 (hf _).2

theorem disturbs_step (hd : d ≠ c) {x : Connection} {now : Instant} {stopFirst : Bool}
    (hx : (s.connection d).step now stopFirst = some x) : Disturbs h c s (s.updateConnection d fun _ => x) :=
  .other d hd x (Connection.step_kept hx).room (Connection.step_kept hx).user

theorem disturbs_send (hd : d ≠ c) (frame : String) : Disturbs h c s (s.send d frame).2 := by
  rw [send_eq]
  exact disturbs_update hd _ fun x => ⟨x.room_send frame, x.user_send frame⟩

theorem disturbs_close (hd : d ≠ c) : Disturbs h c s (s.close d) :=
  disturbs_update hd _ fun x => ⟨x.room_close, x.user_close⟩

end Disturbances

/-! ### The shared acts -/

/-- What two courses share. -/
inductive Act where
  /-- Somebody connects. -/
  | connect (room user : String) (sink : Sink)
  /-- A connection is entered into its room. -/
  | register (d : ConnId)
  /-- A connection leaves its room. -/
  | deregister (d : ConnId)
  /-- An event is sent to a room; one that cannot be written has no frame. -/
  | broadcast (room : String) (frame : Option String)
  | broadcastRaw (room : String) (payload : Bytes)
  /-- The writer of the connection `c` takes a step, if it can. -/
  | write (now : Instant) (stopFirst : Bool)
  /-- The connection `c` is closed. -/
  | close

section Courses

variable (h : Nat) (c : ConnId)

/-- A delivery, with disturbances before each of its steps. -/
inductive Delivers : Fanout → Service → Service → Prop
  | ended (n : Nat) (s : Service) : Delivers (.done n) s s
  | step {f : Fanout} {s s' t : Service} (hd : Disturbed h c s s') (rest : Delivers (f.step s').1 (f.step s').2 t) :
      Delivers f s t

inductive Does : Act → Service → Service → Prop
  | connect (room user : String) (sink : Sink) (s : Service) :
      Does (.connect room user sink) s (s.connect room user sink).2
  | register (d : ConnId) (s : Service) : Does (.register d) s (s.register h d)
  | deregister (d : ConnId) (s : Service) : Does (.deregister d) s (s.deregister h d)
  | broadcast {room : String} {frame : Option String} {s t : Service} (hd : Delivers h c (.listing h room frame) s t) :
      Does (.broadcast room frame) s t
  | broadcastRaw {room : String} {payload : Bytes} {s t : Service}
      (hd : Delivers h c (.listing h room (Text.Utf8.decode? payload)) s t) : Does (.broadcastRaw room payload) s t
  | write (now : Instant) (stopFirst : Bool) (s : Service) :
      Does (.write now stopFirst) s (s.updateConnection c fun x => (x.step now stopFirst).getD x)
  | close (s : Service) : Does .close s (s.close c)

/-- A course of a hub: the acts in their order, with disturbances before each. The last list is of the
services after the acts. -/
inductive Course : Service → List Act → List Service → Prop
  | nil (s : Service) : Course s [] []
  | cons {s s' t : Service} {a : Act} {as : List Act} {ss : List Service} (hd : Disturbed h c s s')
      (ha : Does h c a s' t) (rest : Course t as ss) : Course s (a :: as) (t :: ss)

variable {h c}

theorem delivers_handAll (frame : String) (rest : List ConnId) (sent : Nat) (s : Service) :
    Delivers h c (.handing frame rest sent) s (Fanout.handAll s frame rest sent).2 := by
  induction rest generalizing s sent with
  | nil => exact .step .refl (.ended sent s)
  | cons d rest ih =>
    refine .step .refl ?_
    rcases hs : s.send d frame with ⟨_ | _, t⟩ <;> simp only [Fanout.step, Fanout.handAll, hs] <;> exact ih _ _

/-- A delivery that nothing disturbs is a broadcast. -/
theorem delivers_broadcast (room : String) (frame : Option String) (s : Service) :
    Delivers h c (.listing h room frame) s (s.broadcast h room frame).2 := by
  refine .step .refl ?_
  cases frame with
  | none => exact .ended 0 s
  | some text => exact delivers_handAll text _ 0 s

/-- Every act can be done at any moment, and so can every sequence of them. -/
theorem exists_course (s : Service) (as : List Act) : ∃ ss, Course h c s as ss := by
  induction as generalizing s with
  | nil => exact ⟨[], .nil s⟩
  | cons a as ih =>
    have hdoes : ∃ t, Does h c a s t := by
      cases a with
      | connect room user sink => exact ⟨_, .connect room user sink s⟩
      | register d => exact ⟨_, .register d s⟩
      | deregister d => exact ⟨_, .deregister d s⟩
      | broadcast room frame => exact ⟨_, .broadcast (delivers_broadcast room frame s)⟩
      | broadcastRaw room payload => exact ⟨_, .broadcastRaw (delivers_broadcast room _ s)⟩
      | write now stopFirst => exact ⟨_, .write now stopFirst s⟩
      | close => exact ⟨_, .close s⟩
    obtain ⟨t, ht⟩ := hdoes
    obtain ⟨ss, hss⟩ := ih t
    exact ⟨t :: ss, .cons .refl ht hss⟩

end Courses

/-! ### Services that look alike -/

/-- Two services have one hub and one connection of it in common, but for the order of the registry. -/
structure Alike (h : Nat) (c : ConnId) (s t : Service) : Prop where
  connection : s.connection c = t.connection c
  room : ∀ d, (s.connection d).room = (t.connection d).room
  user : ∀ d, (s.connection d).user = (t.connection d).user
  size : s.connections.size = t.connections.size
  clock : s.clock = t.clock
  hubs : s.hubs.size = t.hubs.size
  members : ∀ room, ((s.registry h).members room).Perm ((t.registry h).members room)

variable {h : Nat} {c d : ConnId} {s t s' t' u : Service}

namespace Alike

theorem refl (s : Service) : Alike h c s s := ⟨rfl, fun _ => rfl, fun _ => rfl, rfl, rfl, rfl, fun _ => .refl _⟩

theorem symm (a : Alike h c s t) : Alike h c t s :=
  ⟨a.connection.symm, fun d => (a.room d).symm, fun d => (a.user d).symm, a.size.symm, a.clock.symm, a.hubs.symm,
    fun room => (a.members room).symm⟩

theorem trans (a : Alike h c s t) (b : Alike h c t u) : Alike h c s u :=
  ⟨a.connection.trans b.connection, fun d => (a.room d).trans (b.room d), fun d => (a.user d).trans (b.user d),
    a.size.trans b.size, a.clock.trans b.clock, a.hubs.trans b.hubs,
      fun room => (a.members room).trans (b.members room)⟩

theorem snapshot (a : Alike h c s t) (room : String) :
    ((s.registry h).snapshot room).Perm ((t.registry h).snapshot room) :=
  (a.members room).map Member.id

theorem updateConnection (a : Alike h c s t) {f : Connection → Connection}
    (hf : ∀ x, (f x).room = x.room ∧ (f x).user = x.user) :
    Alike h c (s.updateConnection c f) (t.updateConnection c f) := by
  have hroom (u : Service) (d : ConnId) : ((u.updateConnection c f).connection d).room = (u.connection d).room :=
    u.field_updateConnection c d f Connection.room (hf _).1
  have huser (u : Service) (d : ConnId) : ((u.updateConnection c f).connection d).user = (u.connection d).user :=
    u.field_updateConnection c d f Connection.user (hf _).2
  refine ⟨?_, fun d => by rw [hroom, hroom, a.room], fun d => by rw [huser, huser, a.user], by simpa using a.size,
    a.clock, a.hubs, a.members⟩
  by_cases hc : c < s.connections.size
  · rw [s.connection_updateConnection f hc, t.connection_updateConnection f (a.size ▸ hc), a.connection]
  · rw [s.updateConnection_of_size_le f (Nat.le_of_not_lt hc),
      t.updateConnection_of_size_le f (a.size ▸ Nat.le_of_not_lt hc), a.connection]

theorem send (a : Alike h c s t) (frame : String) : Alike h c (s.send c frame).2 (t.send c frame).2 := by
  rw [send_eq, send_eq]
  exact a.updateConnection fun x => ⟨x.room_send frame, x.user_send frame⟩

theorem setRegistry (a : Alike h c s t) {r r' : Registry} (hr : ∀ room, (r.members room).Perm (r'.members room)) :
    Alike h c (s.setRegistry h r) (t.setRegistry h r') := by
  refine ⟨a.connection, a.room, a.user, a.size, a.clock, by simpa using a.hubs, fun room => ?_⟩
  by_cases hh : h < s.hubs.size
  · rw [s.registry_setRegistry r hh, t.registry_setRegistry r' (a.hubs ▸ hh)]
    exact hr room
  · rw [Service.registry_of_size_le _ (by simpa using Nat.le_of_not_lt hh),
      Service.registry_of_size_le _ (by simpa using a.hubs ▸ Nat.le_of_not_lt hh)]

theorem setMembers {r r' : Registry} (hr : ∀ room, (r.members room).Perm (r'.members room)) (other : String)
    {ms ms' : List Member} (hms : ms.Perm ms') (room : String) :
    ((r.setMembers other ms).members room).Perm ((r'.setMembers other ms').members room) := by
  by_cases hroom : room = other
  · subst hroom
    simpa using hms
  · rw [Registry.members_setMembers_of_ne r ms hroom, Registry.members_setMembers_of_ne r' ms' hroom]
    exact hr room

theorem register (a : Alike h c s t) (d : ConnId) : Alike h c (s.register h d) (t.register h d) := by
  simp only [Service.register, Registry.add, a.room d, a.user d]
  exact a.setRegistry (setMembers a.members _ (((a.members _).filter _).append (.refl _)))

theorem deregister (a : Alike h c s t) (d : ConnId) : Alike h c (s.deregister h d) (t.deregister h d) := by
  unfold Service.deregister Service.removeFrom Registry.remove
  rw [a.room d]
  exact a.setRegistry (setMembers a.members _ ((a.members _).filter _))

theorem connect (a : Alike h c s t) (room user : String) (sink : Sink) :
    Alike h c (s.connect room user sink).2 (t.connect room user sink).2 := by
  have hlast (u : Service) : (u.connect room user sink).2.connection u.connections.size =
      { label := (u.clock.draw .connection).1, room, user, sink } := by
    simp [Service.connect, Service.connection]
  have hnew (d : ConnId) (hd : d = s.connections.size) :
      (s.connect room user sink).2.connection d = (t.connect room user sink).2.connection d := by
    rw [hd, hlast s, a.size, hlast t, a.clock]
  have hold (d : ConnId) (hd : d ≠ s.connections.size) :
      (s.connect room user sink).2.connection d = s.connection d ∧
      (t.connect room user sink).2.connection d = t.connection d :=
    ⟨s.connection_connect_of_ne room user sink hd, t.connection_connect_of_ne room user sink (a.size ▸ hd)⟩
  refine ⟨?_, fun d => ?_,
    fun d => ?_, by simp [Service.connect, a.size], by simp [Service.connect, a.clock], a.hubs, a.members⟩
  · by_cases hc : c = s.connections.size
    · exact hnew c hc
    · rw [(hold c hc).1, (hold c hc).2, a.connection]
  · by_cases hd : d = s.connections.size
    · rw [hnew d hd]
    · rw [(hold d hd).1, (hold d hd).2, a.room]
  · by_cases hd : d = s.connections.size
    · rw [hnew d hd]
    · rw [(hold d hd).1, (hold d hd).2, a.user]

end Alike

theorem Disturbs.alike (hd : Disturbs h c s t) : Alike h c s t := by
  cases hd with
  | other d hd x hroom huser =>
    have hfield {α : Type} (field : Connection → α) (hx : field x = field (s.connection d)) (e : ConnId) :
        field (s.connection e) = field ((s.updateConnection d fun _ => x).connection e) :=
      (s.field_updateConnection d e (fun _ => x) field hx).symm
    exact ⟨(s.connection_updateConnection_of_ne _ hd.symm).symm, hfield _ hroom,
      hfield _ huser, by simp, rfl, rfl, fun _ => .refl _⟩
  | relist r hr =>
    refine ⟨rfl, fun _ => rfl, fun _ => rfl, rfl, rfl, by simp, fun room => ?_⟩
    by_cases hh : h < s.hubs.size
    · rw [s.registry_setRegistry r hh]
      exact hr room
    · rw [Service.registry_of_size_le _ (Nat.le_of_not_lt hh),
        Service.registry_of_size_le _ (by simpa using Nat.le_of_not_lt hh)]
  | pass t => exact ⟨rfl, fun _ => rfl, fun _ => rfl, rfl, rfl, rfl, fun _ => .refl _⟩

theorem Disturbed.alike (hd : Disturbed h c s t) : Alike h c s t := by
  induction hd with
  | refl => exact .refl s
  | tail _ hd ih => exact ih.trans hd.alike

/-! ### What a delivery comes to for the connection -/

def Listed (h : Nat) (s : Service) : Prop := ∀ room, ((s.registry h).snapshot room).Nodup

theorem Alike.listed (a : Alike h c s t) (hs : Listed h s) : Listed h t :=
  fun room => (a.snapshot room).nodup_iff.mp (hs room)

/-- A delivery on the hub that hands its frame to no connection twice. -/
def Fits (h : Nat) : Fanout → Prop
  | .listing hub _ _ => hub = h
  | .handing _ rest _ => rest.Nodup
  | .done _ => True

/-- A service after a frame has been handed to connections, as far as `c` can tell. -/
def handed (c : ConnId) (s : Service) (frame : String) (ids : List ConnId) : Service :=
  if c ∈ ids then (s.send c frame).2 else s

/-- A service after a delivery, as far as `c` can tell. -/
def delivered (c : ConnId) (s : Service) : Fanout → Service
  | .listing _ _ none => s
  | .listing hub room (some text) => handed c s text ((s.registry hub).snapshot room)
  | .handing frame rest _ => handed c s frame rest
  | .done _ => s

theorem Alike.handed (a : Alike h c s t) (frame : String) {ids ids' : List ConnId} (hids : c ∈ ids ↔ c ∈ ids') :
    Alike h c (handed c s frame ids) (handed c t frame ids') := by
  unfold Isolation.handed
  by_cases hc : c ∈ ids
  · rw [if_pos hc, if_pos (hids.mp hc)]
    exact a.send frame
  · rw [if_neg hc, if_neg (mt hids.mpr hc)]
    exact a

theorem Alike.delivered (a : Alike h c s t) {f : Fanout} (hf : Fits h f) :
    Alike h c (delivered c s f) (delivered c t f) := by
  match f, hf with
  | .listing _ _ none, _ => exact a
  | .listing _ room (some text), rfl => exact a.handed text (a.snapshot room).mem_iff
  | .handing frame _ _, _ => exact a.handed frame .rfl
  | .done _, _ => exact a

/-- A step of a delivery on the way changes nothing that it comes to for `c`: the frame meets each connection
once, and where it is another one, that is a disturbance. -/
theorem delivered_step {f : Fanout} (hs : Listed h s) (hf : Fits h f) :
    Listed h (f.step s).2 ∧ Fits h (f.step s).1 ∧
      Alike h c (delivered c s f) (delivered c (f.step s).2 (f.step s).1) := by
  match f, hf with
  | .listing _ _ none, _ => exact ⟨hs, trivial, .refl _⟩
  | .listing _ room (some _), rfl => exact ⟨hs, hs room, .refl _⟩
  | .handing _ [] _, _ => exact ⟨hs, trivial, .refl _⟩
  | .handing frame (d :: rest) sent, hf =>
    obtain ⟨sent', he⟩ := Fanout.step_handing s frame d rest sent
    obtain ⟨hd, hrest⟩ := List.nodup_cons.mp hf
    rw [he]
    refine ⟨hs, hrest, ?_⟩
    show Alike h c (handed c s frame (d :: rest)) (handed c (s.send d frame).2 frame rest)
    by_cases hc : d = c
    · subst hc
      rw [handed, handed, if_pos List.mem_cons_self, if_neg hd]
      exact .refl _
    · exact (disturbs_send hc frame).alike.handed frame (by simp [Ne.symm hc])
  | .done _, _ => exact ⟨hs, trivial, .refl _⟩

theorem listed_handed (hs : Listed h s) (frame : String) (ids : List ConnId) : Listed h (handed c s frame ids) := by
  unfold handed
  split <;> exact hs

theorem listed_delivered (hs : Listed h s) : (f : Fanout) → Listed h (delivered c s f)
  | .listing _ _ none => hs
  | .listing _ _ (some text) => listed_handed hs text _
  | .handing frame rest _ => listed_handed hs frame rest
  | .done _ => hs

/-- A delivery comes to the same for `c` whatever disturbs it. -/
theorem Delivers.alike {f : Fanout} (hd : Delivers h c f s t) :
    Listed h s → Fits h f → Alike h c (delivered c s f) t := by
  induction hd with
  | ended n s => exact fun _ _ => .refl s
  | step hd _ ih =>
    intro hs hf
    have a := Disturbed.alike hd
    obtain ⟨hs', hf', b⟩ := delivered_step (a.listed hs) hf
    exact ((a.delivered hf).trans b).trans (ih hs' hf')

/-! ### Acts and courses -/

theorem listed_setRegistry {r : Registry} (hr : ∀ room, (r.snapshot room).Nodup) : Listed h (s.setRegistry h r) := by
  intro room
  by_cases hh : h < s.hubs.size
  · rw [s.registry_setRegistry r hh]
    exact hr room
  · rw [Service.registry_of_size_le _ (by simpa using Nat.le_of_not_lt hh)]
    exact List.nodup_nil

theorem Does.listed {a : Act} (hd : Does h c a s t) (hs : Listed h s) : Listed h t := by
  cases hd with
  | connect | write | close => exact hs
  | register d => exact listed_setRegistry fun room => Service.nodup_snapshot_add room _ hs _
  | deregister d => exact listed_setRegistry fun room => Service.nodup_snapshot_remove d room hs _
  | broadcast hd => exact (hd.alike hs rfl).listed (listed_delivered hs _)
  | broadcastRaw hd => exact (hd.alike hs rfl).listed (listed_delivered hs _)

/-- Alike services stay so when the same is done in both. -/
theorem Does.alike {a : Act} (hd : Does h c a s s') (hd' : Does h c a t t') (hs : Listed h s) (b : Alike h c s t) :
    Alike h c s' t' := by
  cases hd with
  | connect => cases hd'; exact b.connect _ _ _
  | register => cases hd'; exact b.register _
  | deregister => cases hd'; exact b.deregister _
  | broadcast hd =>
    cases hd' with
    | broadcast hd' => exact ((hd.alike hs rfl).symm.trans (b.delivered rfl)).trans (hd'.alike (b.listed hs) rfl)
  | broadcastRaw hd =>
    cases hd' with
    | broadcastRaw hd' => exact ((hd.alike hs rfl).symm.trans (b.delivered rfl)).trans (hd'.alike (b.listed hs) rfl)
  | write now stopFirst =>
    cases hd'
    refine b.updateConnection fun x => ?_
    cases hx : x.step now stopFirst with
    | none => exact ⟨rfl, rfl⟩
    | some y => exact ⟨(Connection.step_kept hx).room, (Connection.step_kept hx).user⟩
  | close => cases hd'; exact b.updateConnection fun x => ⟨x.room_close, x.user_close⟩

/-- Two courses of the same acts from alike services are alike after every act. -/
theorem Course.alike {as : List Act} {ss ts : List Service} (hs : Course h c s as ss) (ht : Course h c t as ts)
    (listed : Listed h s) (b : Alike h c s t) : List.Forall₂ (Alike h c) ss ts := by
  induction hs generalizing t ts with
  | nil => cases ht; exact .nil
  | cons hd ha _ ih =>
    cases ht with
    | cons hd' ha' rest' =>
      have listed' := (Disturbed.alike hd).listed listed
      have b' := ((Disturbed.alike hd).symm.trans b).trans (Disturbed.alike hd')
      have b'' := ha.alike ha' listed' b'
      exact .cons b'' (ih rest' (ha.listed listed') b'')

/-- **A connection does not notice the others.** Two courses of a hub begin with services that are alike for `c`,
and share who connects, registers and leaves, what is broadcast, and what becomes of `c` itself. Whatever else
goes on in either of them, before the acts and between the steps of the deliveries, after every act `c` has
accepted the same frames in the same order, and is in the same state altogether; and the same members are
registered in every room. -/
theorem unaffected_by_others (h : Nat) (c : ConnId) {s t : Service} (alike : Alike h c s t)
    (listed : ∀ room, ((s.registry h).snapshot room).Nodup) {as : List Act} {ss ts : List Service}
    (hs : Course h c s as ss) (ht : Course h c t as ts) :
    List.Forall₂ (fun s' t' => (s'.connection c).accepted = (t'.connection c).accepted ∧
      s'.connection c = t'.connection c ∧
      ∀ room, ((s'.registry h).members room).Perm ((t'.registry h).members room)) ss ts :=
  (hs.alike ht listed alike).imp fun _ _ a => ⟨congrArg Connection.accepted a.connection, a.connection, a.members⟩

/-- In one course all is well; in the other the second member is closed and its frame is lost. -/
theorem unaffected_by_others_closedMember :
    let healthy := (Service.twoMembers.broadcast 0 "r" (some "x")).2
    let broken := ((Service.twoMembers.close 1).broadcast 0 "r" (some "x")).2
    ((healthy.connection 1).accepted = ["x"] ∧ (broken.connection 1).accepted = []) ∧
      List.Forall₂ (fun s' t' => (s'.connection 0).accepted = (t'.connection 0).accepted ∧
        s'.connection 0 = t'.connection 0 ∧
        ∀ room, ((s'.registry 0).members room).Perm ((t'.registry 0).members room)) [healthy] [broken] := by
  refine ⟨by decide +kernel, ?_⟩
  exact unaffected_by_others 0 0 (.refl Service.twoMembers) (Service.nodup_twoMembers 0)
    (.cons .refl (.broadcast (delivers_broadcast "r" (some "x") _)) (.nil _))
    (.cons (.single (disturbs_close (by decide))) (.broadcast (delivers_broadcast "r" (some "x") _)) (.nil _))

end Parley.Isolation
