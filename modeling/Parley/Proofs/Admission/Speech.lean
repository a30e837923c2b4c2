import Parley.Proofs.Channel
import Parley.Proofs.Sessions.Step

/-!
Where what is heard comes from. If every event under way has a text of some kind, then so has, after any
step, every message that is handed to the broker or lies in a feed, and every frame that a connection
accepts: hubs pass texts on and never make one up.
-/

namespace Parley

open Hub Deployment

variable (P : String → Prop)

/-! ### Texts under way -/

def Only (text? : Option String) : Prop := ∀ text, text? = some text → P text

namespace Hub

/-- The text that a delivery is about, while it is under way. -/
def Fanout.text? : Fanout → Option String
  | .listing _ _ frame => frame
  | .handing frame _ _ => some frame
  | .done _ => none

def Activity.text? : Activity → Option String
  | .recording post _ _ | .attempting post _ | .pausing post _ _ => post.event.toOption
  | .delivering f _ => f.text?
  | .finished _ => none

def Stage.text? : Stage → Option String
  | .joining a | .handling a | .leaving a => a.text?
  | _ => none

def Listening.text? : Listening → Option String
  | .relaying _ f => f.text?
  | _ => none

end Hub

def Task.text? : Task → Option String
  | .activity a => a.text?
  | .session x => x.stage.text?
  | .subscriber x => x.state.text?
  | _ => none

/-! ### Texts that were published and heard -/

def Broker.Message.Says (m : Broker.Message) : Prop := ∃ text, m.payload = Text.Utf8.encode text ∧ P text

def MemoryBroker.Says (b : MemoryBroker) : Prop := ∀ f, ∀ m ∈ b.feed f, m.Says P

/-- Every message that was handed to the line, and every message of the feeds. -/
structure Broker.Line.Says (l : Broker.Line) : Prop where
  journal : ∀ e ∈ l.journal, ∀ m, e.call = .publish m → m.Says P
  broker : l.broker.Says P

/-- Everything on the line, and every frame that a connection has accepted. -/
structure Service.Says (s : Service) : Prop where
  line : ∀ l, s.line = some l → l.Says P
  accepted : ∀ c, ∀ text ∈ (s.connection c).accepted, P text

structure Deployment.Says (y : Deployment) : Prop where
  service : y.service.Says P
  tasks : ∀ n, Only P (y.task n).text?

variable {P}

theorem Only.none : Only P none := nofun

theorem Deployment.Says.mono {Q : String → Prop} (h : ∀ text, P text → Q text) {y : Deployment} (hy : y.Says P) :
    y.Says Q := by
  have hm : ∀ m : Broker.Message, m.Says P → m.Says Q := by
    rintro m ⟨text, hp, ht⟩
    exact ⟨text, hp, h text ht⟩
  refine ⟨⟨fun l hl => ?_, fun c text ht => h text (hy.service.accepted c text ht)⟩, fun n text ht =>
    h text (hy.tasks n text ht)⟩
  have hs := hy.service.line l hl
  exact ⟨fun e he m hc => hm m (hs.journal e he m hc), fun f m hmf => hm m (hs.broker f m hmf)⟩

/-! ### The line -/

namespace MemoryBroker.Says

variable {b b' : MemoryBroker}

theorem of_feeds (hb : b.Says P) (h : b'.feeds = b.feeds) : b'.Says P := by
  intro f m hm
  rw [feed, h] at hm
  exact hb f m hm

theorem publish {m : Broker.Message} (hb : b.Says P) (hm : m.Says P) : (b.publish m).2.Says P := by
  cases ho : (b.publish m).1 with
  | error e => exact hb.of_feeds (publish_error ho).feeds
  | ok u =>
    intro f x hx
    rw [feed, (publish_ok ho).1, Array.getD_eq_getD_getElem?, Array.getElem?_modify] at hx
    split at hx
    · cases hf : b.feeds[f]? with
      | none => rw [hf] at hx; simp at hx
      | some ms =>
        rw [hf] at hx
        rcases Array.mem_push.1 hx with hx | rfl
        · exact hb f x (by rw [feed, Array.getD_eq_getD_getElem?, hf]; exact hx)
        · exact hm
    · exact hb f x (by rw [feed, Array.getD_eq_getD_getElem?]; exact hx)

theorem disconnect (hb : b.Says P) : b.disconnect.Says P := by
  intro f x hx
  rw [feed, MemoryBroker.disconnect, Array.getD_eq_getD_getElem?, Array.getElem?_push] at hx
  split at hx
  · simp at hx
  · exact hb f x (by rw [feed, Array.getD_eq_getD_getElem?]; exact hx)

theorem receive {n : Nat} {m : Broker.Message} (hb : b.Says P) (h : b.receive n = (.message m, b')) :
    m.Says P ∧ b'.Says P := by
  obtain ⟨s, place, -, -, hm, rfl⟩ := receive_message h
  exact ⟨hb s.feed m (Array.mem_of_getElem? hm), hb.of_feeds rfl⟩

end MemoryBroker.Says

namespace Broker.Line.Says

variable {l : Broker.Line}

theorem onBroker (hl : l.Says P) {b : MemoryBroker} (hb : b.Says P) : ({ l with broker := b } : Broker.Line).Says P :=
  ⟨hl.journal, hb⟩

/-- A call is entered in the journal, and goes to the broker or not. -/
theorem call {α : Type} (hl : l.Says P) (now : Instant) (c : Broker.Call)
    (run : MemoryBroker → Except Broker.Error α × MemoryBroker)
    (hc : ∀ m, c = .publish m → m.Says P) (hr : (run l.broker).2.Says P) : (l.call now c run).2.Says P := by
  refine ⟨?_, ?_⟩
  · intro e he m hm
    rw [l.journal_call now c run] at he
    rcases List.mem_append.1 he with he | he
    · exact hl.journal e he m hm
    · rw [List.mem_singleton.1 he] at hm
      exact hc m hm
  · rcases l.call_cases now c run with ⟨_, _, hb⟩ | ⟨_, hb⟩
    · rw [hb]
      exact hl.broker
    · rw [hb]
      exact hr

theorem publish (hl : l.Says P) (now : Instant) {m : Broker.Message} (hm : m.Says P) : (l.publish now m).2.Says P :=
  hl.call now _ _ (fun m' h => by cases h; exact hm) (hl.broker.publish hm)

theorem setEx (hl : l.Says P) (now : Instant) (key value : String) (ttl : Duration) :
    (l.setEx now key value ttl).2.Says P :=
  hl.call now _ _ (fun _ h => by cases h)
    (hl.broker.of_feeds (MemoryBroker.setEx_traffic now key value ttl.nanos).feeds)

theorem subscribe (hl : l.Says P) (now : Instant) (patterns : List String) : (l.subscribe now patterns).2.Says P := by
  refine hl.call now _ _ (fun _ h => by cases h) (hl.broker.of_feeds ?_)
  cases ho : (l.broker.subscribe patterns).1 with
  | error e => rw [MemoryBroker.subscribe_error ho]
  | ok n =>
    obtain ⟨-, -, -, hf, -⟩ := MemoryBroker.subscribe_ok ho
    exact hf

end Broker.Line.Says

/-! ### Steps -/

namespace Service.Says

variable {s : Service}

theorem onLine (hs : s.Says P) {l : Broker.Line} (hl : l.Says P) : ({ s with line := some l } : Service).Says P := by
  refine ⟨fun l' h => ?_, hs.accepted⟩
  cases h
  exact hl

theorem congr {t : Service} (hs : s.Says P) (hl : t.line = s.line) (hc : t.connections = s.connections) : t.Says P := by
  refine ⟨fun l h => hs.line l (hl ▸ h), fun c text ht => hs.accepted c text ?_⟩
  rwa [Service.connection, hc] at ht

theorem updateConnection (hs : s.Says P) (c : ConnId) (f : Connection → Connection)
    (hf : (f (s.connection c)).accepted = (s.connection c).accepted) : (s.updateConnection c f).Says P := by
  refine ⟨hs.line, fun d text ht => ?_⟩
  rw [s.field_updateConnection c d f Connection.accepted hf] at ht
  exact hs.accepted d text ht

theorem send (hs : s.Says P) (c : ConnId) {frame : String} (hf : P frame) : (s.send c frame).2.Says P := by
  rcases (s.connection c).send_cases frame with h | h
  · exact hs.updateConnection c _ (congrArg Connection.accepted h)
  · refine ⟨hs.line, fun d text ht => ?_⟩
    by_cases hd : d = c
    · subst hd
      by_cases hsize : d < s.connections.size
      · rw [connection_send s frame hsize, h] at ht
        rcases List.mem_append.1 ht with ht | ht
        · exact hs.accepted d text ht
        · rw [List.mem_singleton.1 ht]
          exact hf
      · have hsame : (s.send d frame).2 = s := updateConnection_of_size_le s _ (Nat.le_of_not_lt hsize)
        rw [hsame] at ht
        exact hs.accepted d text ht
    · rw [connection_send_of_ne s frame hd] at ht
      exact hs.accepted d text ht

end Service.Says

namespace Hub

variable {s t : Service}

theorem Fanout.Step.speech {f f' : Fanout} (h : Fanout.Step s f f' t) (hs : s.Says P) (hf : Only P f.text?) :
    Only P f'.text? ∧ t.Says P := by
  cases h with
  | blank hub room => exact ⟨.none, hs⟩
  | list hub room text => exact ⟨hf, hs⟩
  | hand frame c rest sent ht => exact ⟨hf, hs.send c (hf frame rfl)⟩
  | skip frame c rest sent ht => exact ⟨hf, hs⟩
  | finish frame sent => exact ⟨.none, hs⟩

theorem Activity.Step.speech {a a' : Activity} (h : Activity.Step s a a' t) (hs : s.Says P) (ha : Only P a.text?) :
    Only P a'.text? ∧ t.Says P := by
  have published : ∀ {l : Broker.Line} {post : Post} {text : String}, s.line = some l → Only P post.event.toOption →
      post.event = .ok text → Service.Says P { s with line := some (l.publish s.now (post.message text)).2 } := by
    intro l post text hl hp he
    rw [he] at hp
    exact hs.onLine ((hs.line _ hl).publish _ ⟨text, rfl, hp text rfl⟩)
  cases h with
  | record l hl post user status => exact ⟨ha, hs.onLine ((hs.line l hl).setEx _ _ _ _)⟩
  | unrecorded hl post user status => exact ⟨ha, hs⟩
  | direct hl post n => exact ⟨ha, hs⟩
  | unwritable l hl post n reason he => exact ⟨.none, hs⟩
  | accepted l hl post n text he hp => exact ⟨.none, published hl ha he⟩
  | exhausted l hl post n text he e hp => exact ⟨ha, published hl ha he⟩
  | again l hl post n text he e hp next t => exact ⟨ha, published hl ha he⟩
  | unending l hl post n text he e hp => exact ⟨.none, published hl ha he⟩
  | resume post n t => exact ⟨ha, hs⟩
  | deliver f f' t r hf => exact hf.speech hs ha
  | delivered k r => exact ⟨.none, hs⟩

theorem Subscriber.says_relay (hub : Nat) {m : Broker.Message} (hm : m.Says P) : Only P (relay hub m).text? := by
  obtain ⟨text, hp, ht⟩ := hm
  unfold relay
  split
  · intro text' h
    rw [Fanout.text?, hp, Text.Utf8.decode?_encode] at h
    cases h
    exact ht
  · exact .none

theorem Subscriber.Step.speech {x x' : Subscriber} (h : Subscriber.Step s x x' t) (hs : s.Says P)
    (hx : Only P x.state.text?) :
    Only P x'.state.text? ∧ t.Says P := by
  cases h with
  | subscribed l hl _ n _ => exact ⟨.none, hs.onLine ((hs.line l hl).subscribe _ _)⟩
  | refused l hl _ e _ delay t => exact ⟨.none, hs.onLine ((hs.line l hl).subscribe _ _)⟩
  | message l hl n received _ m b hr =>
    obtain ⟨hm, hb⟩ := (hs.line l hl).broker.receive hr
    exact ⟨says_relay x.hub hm, hs.onLine ((hs.line l hl).onBroker hb)⟩
  | ended l hl n received _ b hr delay t =>
    exact ⟨.none, hs.onLine
      ((hs.line l hl).onBroker ((hs.line l hl).broker.of_feeds (MemoryBroker.receive_ended hr).1))⟩
  | relay n f f' hf t hstep =>
    rw [hf] at hx
    exact hstep.speech hs hx
  | relayed n k _ => exact ⟨.none, hs⟩
  | retry t _ => exact ⟨.none, hs⟩
  | quit _ l hl n received _ => exact ⟨.none, hs.onLine ((hs.line l hl).onBroker ((hs.line l hl).broker.of_feeds rfl))⟩
  | stop _ => exact ⟨.none, hs⟩

end Hub

/-! ### Sessions -/

/-- An event about what a person does in a room. -/
def Envelope.IsPersonal (e : Envelope) : Prop := e.type = .typing ∨ e.type = .read ∨ e.type = .presence

namespace Hub

/-- Everything that is said of the person of a session in its room is of the kind. -/
def Session.Entitled (P : String → Prop) (x : Session) : Prop :=
  ∀ e : Envelope, e.IsPersonal → e.room = x.room → e.user = x.user → P e.text

variable {s t : Service} {x x' : Session}

theorem says_announce (hx : x.Entitled P) (s : Service) (hub : Nat) (status : Option String) :
    Only P (Activity.announce s hub x.room x.user status).1.text? := by
  intro text h
  cases h
  exact hx _ (.inr (.inr rfl)) rfl rfl

theorem says_route (hx : x.Entitled P) (s : Service) (hub : Nat) (raw : Bytes) {a : Activity}
    (h : (route s hub x.room x.user raw).2.1 = some a) : Only P a.text? := by
  unfold route at h
  cases hp : ClientFrame.parse raw with
  | error e => rw [hp] at h; cases h
  | ok f =>
    rw [hp] at h
    cases f with
    | typing stopped =>
      cases h
      intro text h
      cases h
      cases stopped with
      | true => exact hx _ (.inl rfl) rfl rfl
      | false => exact hx _ (.inl rfl) rfl rfl
    | read id =>
      cases h
      intro text h
      cases h
      cases id with
      | none => exact hx _ (.inr (.inl rfl)) rfl rfl
      | some v => exact hx _ (.inr (.inl rfl)) rfl rfl
    | presence status =>
      cases h
      exact says_announce hx s hub _
    | unknown => cases h

theorem Stage.Busy.text? {g : Stage} {a : Activity} {here : Activity → Stage} {next : Stage} (h : g.Busy a here next) :
    g.text? = a.text? ∧ (∀ b, (here b).text? = b.text?) ∧ next.text? = none := by
  cases h <;> exact ⟨rfl, fun _ => rfl, rfl⟩

theorem Session.Step.speech (h : Session.Step s x x' t) (hs : s.Says P) (hx : Only P x.stage.text?)
    (he : x.Entitled P) :
    Only P x'.stage.text? ∧ t.Says P := by
  cases h with
  | register _ => exact ⟨says_announce he _ x.hub _, hs.congr rfl rfl⟩
  | work a a' here next hb t ha =>
    obtain ⟨hin, hout, -⟩ := hb.text?
    rw [hin] at hx
    rw [hout]
    exact ha.speech hs hx
  | rest r here next hb =>
    rw [hb.text?.2.2]
    exact ⟨.none, hs⟩
  | handle _ frame rest _ a ha =>
    refine ⟨says_route he s x.hub _ ha, ?_⟩
    rcases route_service s x.hub x.room x.user (Text.Utf8.encode frame) with h | h <;> rw [h]
    · exact hs
    · exact hs.congr rfl rfl
  | pass _ rest => exact ⟨hx, hs⟩
  | leave _ rest => exact ⟨.none, hs⟩
  | remove _ => exact ⟨.none, hs.congr rfl rfl⟩
  | close _ => exact ⟨.none, hs.updateConnection _ _ (Connection.accepted_close _)⟩
  | stay _ => exact ⟨.none, hs⟩
  | depart _ => exact ⟨says_announce he _ x.hub _, hs.congr rfl rfl⟩

end Hub

/-! ### Deployments -/

theorem Task.Step.speech {s t : Service} {k k' : Task} (h : Task.Step s k k' t) (hs : s.Says P) (hk : Only P k.text?)
    (he : ∀ x, k = .session x → x.Entitled P) : Only P k'.text? ∧ t.Says P := by
  cases h with
  | writer c conn now stopFirst h => exact ⟨.none, hs.updateConnection c _ (Connection.step_kept h).accepted⟩
  | closer c => exact ⟨.none, hs.updateConnection c _ (Connection.accepted_close _)⟩
  | activity a a' t h => exact h.speech hs hk
  | session x x' t choice h => exact (Session.step_spec h).speech hs hk (he x rfl)
  | subscriber x x' t h => exact h.speech hs hk

namespace Deployment.Says

variable {y : Deployment}

theorem setTask (hy : y.Says P) (n : TaskId) {k : Task} {t : Service} (hk : Only P k.text?) (ht : t.Says P) :
    ({ y.setTask n k with service := t } : Deployment).Says P := by
  refine ⟨ht, fun m => ?_⟩
  by_cases hm : m = n
  · subst hm
    by_cases hsize : m < y.tasks.size
    · rwa [show ({ y.setTask m k with service := t } : Deployment).task m = k from y.task_setTask k hsize]
    · rw [task_of_size_le _ (by simpa using Nat.le_of_not_lt hsize)]
      exact .none
  · rw [show ({ y.setTask n k with service := t } : Deployment).task m = y.task m from y.task_setTask_of_ne k hm]
    exact hy.tasks m

theorem spawn (hy : y.Says P) {k : Task} (hk : Only P k.text?) : (y.spawn k).2.Says P := by
  refine ⟨hy.service, fun m => ?_⟩
  rw [task_spawn]
  split
  · exact hk
  · exact hy.tasks m

theorem withService (hy : y.Says P) {t : Service} (ht : t.Says P) : ({ y with service := t } : Deployment).Says P :=
  ⟨ht, hy.tasks⟩

theorem onBroker (hy : y.Says P) {f : MemoryBroker → MemoryBroker} (hf : ∀ b, b.Says P → (f b).Says P) :
    ({ y with service := y.service.onBroker f } : Deployment).Says P := by
  refine hy.withService ⟨fun l hl => ?_, hy.service.accepted⟩
  obtain ⟨l', hl', rfl⟩ := Option.map_eq_some_iff.1 hl
  have h := hy.service.line l' hl'
  exact h.onBroker (hf _ h.broker)

theorem turn (hy : y.Says P) (he : ∀ n x, y.task n = .session x → x.Entitled P) (u : Turn) : (y.turn u).Says P := by
  cases u with
  | step n choice =>
    simp only [Deployment.turn]
    cases h : y.step n choice with
    | none => exact hy
    | some y' =>
      obtain ⟨-, k, s, hk, rfl⟩ := step_spec h
      obtain ⟨hk', hs⟩ := hk.speech hy.service (hy.tasks n) (he n)
      exact hy.setTask n hk' hs
  | pass t => exact hy.withService (hy.service.congr rfl rfl)
  | listen hub =>
    simp only [Deployment.turn, start]
    split
    · split
      · exact hy.spawn .none
      · exact hy
    · exact hy
  | outage down => exact hy.onBroker fun b hb => hb.of_feeds rfl
  | disconnect => exact hy.onBroker fun b hb => hb.disconnect

theorem openSession (hy : y.Says P) (hub : Nat) (room user : String) (sink : Sink) :
    (y.openSession hub room user sink).2.2.Says P := by
  have hs : (y.service.connect room user sink).2.Says P := by
    refine ⟨hy.service.line, fun c text ht => ?_⟩
    by_cases hc : c = y.service.connections.size
    · obtain ⟨-, -, ha, -⟩ := y.service.connection_connect room user sink
      rw [hc, ha] at ht
      cases ht
    · rw [Service.connection_connect_of_ne _ _ _ _ hc] at ht
      exact hy.service.accepted c text ht
  have hw := (hy.withService hs).spawn (k := .writer y.service.connections.size) .none
  exact hw.spawn (k := .session { hub, conn := y.service.connections.size, room, user }) .none

theorem feed (hy : y.Says P) (n : TaskId) (i : Item) : (y.feed n i).Says P := by
  unfold Deployment.feed
  split
  · rename_i x hx
    have h := hy.tasks n
    rw [hx] at h
    exact hy.setTask n h hy.service
  · exact hy

theorem abort (hy : y.Says P) (n : TaskId) : (y.abort n).Says P := by
  unfold Deployment.abort
  split
  · rename_i x hx
    have h := hy.tasks n
    rw [hx] at h
    have gone : ∀ {t : Service}, t.Says P →
        ({ y.setTask n (.session { x with stage := .dropped }) with service := t } : Deployment).Says P :=
      fun ht => hy.setTask n .none ht
    have removed : (y.service.deregister x.hub x.conn).Says P := hy.service.congr rfl rfl
    unfold Session.abort
    cases hg : x.stage with
    | joining a => exact (gone removed).spawn .none
    | reading => exact (gone removed).spawn .none
    | handling a => exact (gone removed).spawn .none
    | releasing => exact hy
    | closing => exact hy
    | opening => exact gone hy.service
    | checking => exact gone hy.service
    | leaving a => exact gone hy.service
    | _ => exact hy.setTask n h hy.service
  · exact hy

end Deployment.Says

end Parley
