import Parley.Proofs.Admission.Scheduled
import Parley.Proofs.Delivery.Retries
import Parley.Proofs.Envelopes
import Parley.Proofs.Requests.Stages
import Parley.Proofs.Store.Conversations

/-!
# Founding a conversation

Somebody who asks for a conversation names people. Whom that makes is worked out twice: the request counts them, to tell
whether they are too many for a conversation of two, and the store lists them, to enrol them.

* `distinctOthers_perm`: the two come to the same people, each once.
* `createConversation_of_asks` is what a request comes to that asks for a conversation, and `objection_wanted` what the
  store has against it.
* `founding_agrees` is about the gateway: what such a request is answered, and what is stored and published for it.
-/

namespace Parley

open Hub Deployment Http
open Store (Draft otherParticipants nodup_otherParticipants toFinset_otherParticipants)

namespace MemoryStore

variable {m : MemoryStore} {d : Draft}

theorem createConversation_of_objection {e : Store.Error} (h : m.objection d = some e) (clock : Clockwork) :
    m.createConversation clock d = (.error e, m, clock) := by
  simp only [createConversation, h]

theorem createConversation_of_none (call : Creation) (h : m.objection call.draft = none) :
    ∃ clock, m.createConversation call.clock call.draft = (.ok call.conversation, m.adding call, clock) := by
  have hcreate := create_eq m call
  simp only [h, create, Prod.mk.injEq] at hcreate
  exact ⟨_, Prod.ext hcreate.1 (Prod.ext hcreate.2 rfl)⟩

end MemoryStore

namespace Http.Submission

variable {s : Service} {r : Request} {hub : ℕ} {user p : String} {title : Option String} {isGroup : Bool}
  {ps : List String}

/-! ### The others -/

theorem nodup_eraseDups {α : Type} [BEq α] [LawfulBEq α] : ∀ l : List α, l.eraseDups.Nodup
  | [] => List.nodup_nil
  | a :: l => by
    rw [List.eraseDups_cons, List.nodup_cons, List.mem_eraseDups, List.mem_filter]
    exact ⟨by simp, nodup_eraseDups _⟩
termination_by l => l.length
decreasing_by exact Nat.lt_succ_of_le (List.length_filter_le _ _)

theorem mem_distinctOthers : p ∈ distinctOthers user ps ↔ (∃ q ∈ ps, Text.trim q = p) ∧ p ≠ "" ∧ p ≠ user := by
  simp [distinctOthers]

theorem nodup_distinctOthers (user : String) (ps : List String) : (distinctOthers user ps).Nodup := nodup_eraseDups _

/-- What a request asks of the store. Blanks at the ends of a title and of a name do not count, and a blank title is
none. -/
def wanted (user : String) (title : Option String) (isGroup : Bool) (ps : List String) : Draft where
  title := (title.map Text.trim).filter (· != "")
  isGroup := isGroup
  creator := user
  participants := ps.map Text.trim

theorem title_wanted (user : String) (title : Option String) (isGroup : Bool) (ps : List String) (t : String) :
    (wanted user title isGroup ps).title = some t ↔ t = Text.trim (title.getD "") ∧ t ≠ "" :=
  roomOf?_eq_some_iff

theorem others_wanted (user : String) (title : Option String) (isGroup : Bool) (ps : List String) :
    (wanted user title isGroup ps).others = (distinctOthers user ps).toFinset := by
  ext p
  rw [Draft.mem_others, List.mem_toFinset, mem_distinctOthers]
  simp [wanted]

/-- **The request and the store agree** on the others: they are the same people, and each is there once. -/
theorem distinctOthers_perm (user : String) (ps : List String) :
    (distinctOthers user ps).Perm (otherParticipants user (ps.map Text.trim)) := by
  refine (List.perm_ext_iff_of_nodup (nodup_distinctOthers user ps) (nodup_otherParticipants _ _)).mpr fun p => ?_
  rw [← List.mem_toFinset, ← List.mem_toFinset, ← others_wanted user none false ps]
  exact (toFinset_otherParticipants (wanted user none false ps)).symm ▸ Iff.rfl

theorem card_others_wanted (user : String) (title : Option String) (isGroup : Bool) (ps : List String) :
    (wanted user title isGroup ps).others.card = (distinctOthers user ps).length := by
  rw [others_wanted, List.toFinset_card_of_nodup (nodup_distinctOthers user ps)]

/-! ### The handling -/

/-- Somebody asks for a conversation: who, with which title and for whom. -/
structure Asks (s : Service) (r : Request) (user : String) (title : Option String) (isGroup : Bool) (ps : List String) :
    Prop where
  /-- A valid token names the person. -/
  token : r.Bears s user
  /-- The body has the fields of a conversation. -/
  fields : ∃ fields, r.readFields conversationFields = .ok fields ∧ title = Json.Record.Fields.text? fields "title" ∧
    isGroup = Json.Record.Fields.flag fields "is_group" ∧ ps = Json.Record.Fields.texts fields "participants"

/-- The conversation that the store makes of what is asked. -/
def creation (s : Service) (user : String) (title : Option String) (isGroup : Bool) (ps : List String) :
    MemoryStore.Creation := ⟨s.clock, wanted user title isGroup ps⟩

/-- What founding a conversation comes to. -/
structure Made (s : Service) (hub : ℕ) (call : MemoryStore.Creation) (d : Reply × Service) : Prop where
  response : d.1.response = .ofJson 201 call.conversation.json
  before : d.1.before = none
  apart : ∃ time, d.1.apart = some (.publish hub call.conversation.id .events
    (.ok (Told.created call.conversation call.draft.creator time).text))
  service : ∃ clock, d.2 = { s with store := s.store.adding call, clock }

/-- **What a request comes to that asks for a conversation**, by the number of the others and by what the store has
against it. -/
theorem createConversation_of_asks (h : Asks s r user title isGroup ps) (hub : ℕ) :
    (isGroup = false ∧ 1 < (distinctOthers user ps).length ∧
      createConversation s hub r = .error (Problem.badRequest tooManyOthers).response) ∨
    (∃ e, s.store.objection (wanted user title isGroup ps) = some e ∧
      createConversation s hub r = .error (Problem.ofStore e).response) ∨
    (s.store.objection (wanted user title isGroup ps) = none ∧
      ∃ d, createConversation s hub r = .ok d ∧ Made s hub (creation s user title isGroup ps) d) := by
  obtain ⟨fields, hfields, rfl, rfl, rfl⟩ := h.fields
  simp only [createConversation, requester_ok_iff.mpr h.token, hfields, bind, Except.bind]
  by_cases hmany : (!Json.Record.Fields.flag fields "is_group" &&
      decide (1 < (distinctOthers user (Json.Record.Fields.texts fields "participants")).length)) = true
  · refine .inl ?_
    rw [if_pos hmany]
    simp only [Bool.and_eq_true, Bool.not_eq_true', decide_eq_true_eq] at hmany
    exact ⟨hmany.1, hmany.2, rfl⟩
  · refine .inr ?_
    rw [if_neg hmany]
    cases hobj : s.store.objection (wanted user (Json.Record.Fields.text? fields "title")
      (Json.Record.Fields.flag fields "is_group") (Json.Record.Fields.texts fields "participants")) with
    | some e =>
      have hmade := MemoryStore.createConversation_of_objection hobj s.clock
      simp only [wanted] at hmade
      refine .inl ⟨e, rfl, ?_⟩
      simp only [hmade, fromStore]
    | none =>
      obtain ⟨clock, hmade⟩ := MemoryStore.createConversation_of_none (creation s user _ _ _) hobj
      simp only [creation, wanted] at hmade
      refine .inr ⟨rfl, ?_⟩
      simp only [hmade, fromStore]
      exact ⟨_, rfl, rfl, rfl, ⟨_, rfl⟩, ⟨_, rfl⟩⟩

/-- A request that asks for nothing is refused before the store is asked. -/
theorem asks_or_refused (s : Service) (hub : ℕ) (r : Request) :
    (∃ user title isGroup ps, Asks s r user title isGroup ps) ∨
    ∃ response, createConversation s hub r = .error response ∧ response.status ∈ [401, 415, 413, 422, 400] := by
  cases huser : r.requester s.seconds s.config with
  | error response =>
    refine .inr ⟨response, ?_, ?_⟩
    · simp only [createConversation, huser, bind, Except.bind]
    · exact List.mem_append_left [415, 413, 422, 400] (requester_refuses r _ _ response huser)
  | ok user =>
    cases hfields : r.readFields conversationFields with
    | error response =>
      refine .inr ⟨response, ?_, ?_⟩
      · simp only [createConversation, huser, hfields, bind, Except.bind]
      · exact List.mem_append_right [401] (readFields_refuses r _ response hfields)
    | ok fields => exact .inl ⟨user, _, _, _, requester_ok_iff.mp huser, fields, hfields, rfl, rfl, rfl⟩

/-! ### What stands against it -/

theorem other_wanted {other : String} (h : distinctOthers user ps = [other]) :
    (wanted user title isGroup ps).other = other := by
  have hperm := distinctOthers_perm user ps
  rw [h, List.singleton_perm] at hperm
  exact congrArg (·.headD "") hperm.symm

/-- An available store has nothing against a group, and with the others that the request counts it has nothing against a
conversation of two that have none yet. -/
theorem objection_wanted {m : MemoryStore} (h : m.available = true) : m.objection (wanted user title isGroup ps) =
    if isGroup = true then none else match distinctOthers user ps with
      | [other] => if m.haveDirect user other = true then some .directExists else none
      | _ => some .notDirect := by
  rw [MemoryStore.objection_of_available h, card_others_wanted, show (wanted user title isGroup ps).isGroup =
    isGroup from rfl, show (wanted user title isGroup ps).creator = user from rfl]
  rcases hothers : distinctOthers user ps with _ | ⟨other, _ | _⟩
  · simp
  · simp [other_wanted hothers]
  · simp

/-- The store may found the conversation: it is a group, or one of two that have none yet. -/
def Foundable (m : MemoryStore) (user : String) (isGroup : Bool) (ps : List String) : Prop :=
  m.available = true ∧ (isGroup = true ∨ ∃ other, distinctOthers user ps = [other] ∧ m.haveDirect user other = false)

theorem objection_wanted_eq_none_iff {m : MemoryStore} :
    m.objection (wanted user title isGroup ps) = none ↔ Foundable m user isGroup ps := by
  cases havailable : m.available with
  | false => simp [MemoryStore.objection, Foundable, havailable]
  | true =>
    rw [objection_wanted havailable, Foundable, havailable]
    cases isGroup with
    | true => simp
    | false => rcases distinctOthers user ps with _ | ⟨other, _ | _⟩ <;> simp

theorem Foundable.length_others {m : MemoryStore} (h : Foundable m user false ps) :
    (distinctOthers user ps).length = 1 := by
  obtain ⟨other, hothers, -⟩ := h.2.resolve_left nofun
  rw [hothers]
  rfl

theorem status_objection_wanted {m : MemoryStore} {e : Store.Error} (h : m.available = true)
    (hobj : m.objection (wanted user title false ps) = some e) :
    (Problem.ofStore e).response.status = 400 ↔ (distinctOthers user ps).length ≠ 1 := by
  rw [MemoryStore.objection_of_available h, card_others_wanted, if_neg (by simp [wanted])] at hobj
  split_ifs at hobj with hcount hdirect
  · obtain rfl := Option.some.inj hobj
    exact iff_of_true rfl hcount
  · obtain rfl := Option.some.inj hobj
    exact iff_of_false (by decide) hcount

theorem status_ofStore_ne (e : Store.Error) : (Problem.ofStore e).response.status ≠ 201 := by
  have hmem := fromStore_refuses (.error e : Except Store.Error Unit) _ rfl
  intro h
  rw [h] at hmem
  exact absurd hmem (by decide)

end Http.Submission

/-! ### What clients are told -/

/-- A text is that of one event in which no member is repeated; it tells of a conversation and of whom it is from,
and holds the record that the conversation is answered with. -/
def Announces (text : String) (c : Conversation) (user : String) : Prop :=
  ∃ ms record, Json.parse (Text.Utf8.encode text) = .ok (.object ms) ∧ (ms.map (·.1)).Nodup ∧
    ("type", .string "conversation_created") ∈ ms ∧ ("conversation_id", .string c.id) ∈ ms ∧
    ("user_id", .string user) ∈ ms ∧ ("conversation", .object record) ∈ ms ∧
    ∃ answered, c.json = .object answered ∧ record.Perm answered

theorem announces_created (c : Conversation) (user : String) (time : Timestamp) :
    Announces (Told.created c user time).text c user := by
  have hread : Json.parse (Text.Utf8.encode (Told.created c user time).text) =
      .ok (.object (Told.created c user time).members) := by
    rw [Json.parse_eq_parseWithin, Told.text_eq]
    refine Json.parseWithin_print
      (Told.every_members (fun _ => trivial) (fun _ => trivial) (fun _ _ => trivial) nofun) ?_
    obtain ⟨id, title, isGroup, createdBy, createdAt⟩ := c
    cases title <;> simp [Told.members, Told.common, Json.levels, Json.levelsMembers, Json.maxDepth]
  refine ⟨_, _, hread, Told.nodup_members _, ?_, ?_, ?_,
    List.mem_append_right _ (List.mem_singleton_self _), _, rfl, ?_⟩
  · simp [Told.members, Told.common]
  · simp [Told.members, Told.common]
  · simp [Told.members, Told.common]
  · obtain ⟨id, title, isGroup, createdBy, createdAt⟩ := c
    -- by their names the members stand from the last to the first, but for the identifier
    cases title with
    | none => exact (List.reverse_perm _).symm.trans (@List.perm_middle _ _ [_] [_, _])
    | some t => exact (List.reverse_perm _).symm.trans (@List.perm_middle _ _ [_, _] [_, _])

namespace Gateway

open Http.Submission

variable {x : Schedule} {hub : ℕ} {r : Request} {user : String} {title : Option String} {isGroup : Bool}
  {ps : List String}

def founding (query : Query.Pairs) (headers : Headers) (body : Bytes) : Request :=
  { method := "POST", path := "/api/conversations", query, headers, body }

theorem answer_founding (s : Service) (hub : ℕ) (query : Query.Pairs) (headers : Headers) (body : Bytes) :
    Route.answer s hub (founding query headers body) =
      Route.settled s (createConversation s hub (founding query headers body)) := rfl

/-- What is published on its own is left to a task. -/
theorem request_of_apart {reply : Reply} {s : Service} {a : Activity}
    (hanswer : Route.answer x.service hub r = (reply, s))
    (hbefore : reply.before = none) (hapart : reply.apart = some a) : request x hub r =
      (reply.response, { x with deployment := ({ x.deployment with service := s }.spawn (.activity a)).2 }) := by
  unfold request
  simp only [hanswer, hbefore, hapart]
  rfl

/-- A conversation was founded: it is stored, with its people, and a publish begins of a text that tells of it. -/
structure Founded (x : Schedule) (hub : ℕ) (r : Request) (user : String) (title : Option String) (isGroup : Bool)
    (ps : List String) (c : Conversation) (text : String) : Prop where
  response : (request x hub r).1 = .ofJson 201 c.json
  asked : c.createdBy = user ∧ c.isGroup = isGroup
  title : ∀ t, c.title = some t ↔ t = Text.trim (title.getD "") ∧ t ≠ ""
  /-- Of what is stored only the conversations and the memberships are others than before: -/
  stored : (request x hub r).2.service.store = { x.service.store with
    conversations := x.service.store.conversations ++ [c]
    participants := (request x hub r).2.service.store.participants }
  /-- the person who asks takes part in the conversation, and all the others, -/
  enrolled : ∀ room p, (room, p) ∈ (request x hub r).2.service.store.participants ↔
    (room, p) ∈ x.service.store.participants ∨ room = c.id ∧ (p = user ∨ p ∈ otherParticipants user (ps.map Text.trim))
  /-- and nobody else, if the identifier is new. -/
  members : x.service.store.members c.id = ∅ → (request x hub r).2.service.store.members c.id =
    insert user (otherParticipants user (ps.map Text.trim)).toFinset
  /-- The event has the record that the request is answered with, and comes from the person who asks. -/
  announces : Announces text c user
  /-- One task is added, which publishes it, and nothing else happens. -/
  begun : ∃ clock, (request x hub r).2 = { x with deployment :=
    ({ x.deployment with service := { x.service with store := (request x hub r).2.service.store, clock } }.spawn
      (.activity (.publish hub c.id .events (.ok text)))).2 }
  /-- The publish comes to its end, whatever the broker does, -/
  ends : ∀ (w : Surroundings) (p : RetryPolicy), w.Lasting p → Activity.Ends w (.publish hub c.id .events (.ok text))
  /-- and is one of this text: to the broker until it is accepted, or to the connections of the room. -/
  deeds : ∀ (E : Service → Service → Prop), Activity.Settled E → ∀ s t ds result,
    Activity.Course E s (.publish hub c.id .events (.ok text)) ds (.finished result) t →
      if s.hasBroker then Activity.Published s.policy ⟨hub, c.id, .events, .ok text⟩ text 1 ds result
      else ds = [.broadcast hub c.id (some text)] ∧ result = .ok ()

/-- What a request for a conversation comes to. -/
structure Founding (x : Schedule) (hub : ℕ) (r : Request) : Prop where
  /-- The request counts as many others as the store lists, -/
  counted : ∀ user (ps : List String), (distinctOthers user ps).length =
    (otherParticipants user (ps.map Text.trim)).length
  /-- who are all that are named but for the person who asks, each once. -/
  others : ∀ user (ps : List String), (otherParticipants user (ps.map Text.trim)).Nodup ∧
    ∀ p, p ∈ otherParticipants user (ps.map Text.trim) ↔ (∃ q ∈ ps, Text.trim q = p) ∧ p ≠ "" ∧ p ≠ user
  /-- A conversation of two makes no sense exactly if there is not one other. -/
  senseless_iff : ∀ user title ps, Asks x.service r user title false ps → x.service.store.available = true →
    ((request x hub r).1.status = 400 ↔ (otherParticipants user (ps.map Text.trim)).length ≠ 1)
  created_iff : (request x hub r).1.status = 201 ↔
    ∃ user title isGroup ps, Asks x.service r user title isGroup ps ∧ Foundable x.service.store user isGroup ps
  created : ∀ user title isGroup ps, Asks x.service r user title isGroup ps → (request x hub r).1.status = 201 →
    ∃ c text, Founded x hub r user title isGroup ps c text
  /-- In every other case nothing at all happens. -/
  refused : (request x hub r).1.status ≠ 201 → (request x hub r).2 = x

section Founding

variable {query : Query.Pairs} {headers : Headers} {body : Bytes}

theorem founded_of_made {d : Reply × Service}
    (hd : createConversation x.service hub (founding query headers body) = .ok d)
    (h : Made x.service hub (creation x.service user title isGroup ps) d) :
    ∃ c text, Founded x hub (founding query headers body) user title isGroup ps c text := by
  obtain ⟨time, hapart⟩ := h.apart
  obtain ⟨clock, hservice⟩ := h.service
  have hanswer : Route.answer x.service hub (founding query headers body) = (d.1, d.2) := by
    rw [answer_founding, hd]
    rfl
  have hrequest := request_of_apart hanswer h.before hapart
  have hstore : (request x hub (founding query headers body)).2.service.store =
      x.service.store.adding (creation x.service user title isGroup ps) := by
    rw [hrequest, hservice]
    rfl
  refine ⟨(creation x.service user title isGroup ps).conversation,
    (Told.created (creation x.service user title isGroup ps).conversation user time).text, ?_⟩
  constructor
  case response => rw [hrequest, h.response]
  case asked => exact ⟨rfl, rfl⟩
  case title => exact title_wanted user title isGroup ps
  case stored => rw [hstore]; exact MemoryStore.adding_eq _ _
  case enrolled =>
    intro room p
    rw [hstore]
    exact (MemoryStore.mem_participants_enrol ..).trans (or_congr_right (and_congr_right fun _ => List.mem_cons))
  case members =>
    intro hnew
    rw [hstore]
    exact (MemoryStore.members_adding hnew).trans ((Draft.toFinset_people _).symm.trans List.toFinset_cons)
  case announces => exact announces_created _ _ _
  case begun =>
    refine ⟨clock, ?_⟩
    rw [hstore, hrequest, hservice]
    rfl
  case ends => exact fun w p hw => Activity.ends hw _
  case deeds => exact fun E hE s t ds result hcourse => Activity.course_deeds hE rfl hcourse rfl

theorem Founded.status {c : Conversation} {text : String} (h : Founded x hub r user title isGroup ps c text) :
    (request x hub r).1.status = 201 := by
  rw [h.response, Response.status_ofJson]

/-- A request that asks for a conversation has it founded where the store may, and does nothing where it may not. -/
theorem request_of_asks (h : Asks x.service (founding query headers body) user title isGroup ps) (hub : ℕ) :
    (Foundable x.service.store user isGroup ps ∧
      ∃ c text, Founded x hub (founding query headers body) user title isGroup ps c text) ∨
    (¬ Foundable x.service.store user isGroup ps ∧ (request x hub (founding query headers body)).1.status ≠ 201 ∧
      (request x hub (founding query headers body)).2 = x) := by
  obtain ⟨rfl, hmany, hd⟩ | ⟨e, hobj, hd⟩ | ⟨hobj, d, hd, hmade⟩ := createConversation_of_asks h hub
  · rw [request_of_refused (answer_founding ..) hd]
    exact .inr ⟨fun hfoundable => hmany.ne' hfoundable.length_others, by simp [Problem.badRequest], rfl⟩
  · rw [request_of_refused (answer_founding ..) hd]
    refine .inr ⟨fun hfoundable => ?_, status_ofStore_ne e, rfl⟩
    rw [objection_wanted_eq_none_iff.mpr hfoundable] at hobj
    cases hobj
  · exact .inl ⟨objection_wanted_eq_none_iff.mp hobj, founded_of_made hd hmade⟩

theorem status_eq_400_iff (h : Asks x.service (founding query headers body) user title false ps)
    (havailable : x.service.store.available = true) :
    (request x hub (founding query headers body)).1.status = 400 ↔ (distinctOthers user ps).length ≠ 1 := by
  obtain ⟨-, hmany, hd⟩ | ⟨e, hobj, hd⟩ | ⟨hobj, d, hd, hmade⟩ := createConversation_of_asks h hub
  · rw [request_of_refused (answer_founding ..) hd]
    exact iff_of_true rfl hmany.ne'
  · rw [request_of_refused (answer_founding ..) hd]
    exact status_objection_wanted havailable hobj
  · obtain ⟨c, text, hfounded⟩ := founded_of_made hd hmade
    rw [hfounded.status, (objection_wanted_eq_none_iff.mp hobj).length_others]
    decide

/-- **The request and the store agree on who takes part**, in every state of the service. -/
theorem founding_agrees (x : Schedule) (hub : ℕ) (query : Query.Pairs) (headers : Headers) (body : Bytes) :
    Founding x hub (founding query headers body) where
  counted user ps := (distinctOthers_perm user ps).length_eq
  others user ps := ⟨nodup_otherParticipants _ _,
    fun p => (distinctOthers_perm user ps).mem_iff.symm.trans mem_distinctOthers⟩
  senseless_iff user title ps hasks havailable := by
    rw [← (distinctOthers_perm user ps).length_eq]
    exact status_eq_400_iff hasks havailable
  created_iff := by
    constructor
    · intro hstatus
      obtain ⟨user, title, isGroup, ps, hasks⟩ | ⟨response, hd, hmem⟩ :=
        asks_or_refused x.service hub (founding query headers body)
      · obtain ⟨hfoundable, -⟩ | ⟨-, hne, -⟩ := request_of_asks hasks hub
        · exact ⟨user, title, isGroup, ps, hasks, hfoundable⟩
        · exact absurd hstatus hne
      · rw [request_of_refused (answer_founding ..) hd] at hstatus
        rw [show response.status = 201 from hstatus] at hmem
        exact absurd hmem (by decide)
    · rintro ⟨user, title, isGroup, ps, hasks, hfoundable⟩
      obtain ⟨-, c, text, hfounded⟩ | ⟨hnot, -⟩ := request_of_asks hasks hub
      · exact hfounded.status
      · exact absurd hfoundable hnot
  created user title isGroup ps hasks hstatus := by
    obtain ⟨-, hfounded⟩ | ⟨-, hne, -⟩ := request_of_asks hasks hub
    · exact hfounded
    · exact absurd hstatus hne
  refused hstatus := by
    obtain ⟨user, title, isGroup, ps, hasks⟩ | ⟨response, hd, -⟩ :=
      asks_or_refused x.service hub (founding query headers body)
    · obtain ⟨-, c, text, hfounded⟩ | ⟨-, -, hsame⟩ := request_of_asks hasks hub
      · exact absurd hfounded.status hstatus
      · exact hsame
    · rw [request_of_refused (answer_founding ..) hd]

end Founding

end Gateway

end Parley
