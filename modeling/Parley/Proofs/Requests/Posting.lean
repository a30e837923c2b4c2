import Parley.Proofs.Admission.Guarded
import Parley.Proofs.Delivery.Retries
import Parley.Proofs.Requests.Stages

/-!
# Posting a message

Whether a message may be posted is decided by the request and by what is stored; the broker has no say in it.

* `Acceptable` is what makes a request one that posts a message, and `sendMessage_sent` what comes of it then;
  `acceptable_of_ok` is the other direction.
* `sendMessage_congr`: two services with the same configuration, store and clockwork give the same answer.
* `posting_decided` is about the gateway: whatever goes on beside the request, and whatever the broker does with what it
  publishes.
-/

namespace Parley

open Hub Deployment Http

/-- A row is that of a person's message to a room. -/
structure MessageRow.Holds (row : MessageRow) (room author body : String) : Prop where
  room : row.room = room
  author : row.author = author
  body : row.body = body

namespace MemoryStore

def withMessage (m : MemoryStore) (row : MessageRow) : MemoryStore := { m with messages := m.messages ++ [row] }

theorem saveMessage_of_available {m : MemoryStore} (h : m.available = true) (clock : Clockwork)
    (room author body : String) :
    ∃ row clock', row.Holds room author body ∧
      m.saveMessage clock room author body = (.ok (m.withAuthor row), m.withMessage row, clock') :=
  ⟨_, _, ⟨rfl, rfl, rfl⟩, if_pos h⟩

end MemoryStore

namespace Http.Submission

variable {s t : Service} {r : Request} {user room text : String} {d : Reply × Service}

/-! ### The handling -/

theorem messageBody_ok_iff {body : Option String} : messageBody body = .ok text ↔
    text = Text.trim (body.getD "") ∧ 1 ≤ text.length ∧ text.length ≤ maxMessage := by
  unfold messageBody
  simp only
  generalize Text.trim (body.getD "") = trimmed
  by_cases hempty : trimmed = ""
  · subst hempty
    simp only [beq_self_eq_true, if_true, reduceCtorEq, false_iff, not_and]
    rintro rfl
    decide
  · have hlength : 1 ≤ trimmed.length := Nat.one_le_iff_ne_zero.mpr fun h => hempty (String.length_eq_zero_iff.mp h)
    simp only [beq_iff_eq, hempty, if_false]
    by_cases hlong : maxMessage < trimmed.length
    · simp only [hlong, if_true, reduceCtorEq, false_iff, not_and]
      rintro rfl -
      omega
    · simp only [hlong, if_false, Except.ok.injEq]
      constructor
      · rintro rfl
        exact ⟨rfl, hlength, Nat.le_of_not_lt hlong⟩
      · exact fun h => h.1.symm

theorem messageBody_refuses (body : Option String) : RefusesWith [400] (messageBody body) := by
  intro response h
  unfold messageBody at h
  simp only at h
  split at h
  · cases h
    exact List.mem_singleton_self _
  · split at h <;> cases h
    exact List.mem_singleton_self _

/-- What a request has to bring, and what the service has to find, for a message to be posted. -/
structure Acceptable (s : Service) (r : Request) (user room text : String) : Prop where
  /-- A valid token names the person. -/
  token : r.Bears s user
  /-- The body has the fields of a message. White space at the ends of its text and of its room does not count. -/
  fields : ∃ fields, r.readFields messageFields = .ok fields ∧
    text = Text.trim ((Json.Record.Fields.text? fields "body").getD "") ∧
    room = Text.trim ((Json.Record.Fields.text? fields "conversation_id").getD "")
  nonempty : 1 ≤ text.length
  short : text.length ≤ 4000
  named : room ≠ ""
  takesPart : s.store.takesPart room user = true
  available : s.store.available = true

/-- What posting a message comes to. -/
structure Sent (s : Service) (hub : ℕ) (user room text : String) (row : MessageRow) (d : Reply × Service) : Prop where
  holds : row.Holds room user text
  response : d.1.response = .ofJson 201 (s.store.withAuthor row).json
  before : d.1.before = some (.publish hub room .messages (.ok (RecordEvent.ofMessage (s.store.withAuthor row)).print))
  apart : d.1.apart = none
  service : ∃ clock, d.2 = { s with store := s.store.withMessage row, clock }

theorem sendMessage_sent (h : Acceptable s r user room text) (hub : ℕ) :
    ∃ row d, sendMessage s hub r = .ok d ∧ Sent s hub user room text row d := by
  obtain ⟨fields, hfields, htext, hroom⟩ := h.fields
  have hbody := messageBody_ok_iff.mpr ⟨htext, h.nonempty, h.short⟩
  have henter := enter_ok_iff.mpr ⟨roomOf?_eq_some_iff.mpr ⟨hroom, h.named⟩, h.available, h.takesPart⟩
  obtain ⟨row, clock, hholds, hsaved⟩ := MemoryStore.saveMessage_of_available h.available s.clock room user text
  have hsend : sendMessage s hub r = .ok (
      { response := .ofJson 201 (s.store.withAuthor row).json
        before := some (.publish hub room .messages (.ok (RecordEvent.ofMessage (s.store.withAuthor row)).print)) },
      { s with store := s.store.withMessage row, clock }) := by
    simp only [sendMessage, requester_ok_iff.mpr h.token, hfields, hbody, henter, hsaved, fromStore, bind,
      Except.bind, pure, Except.pure]
  exact ⟨row, _, hsend, hholds, rfl, rfl, rfl, clock, rfl⟩

theorem acceptable_of_ok {hub : ℕ} (h : sendMessage s hub r = .ok d) :
    ∃ user room text, Acceptable s r user room text := by
  obtain ⟨user, huser, h⟩ := bind_ok h
  obtain ⟨fields, hfields, h⟩ := bind_ok h
  obtain ⟨text, htext, h⟩ := bind_ok h
  obtain ⟨room, hroom, -⟩ := bind_ok h
  obtain ⟨htrim, hnonempty, hshort⟩ := messageBody_ok_iff.mp htext
  obtain ⟨hnamed, havailable, htakesPart⟩ := enter_ok_iff.mp hroom
  obtain ⟨hname, hne⟩ := roomOf?_eq_some_iff.mp hnamed
  exact ⟨user, room, text, requester_ok_iff.mp huser, ⟨fields, hfields, htrim, hname⟩, hnonempty, hshort,
    hne, htakesPart, havailable⟩

def refusals : List ℕ := [400, 401, 403, 409, 413, 415, 422, 500]

theorem sendMessage_refuses (s : Service) (hub : ℕ) (r : Request) : RefusesWith refusals (sendMessage s hub r) := by
  have hstages : RefusesWith _ (sendMessage s hub r) := (requester_refuses r _ _).bind fun user _ =>
    (readFields_refuses r _).bind fun fields _ => (messageBody_refuses _).bind fun text _ =>
      (enter_refuses s user _).bind fun room _ => (fromStore_refuses _).bind fun message _ => refuses_ok _
  exact hstages.mono (by decide)

/-- **The configuration, the store and the clockwork decide**: nothing else of a service has a say in the answer. -/
theorem sendMessage_congr (hconfig : t.config = s.config) (hstore : t.store = s.store) (hclock : t.clock = s.clock)
    (hub hub' : ℕ) (r : Request) :
    (Route.settled t (sendMessage t hub' r)).1.response = (Route.settled s (sendMessage s hub r)).1.response ∧
      (Route.settled t (sendMessage t hub' r)).2.store = (Route.settled s (sendMessage s hub r)).2.store := by
  have henter : ∀ user conversation, enter t user conversation = enter s user conversation := by
    intro user conversation
    rw [enter, enter, hstore]
  have hseconds : t.seconds = s.seconds := by rw [Service.seconds, Service.seconds, hclock]
  simp only [sendMessage, hconfig, hseconds, henter, hstore, hclock, bind, Except.bind]
  -- The two differ only in what is done after the last stage: there the answer has been made.
  cases r.requester s.seconds s.config with
  | error response => exact ⟨rfl, hstore⟩
  | ok user =>
    simp only
    cases r.readFields messageFields with
    | error response => exact ⟨rfl, hstore⟩
    | ok fields =>
      simp only
      cases messageBody (Json.Record.Fields.text? fields "body") with
      | error response => exact ⟨rfl, hstore⟩
      | ok text =>
        simp only
        cases enter s user (Json.Record.Fields.text? fields "conversation_id") with
        | error response => exact ⟨rfl, hstore⟩
        | ok room =>
          simp only
          cases fromStore (s.store.saveMessage s.clock room user text).1 with
          | error response => exact ⟨rfl, hstore⟩
          | ok message => exact ⟨rfl, rfl⟩

end Http.Submission

namespace Gateway

open Http.Submission

def posting (query : Query.Pairs) (headers : Headers) (body : Bytes) : Request :=
  { method := "POST", path := "/api/messages", query, headers, body }

variable {x y : Schedule} {hub : ℕ} {r : Request}

theorem answer_posting (s : Service) (hub : ℕ) (query : Query.Pairs) (headers : Headers) (body : Bytes) :
    Route.answer s hub (posting query headers body) =
      Route.settled s (sendMessage s hub (posting query headers body)) := rfl

/-! ### What the gateway does -/

theorem serve_service (y : Deployment) (hub : ℕ) (r : Request) :
    (y.serve hub r).service = (Route.answer y.service hub r).2 := by
  unfold Deployment.serve
  dsimp only
  split <;> split <;> rfl

/-- What goes on of its own accord stores nothing. -/
theorem store_of_reaches {y y' : Deployment} (h : Reaches y y') : y'.service.store = y.service.store :=
  h.induct (motive := fun z => z.service.store = y.service.store) (fun z u hz => (z.books_turn u).store.trans hz) rfl

theorem request_store (x : Schedule) (hub : ℕ) (r : Request) :
    (request x hub r).2.service.store = (Route.answer x.service hub r).2.store :=
  (store_of_reaches (request_reaches x hub r)).trans (congrArg (·.store) (serve_service x.deployment hub r))

/-- A message was posted: this row is stored, and this is published. -/
structure Posted (x : Schedule) (hub : ℕ) (r : Request) (user room text : String) (row : MessageRow) : Prop where
  holds : row.Holds room user text
  response : (request x hub r).1 = .ofJson 201 (x.service.store.withAuthor row).json
  /-- The row is stored behind all others, and one publish begins; this is all that the request does. -/
  served : ∃ clock, x.deployment.serve hub r =
    ({ x.deployment with service := { x.service with store := x.service.store.withMessage row, clock } }.spawn
      (.activity (.publish hub room .messages (.ok (RecordEvent.ofMessage (x.service.store.withAuthor row)).print)))).2
  /-- What follows until the answer is given goes on of its own accord, -/
  reached : Reaches (x.deployment.serve hub r) (request x hub r).2.deployment
  /-- and stores nothing more, now or later. -/
  stored : ∀ y, Reaches (x.deployment.serve hub r) y → y.service.store = x.service.store.withMessage row
  /-- The publish comes to its end, whatever the broker does. -/
  published : ∀ (w : Surroundings) (p : RetryPolicy), w.Lasting p → Activity.Ends w
    (.publish hub room .messages (.ok (RecordEvent.ofMessage (x.service.store.withAuthor row)).print))

/-- Posting a message is decided by the request and by what is stored. -/
structure Decided (x : Schedule) (hub : ℕ) (r : Request) : Prop where
  created_iff : (request x hub r).1.status = 201 ↔ ∃ user room text, Acceptable x.service r user room text
  created : ∀ user room text, Acceptable x.service r user room text → ∃ row, Posted x hub r user room text row
  /-- In every other case the request is refused, and nothing at all happens. -/
  refused : (¬ ∃ user room text, Acceptable x.service r user room text) →
    (request x hub r).1.status ∈ refusals ∧ (request x hub r).2 = x
  /-- With another broker, or none, and with anything else going on, the answer and what is stored are the same. -/
  regardless : ∀ (x' : Schedule) (hub' : ℕ), x'.service.config = x.service.config → x'.service.store = x.service.store →
    x'.service.clock = x.service.clock → (request x' hub' r).1 = (request x hub r).1 ∧
      (request x' hub' r).2.service.store = (request x hub r).2.service.store

section Posting

variable {query : Query.Pairs} {headers : Headers} {body : Bytes} {user room text : String}

theorem posted_of_acceptable (h : Acceptable x.service (posting query headers body) user room text) (hub : ℕ) :
    ∃ row, Posted x hub (posting query headers body) user room text row := by
  obtain ⟨row, d, hsend, hsent⟩ := sendMessage_sent h hub
  obtain ⟨clock, hservice⟩ := hsent.service
  have hanswer : Route.answer x.service hub (posting query headers body) = d := by
    rw [answer_posting, hsend]
    rfl
  have hserve : (x.deployment.serve hub (posting query headers body)).service.store =
      x.service.store.withMessage row := by
    rw [serve_service, show Route.answer x.deployment.service hub (posting query headers body) =
      d from hanswer, hservice]
  refine ⟨row, hsent.holds, ?_, ⟨clock, ?_⟩, request_reaches x hub _, ?_, ?_⟩
  · rw [request_fst, hanswer, hsent.response]
  · unfold Deployment.serve
    rw [show Route.answer x.deployment.service hub (posting query headers body) = d from hanswer]
    simp only [hsent.apart, hsent.before, hservice]
  · intro y hy
    rw [store_of_reaches hy, hserve]
  · exact fun w p hw => Activity.ends hw _

/-- **Posting a message is decided** without the broker, in every state of the service. -/
theorem posting_decided (x : Schedule) (hub : ℕ) (query : Query.Pairs) (headers : Headers) (body : Bytes) :
    Decided x hub (posting query headers body) where
  created_iff := by
    constructor
    · intro hstatus
      cases hsend : sendMessage x.service hub (posting query headers body) with
      | ok d => exact acceptable_of_ok hsend
      | error response =>
        have hmem := sendMessage_refuses _ _ _ response hsend
        rw [request_of_refused (answer_posting ..) hsend] at hstatus
        rw [show response.status = 201 from hstatus] at hmem
        exact absurd hmem (by decide)
    · rintro ⟨user, room, text, h⟩
      obtain ⟨row, hposted⟩ := posted_of_acceptable h hub
      rw [hposted.response]
      rfl
  created user room text h := posted_of_acceptable h hub
  refused hnone := by
    cases hsend : sendMessage x.service hub (posting query headers body) with
    | ok d => exact absurd (acceptable_of_ok hsend) hnone
    | error response =>
      rw [request_of_refused (answer_posting ..) hsend]
      exact ⟨sendMessage_refuses _ _ _ response hsend, rfl⟩
  regardless x' hub' hconfig hstore hclock := by
    have h := sendMessage_congr hconfig hstore hclock hub hub' (posting query headers body)
    rw [request_store, request_store]
    exact h

end Posting

end Gateway

end Parley
