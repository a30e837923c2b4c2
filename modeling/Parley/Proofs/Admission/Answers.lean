import Mathlib.Data.List.DropRight
import Parley.Gateway
import Parley.Proofs.Admission.Speech

/-!
What answering a request does to a service: nothing to its hubs, its connections and its line; nobody loses
a place in a conversation; and what is made known is a stored message or a new conversation. An upgrade is
let in exactly when everything is in order, and one that is not changes nothing at all.
-/

namespace Parley

open Hub Deployment

/-! ### Rooms by their names -/

namespace Text

theorem trimChars_eq (cs : List Char) : trimChars cs = (cs.dropWhile isBlank).rdropWhile isBlank := rfl

theorem trimChars_trimChars (cs : List Char) : trimChars (trimChars cs) = trimChars cs := by
  have hfront : (trimChars cs).dropWhile isBlank = trimChars cs := by
    rw [List.dropWhile_eq_self_iff]
    intro hlen
    have hpre : trimChars cs <+: cs.dropWhile isBlank := List.rdropWhile_prefix isBlank _
    have hhead : (cs.dropWhile isBlank)[0]? = some ((trimChars cs)[0]) := by
      obtain ⟨rest, hrest⟩ := hpre
      rw [← hrest, List.getElem?_append_left hlen]
      exact List.getElem?_eq_getElem hlen
    have hlen' : 0 < (cs.dropWhile isBlank).length := Nat.lt_of_lt_of_le hlen hpre.length_le
    have hnot := List.dropWhile_get_zero_not isBlank cs hlen'
    rw [List.getElem?_eq_getElem hlen'] at hhead
    rw [← Option.some.inj hhead]
    exact hnot
  rw [trimChars_eq (trimChars cs), hfront, trimChars_eq, List.rdropWhile_idempotent]

theorem trim_trim (s : String) : trim (trim s) = trim s := by
  rw [trim, trim, String.toList_ofList, trimChars_trimChars]

end Text

theorem Access.roomOf?_spec {conversation : Option String} {room : String} (h : roomOf? conversation = some room) :
    room ≠ "" ∧ Text.trim room = room := by
  obtain ⟨hm, hne⟩ := Option.filter_eq_some_iff.1 h
  obtain ⟨text, -, rfl⟩ := Option.map_eq_some_iff.1 hm
  exact ⟨by simpa using hne, Text.trim_trim text⟩

/-! ### Handling -/

/-- What is made known about no session: a stored message, or a new conversation. -/
structure Public (P : String → Prop) : Prop where
  message : ∀ m : Message, P (RecordEvent.ofMessage m).print
  created : ∀ c user time, P (Envelope.conversationCreated c user time).text

/-- The service after a request, as far as hubs go, is the one before it; whoever took part in a conversation
still does, and what is published with the answer is of the kind. -/
structure Mild (P : String → Prop) (s : Service) (d : Http.Reply × Service) : Prop where
  line : d.2.line = s.line
  hubs : d.2.hubs = s.hubs
  connections : d.2.connections = s.connections
  config : d.2.config = s.config
  store : ∀ p ∈ s.store.participants, p ∈ d.2.store.participants
  before : ∀ a, d.1.before = some a → Only P a.text?
  apart : ∀ a, d.1.apart = some a → Only P a.text?

namespace Http

variable {P : String → Prop} {s : Service} {r : Request} {d : Reply × Service}

theorem bind_ok {α β ε : Type} {x : Except ε α} {f : α → Except ε β} {b : β} (h : x >>= f = .ok b) :
    ∃ a, x = .ok a ∧ f a = .ok b := by
  cases x with
  | error e => cases h
  | ok a => exact ⟨a, rfl, h⟩

theorem mild_response (P : String → Prop) (s : Service) (response : Response) : Mild P s ({ response }, s) :=
  ⟨rfl, rfl, rfl, rfl, fun _ h => h, by simp, by simp⟩

theorem Lookup.check_mild (h : Lookup.check s r = .ok d) : Mild P s d := by
  obtain ⟨user, -, h⟩ := bind_ok h
  obtain ⟨query, -, h⟩ := bind_ok h
  obtain ⟨room, -, h⟩ := bind_ok h
  cases h
  exact mild_response P s _

theorem Lookup.messages_mild (h : Lookup.messages s r = .ok d) : Mild P s d := by
  obtain ⟨user, -, h⟩ := bind_ok h
  obtain ⟨query, -, h⟩ := bind_ok h
  obtain ⟨limit, -, h⟩ := bind_ok h
  obtain ⟨room, -, h⟩ := bind_ok h
  obtain ⟨found, -, h⟩ := bind_ok h
  cases h
  exact mild_response P s _

theorem Lookup.conversations_mild (h : Lookup.conversations s r = .ok d) : Mild P s d := by
  obtain ⟨user, -, h⟩ := bind_ok h
  obtain ⟨found, -, h⟩ := bind_ok h
  cases h
  exact mild_response P s _

theorem Lookup.users_mild (h : Lookup.users s r = .ok d) : Mild P s d := by
  dsimp only [Lookup.users] at h
  obtain ⟨user, -, h⟩ := bind_ok h
  obtain ⟨query, -, h⟩ := bind_ok h
  split at h <;> obtain ⟨found, -, h⟩ := bind_ok h <;> cases h <;> exact mild_response P s _

theorem saveMessage_participants (m : MemoryStore) (clock : Clockwork) (room author body : String) :
    (m.saveMessage clock room author body).2.1.participants = m.participants := by
  unfold MemoryStore.saveMessage
  split <;> rfl

theorem Submission.sendMessage_mild (hP : Public P) {hub : Nat} (h : Submission.sendMessage s hub r = .ok d) :
    Mild P s d := by
  obtain ⟨user, -, h⟩ := bind_ok h
  obtain ⟨fields, -, h⟩ := bind_ok h
  obtain ⟨text, -, h⟩ := bind_ok h
  obtain ⟨room, -, h⟩ := bind_ok h
  obtain ⟨message, -, h⟩ := bind_ok h
  cases h
  refine ⟨rfl, rfl, rfl, rfl, fun p hp => ?_, fun a ha => ?_, fun a ha => by cases ha⟩
  · show p ∈ (s.store.saveMessage s.clock room user text).2.1.participants
    rw [saveMessage_participants]
    exact hp
  · cases ha
    intro text' ht
    cases ht
    exact hP.message message

theorem addParticipant_mono (m : MemoryStore) (room user : String) {p : String × String} (hp : p ∈ m.participants) :
    p ∈ (m.addParticipant room user).participants := by
  unfold MemoryStore.addParticipant
  split
  · exact hp
  · exact List.mem_append_left _ hp

theorem createConversation_mono (m : MemoryStore) (clock : Clockwork) (draft : Store.Draft) {p : String × String}
    (hp : p ∈ m.participants) : p ∈ (m.createConversation clock draft).2.1.participants := by
  unfold MemoryStore.createConversation
  split
  · exact hp
  · have all : ∀ (id : String) (members : List String) (m : MemoryStore), p ∈ m.participants →
        p ∈ (members.foldl (fun s user => s.addParticipant id user) m).participants := by
      intro id members
      induction members with
      | nil => exact fun m hm => hm
      | cons user members ih => exact fun m hm => ih _ (addParticipant_mono m id user hm)
    exact all _ _ m hp

theorem Submission.createConversation_mild (hP : Public P) {hub : Nat}
    (h : Submission.createConversation s hub r = .ok d) :
    Mild P s d := by
  dsimp only [Submission.createConversation] at h
  obtain ⟨user, -, h⟩ := bind_ok h
  obtain ⟨fields, -, h⟩ := bind_ok h
  split at h
  · obtain ⟨u, hu, -⟩ := bind_ok h
    cases hu
  · obtain ⟨conversation, -, h⟩ := bind_ok h
    cases h
    refine ⟨rfl, rfl, rfl, rfl, fun p hp => createConversation_mono s.store s.clock _ hp, by simp, fun a ha => ?_⟩
    cases ha
    intro text ht
    cases ht
    exact hP.created conversation user _

theorem Route.settled_mild {handling : Handling} (h : ∀ d, handling = .ok d → Mild P s d) :
    Mild P s (Route.settled s handling) := by
  unfold Route.settled
  cases handling with
  | ok d => exact h d rfl
  | error response => exact mild_response P s response

theorem Route.look_mild (s : Service) (r : Request) (path : Route.Path) : Mild P s (Route.look s r path) := by
  cases path with
  | health => exact mild_response P s _
  | upgrade => exact mild_response P s _
  | check => exact settled_mild fun d => Lookup.check_mild
  | messages => exact settled_mild fun d => Lookup.messages_mild
  | conversations => exact settled_mild fun d => Lookup.conversations_mild
  | users => exact settled_mild fun d => Lookup.users_mild

/-- **Answering is mild**, whatever is asked. -/
theorem Route.answer_mild (hP : Public P) (s : Service) (hub : Nat) (r : Request) :
    Mild P s (Route.answer s hub r) := by
  unfold Route.answer
  split
  · exact mild_response P s _
  · rename_i path _
    split
    · exact look_mild s r path
    split
    · have h := look_mild (P := P) s r path
      exact ⟨h.line, h.hubs, h.connections, h.config, h.store, h.before, h.apart⟩
    split
    · split
      · exact settled_mild fun d => Submission.sendMessage_mild hP
      · exact settled_mild fun d => Submission.createConversation_mild hP
      · exact mild_response P s _
    · exact mild_response P s _

/-! ### Upgrades -/

theorem enter_ok_iff {user room : String} {conversation : Option String} : enter s user conversation = .ok room ↔
    Access.roomOf? conversation = some room ∧ s.store.available = true ∧ s.store.takesPart room user = true := by
  unfold enter Access.requireParticipant MemoryStore.isParticipant MemoryStore.whenAvailable
  cases Access.roomOf? conversation with
  | none => simp
  | some room' =>
    cases s.store.available with
    | false => simp
    | true =>
      simp only [if_true]
      cases ht : s.store.takesPart room' user with
      | false =>
        simp only [reduceCtorEq, Option.some.injEq, false_iff, not_and]
        rintro rfl
        simp [ht]
      | true =>
        simp only [Except.ok.injEq, Option.some.injEq]
        constructor
        · rintro rfl
          exact ⟨rfl, trivial, ht⟩
        · exact fun h => h.1

/-- What a service has to find in a request to let a person into a room. -/
structure Upgrade.Grants (s : Service) (r : Request) (room user : String) : Prop where
  known : Query.once ["conversation_id", "user_id", "token"] r.query = true
  identity : Identity.ofUpgrade s.seconds s.config r.headers (r.query.lookup "token") (r.query.lookup "user_id") =
    .ok user
  named : Access.roomOf? (r.query.lookup "conversation_id") = some room
  available : s.store.available = true
  takesPart : s.store.takesPart room user = true

theorem known_ok_iff {names : List String} {query : Query.Pairs} :
    r.known names = .ok query ↔ Query.once names r.query = true ∧ r.query = query := by
  unfold Request.known
  cases Query.once names r.query <;> simp

theorem Upgrade.authorize_ok_iff {room user : String} :
    Upgrade.authorize s r = .ok (room, user) ↔ Upgrade.Grants s r room user := by
  constructor
  · intro h
    obtain ⟨query, hq, h⟩ := bind_ok h
    obtain ⟨hk, rfl⟩ := known_ok_iff.1 hq
    cases hi : Identity.ofUpgrade s.seconds s.config r.headers (r.query.lookup "token") (r.query.lookup "user_id") with
    | error fault =>
      rw [hi] at h
      cases h
    | ok u =>
      rw [hi] at h
      obtain ⟨u', hu, h⟩ := bind_ok h
      cases hu
      obtain ⟨room', hr, h⟩ := bind_ok h
      cases h
      obtain ⟨hroom, ha, ht⟩ := enter_ok_iff.1 hr
      exact ⟨hk, hi, hroom, ha, ht⟩
  · intro h
    have hq : r.known ["conversation_id", "user_id", "token"] = .ok r.query := known_ok_iff.2 ⟨h.known, rfl⟩
    have he : enter s user (r.query.lookup "conversation_id") = .ok room :=
      enter_ok_iff.2 ⟨h.named, h.available, h.takesPart⟩
    simp only [Upgrade.authorize, hq, bind, Except.bind, h.identity, pure, Except.pure, he]

end Http

end Parley
