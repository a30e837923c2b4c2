import Parley.Proofs.Store.Mirror

/-!
# The two stores agree

A service may keep its conversations in memory or in a database. Here both stores are asked the same
things one after the other, from nothing: conversations are created, messages saved, people's
profiles changed, and all of it looked up. Each store draws its own identifiers; the time of a write
is the same for both.

* `Visit` is one thing that is asked, `inMemory` and `relational` are what the two stores reply.
* `Mirrors.serve` is the step: a visit gets the same reply from both, and the mirror stays.
* `stores_agree` is the whole, up to a one-to-one renaming of identifiers, which there always is
  (`exists_renames`).
-/

namespace Parley

namespace Store

/-! ### What is asked and what is replied -/

inductive Action where
  | create (draft : Draft)
  | save (room author body : String)
  | isParticipant (room user : String)
  | recent (room : String) (limit : Nat)
  | list (user : String) (limit : Nat)
  | setProfile (user : String) (profile : Profile)
deriving DecidableEq, Repr

inductive Reply where
  | created (r : Except Error Conversation)
  | saved (r : Except Error Message)
  | isParticipant (r : Except Error Bool)
  | recent (r : Except Error (List Message))
  | list (r : Except Error (List Conversation))
  | done

def Action.rename (ρ : String → String) : Action → Action
  | .create draft => .create draft
  | .save room author body => .save (ρ room) author body
  | .isParticipant room user => .isParticipant (ρ room) user
  | .recent room limit => .recent (ρ room) limit
  | .list user limit => .list user limit
  | .setProfile user p => .setProfile user p

def Reply.rename (ρ : String → String) : Reply → Reply
  | .created r => .created (r.map (·.rename ρ))
  | .saved r => .saved (r.map (·.rename ρ))
  | .isParticipant r => .isParticipant r
  | .recent r => .recent (r.map (·.map (·.rename ρ)))
  | .list r => .list (r.map (·.map (·.rename ρ)))
  | .done => .done

/-- Whether a write has stored a row. -/
def Reply.hasStored : Reply → Bool
  | .created (.ok _) => true
  | .saved (.ok _) => true
  | _ => false

structure Visit where
  action : Action
  /-- What the store in memory draws from. It has the time, too, that both stores read. -/
  clock : Clockwork
  /-- The identifier that the relational store draws. -/
  id : String
deriving DecidableEq, Repr

namespace Visit

def drawn (v : Visit) : String :=
  match v.action with
  | .create _ => (v.clock.draw .conversation).1
  | _ => (v.clock.draw .message).1

def time (v : Visit) : Timestamp := v.clock.read.1

/-- Two visits draw different identifiers from either store, and the second reads a later time. -/
structure Before (v w : Visit) : Prop where
  drawn : v.drawn ≠ w.drawn
  id : v.id ≠ w.id
  time : v.time.micros < w.time.micros

instance (v w : Visit) : Decidable (v.Before w) :=
  decidable_of_iff (v.drawn ≠ w.drawn ∧ v.id ≠ w.id ∧ v.time.micros < w.time.micros)
    ⟨fun h => ⟨h.1, h.2.1, h.2.2⟩, fun h => ⟨h.drawn, h.id, h.time⟩⟩

end Visit

end Store

open Store

/-- What the store in memory replies to a visit, and the store it leaves. -/
def MemoryStore.serve (s : MemoryStore) (v : Visit) : Reply × MemoryStore :=
  match v.action with
  | .create draft =>
    let (r, s, _) := s.createConversation v.clock draft
    (.created r, s)
  | .save room author body =>
    let (r, s, _) := s.saveMessage v.clock room author body
    (.saved r, s)
  | .isParticipant room user => (.isParticipant (s.isParticipant room user), s)
  | .recent room limit => (.recent (s.recentMessages room limit), s)
  | .list user limit => (.list (s.conversationsFor user limit), s)
  | .setProfile user p => (.done, s.setProfile user p)

/-- What the relational store replies, with the identifier it draws and the time it reads. -/
def Store.Backend.serve (b : Backend) (action : Action) (id : String) (time : Timestamp) : Reply × Backend :=
  match action with
  | .create draft =>
    let (r, b) := b.run (createConversation draft id time)
    (.created r, b)
  | .save room author body =>
    let (r, b) := b.run (saveMessage { id, room, author, body, createdAt := time })
    (.saved r, b)
  | .isParticipant room user =>
    let (r, b) := b.run (Store.isParticipant room user)
    (.isParticipant r, b)
  | .recent room limit =>
    let (r, b) := b.run (recentMessages room limit)
    (.recent r, b)
  | .list user limit =>
    let (r, b) := b.run (conversationsFor user limit)
    (.list r, b)
  | .setProfile user p => (.done, { b with tables := b.tables.setProfile user p })

namespace Store

/-! ### Visits one after the other -/

def inMemory (s : MemoryStore) : List Visit → List Reply
  | [] => []
  | v :: visits => (s.serve v).1 :: inMemory (s.serve v).2 visits

/-- The replies of the relational store, which is asked about the rooms under its own identifiers. -/
def relational (ρ : Equiv.Perm String) (b : Backend) : List Visit → List Reply
  | [] => []
  | v :: visits =>
    let (reply, b) := b.serve (v.action.rename ρ) v.id v.time
    reply :: relational ρ b visits

def writes (s : MemoryStore) : List Visit → List Visit
  | [] => []
  | v :: visits =>
    if (s.serve v).1.hasStored then v :: writes (s.serve v).2 visits else writes (s.serve v).2 visits

/-- Every row that is stored has a new identifier and a later time. -/
def Fresh (visits : List Visit) : Prop := (writes {} visits).Pairwise Visit.Before

/-- The conversation that a message goes to is there. -/
def Action.Addressed (s : MemoryStore) : Action → Prop
  | .save room _ _ => ∃ c ∈ s.conversations, c.id = room
  | _ => True

/-- Every message goes to a conversation that is there. -/
def Addressed (s : MemoryStore) : List Visit → Prop
  | [] => True
  | v :: visits => v.action.Addressed s ∧ Addressed (s.serve v).2 visits

/-- The identifiers of the one store are taken to those of the other. -/
def Renames (ρ : Equiv.Perm String) (s : MemoryStore) (visits : List Visit) : Prop :=
  ∀ v ∈ writes s visits, ρ v.drawn = v.id

instance (visits : List Visit) : Decidable (Fresh visits) := by
  unfold Fresh
  infer_instance

instance (s : MemoryStore) (action : Action) : Decidable (action.Addressed s) := by
  unfold Action.Addressed
  split <;> infer_instance

instance decidableAddressed (s : MemoryStore) : (visits : List Visit) → Decidable (Addressed s visits)
  | [] => .isTrue trivial
  | v :: visits =>
    have := decidableAddressed (s.serve v).2 visits
    inferInstanceAs (Decidable (v.action.Addressed s ∧ Addressed (s.serve v).2 visits))

theorem exists_renames {visits : List Visit} (h : visits.Pairwise Visit.Before) :
    ∃ ρ : Equiv.Perm String, ∀ v ∈ visits, ρ v.drawn = v.id := by
  induction visits with
  | nil => exact ⟨Equiv.refl String, fun _ hw => absurd hw List.not_mem_nil⟩
  | cons v visits ih =>
    obtain ⟨hv, hvisits⟩ := List.pairwise_cons.mp h
    obtain ⟨ρ, hρ⟩ := ih hvisits
    -- what `v` draws goes to where it shall, and what would be there goes where that was
    refine ⟨ρ.trans (Equiv.swap (ρ v.drawn) v.id), fun w hw => ?_⟩
    rw [Equiv.trans_apply]
    rcases List.mem_cons.mp hw with rfl | hw
    · exact Equiv.swap_apply_left _ _
    · rw [hρ w hw]
      refine Equiv.swap_apply_of_ne_of_ne (fun heq => (hv w hw).drawn ?_) (hv w hw).id.symm
      rw [← hρ w hw] at heq
      exact (ρ.injective heq).symm

/-! ### One visit -/

section Visit

variable {ρ : Equiv.Perm String} {s : MemoryStore} {b : Backend} {v w : Visit}

/-- What a visit would store is new. -/
structure Awaits (s : MemoryStore) (v : Visit) : Prop where
  fresh : ∀ c ∈ s.conversations, c.id ≠ v.drawn
  older : s.Older v.time

/-- The stores mirror each other, and the relational one has neither a fault to come nor a transaction open. -/
structure Level (ρ : Equiv.Perm String) (s : MemoryStore) (b : Backend) : Prop where
  orderly : s.Orderly
  mirrors : Mirrors ρ s b.tables
  faults : b.faults = []
  own : b.own = none

/-- A visit gets the same reply from both stores, which are level afterwards. -/
structure Agrees (ρ : Equiv.Perm String) (s : MemoryStore) (b : Backend) (v : Visit) : Prop where
  reply : (b.serve (v.action.rename ρ) v.id v.time).1 = (s.serve v).1.rename ρ
  level : Level ρ (s.serve v).2 (b.serve (v.action.rename ρ) v.id v.time).2

def Visit.creation (v : Visit) (draft : Draft) : MemoryStore.Creation := ⟨v.clock, draft⟩

theorem Visit.conversation_creation {draft : Draft} (hv : v.action = .create draft) :
    (v.creation draft).conversation = draft.conversation v.drawn v.time := by
  simp only [Visit.drawn, hv]
  rfl

theorem Visit.id_creation {draft : Draft} (hv : v.action = .create draft) : (v.creation draft).id = v.drawn :=
  congrArg Conversation.id (v.conversation_creation hv)

theorem serve_create {draft : Draft} (hv : v.action = .create draft) :
    s.serve v = (.created (s.create (v.creation draft)).1, (s.create (v.creation draft)).2) := by
  simp only [MemoryStore.serve, hv]
  rfl

def Visit.row (v : Visit) (room author body : String) : MessageRow :=
  { id := v.drawn, room, author, body, createdAt := v.time }

theorem serve_save {room author body : String} (hv : v.action = .save room author body) (hs : s.available = true) :
    s.serve v = (.saved (.ok (s.withAuthor (v.row room author body))), s.insertMessage (v.row room author body)) := by
  have hdrawn : v.drawn = (v.clock.draw .message).1 := by simp only [Visit.drawn, hv]
  have htime : v.time = (v.clock.draw .message).2.read.1 := rfl
  simp only [MemoryStore.serve, hv, MemoryStore.saveMessage, hs, if_true, Visit.row, hdrawn, htime,
    MemoryStore.insertMessage]

/-- What a procedure of the relational store comes to leaves the stores level. -/
theorem Level.of_runs {α : Type} {p : Procedure α} {r : Except Error α} {s' : MemoryStore} {t : Tables}
    (h : Level ρ s b) (hp : Runs b.tables none p r t) (hs : s'.Orderly) (hm : Mirrors ρ s' t) :
    (b.run p).1 = r ∧ Level ρ s' (b.run p).2 := by
  obtain ⟨hr, hfaults, ht, hown⟩ := hp b h.faults rfl h.own
  exact ⟨hr, hs, ht ▸ hm, hfaults, hown⟩

theorem Level.agrees_create (h : Level ρ s b) {draft : Draft} (hv : v.action = .create draft)
    (hstored : (s.serve v).1.hasStored = true → ρ v.drawn = v.id ∧ Awaits s v) : Agrees ρ s b v := by
  have hmemory := serve_create (s := s) hv
  have hobjection := h.mirrors.objection h.orderly ⟨draft, v.id, v.time⟩
  have hruns := Call.runs_createConversation ⟨draft, v.id, v.time⟩ b.tables
  rw [MemoryStore.create_eq, show (v.creation draft).draft = draft from rfl] at hmemory
  cases hnone : s.objection draft with
  | some e =>
    simp only [hnone] at hmemory hobjection
    simp only [Call.answer, Call.result, hobjection] at hruns
    obtain ⟨hr, hlevel⟩ := h.of_runs hruns h.orderly h.mirrors
    constructor
    · simp only [Backend.serve, hv, Action.rename, hr, hmemory]
      rfl
    · simpa only [Backend.serve, hv, Action.rename, hmemory] using hlevel
  | none =>
    simp only [hnone] at hmemory hobjection
    obtain ⟨hid, hawaits⟩ := hstored (by rw [hmemory]; rfl)
    have hrow : (⟨draft, v.id, v.time⟩ : Call).row = (v.creation draft).conversation.rename ρ := by
      rw [v.conversation_creation hv, ← hid]
      rfl
    have hfresh : ∀ c ∈ s.conversations, c.id ≠ (v.creation draft).id := by
      rw [v.id_creation hv]
      exact hawaits.fresh
    simp only [Call.answer, Call.result, hobjection, hrow] at hruns
    obtain ⟨hr, hlevel⟩ := h.of_runs hruns (h.orderly.adding hfresh hnone hawaits.older)
      (h.mirrors.adding h.orderly hfresh hrow rfl)
    constructor
    · simp only [Backend.serve, hv, Action.rename, hr, hmemory]
      rfl
    · simpa only [Backend.serve, hv, Action.rename, hmemory] using hlevel

theorem Level.agrees_save (h : Level ρ s b) {room author body : String} (hv : v.action = .save room author body)
    (hroom : ∃ c ∈ s.conversations, c.id = room)
    (hstored : (s.serve v).1.hasStored = true → ρ v.drawn = v.id ∧ Awaits s v) : Agrees ρ s b v := by
  have hmemory := serve_save hv h.orderly.consistent.available
  obtain ⟨hid, hawaits⟩ := hstored (by rw [hmemory]; rfl)
  have hrow : (v.row room author body).rename ρ =
      { id := v.id, room := ρ room, author, body, createdAt := v.time } := by
    rw [← hid]
    rfl
  obtain ⟨c, hc, rfl⟩ := hroom
  have hruns : Runs b.tables none (saveMessage ((v.row c.id author body).rename ρ)) _ _ :=
    runs_saveMessage (h.mirrors.hasConversation hc)
  obtain ⟨hr, hlevel⟩ := h.of_runs hruns (h.orderly.insertMessage hawaits.older) (h.mirrors.insertMessage _)
  rw [h.mirrors.withAuthor] at hr
  rw [hrow] at hr hlevel
  constructor
  · simp only [Backend.serve, hv, Action.rename, hr, hmemory]
    rfl
  · simpa only [Backend.serve, hv, Action.rename, hmemory] using hlevel

/-- **One visit** gets the same reply from both stores. -/
theorem Level.agrees (h : Level ρ s b) (haddressed : v.action.Addressed s)
    (hstored : (s.serve v).1.hasStored = true → ρ v.drawn = v.id ∧ Awaits s v) : Agrees ρ s b v := by
  have havailable := h.orderly.consistent.available
  cases hv : v.action with
  | create draft => exact h.agrees_create hv hstored
  | save room author body =>
    rw [hv] at haddressed
    exact h.agrees_save hv haddressed hstored
  | isParticipant room user =>
    obtain ⟨hr, hlevel⟩ := h.of_runs (runs_isParticipant b.tables (ρ room) user) h.orderly h.mirrors
    constructor
    · simp only [Backend.serve, MemoryStore.serve, hv, Action.rename, Reply.rename, hr, h.mirrors.takesPart,
        MemoryStore.isParticipant, MemoryStore.whenAvailable, havailable, if_true]
    · simpa only [Backend.serve, MemoryStore.serve, hv, Action.rename] using hlevel
  | recent room limit =>
    obtain ⟨hr, hlevel⟩ := h.of_runs (runs_recentMessages b.tables (ρ room) limit) h.orderly h.mirrors
    constructor
    · simp only [Backend.serve, MemoryStore.serve, hv, Action.rename, Reply.rename, hr, h.mirrors.recent h.orderly,
        MemoryStore.recentMessages, MemoryStore.whenAvailable, havailable, if_true]
      rfl
    · simpa only [Backend.serve, MemoryStore.serve, hv, Action.rename] using hlevel
  | list user limit =>
    obtain ⟨hr, hlevel⟩ := h.of_runs (runs_conversationsFor b.tables user limit) h.orderly h.mirrors
    constructor
    · simp only [Backend.serve, MemoryStore.serve, hv, Action.rename, Reply.rename, hr, h.mirrors.list h.orderly,
        MemoryStore.conversationsFor, MemoryStore.whenAvailable, havailable, if_true]
      rfl
    · simpa only [Backend.serve, MemoryStore.serve, hv, Action.rename] using hlevel
  | setProfile user p =>
    constructor
    · simp only [Backend.serve, MemoryStore.serve, hv, Action.rename]
      rfl
    · simp only [Backend.serve, MemoryStore.serve, hv, Action.rename]
      exact ⟨h.orderly.setProfile user p, h.mirrors.setProfile user p, h.faults, h.own⟩

/-- What was awaited is awaited after an earlier visit. -/
theorem Awaits.serve (h : Awaits s w) (hs : s.available = true)
    (hbefore : (s.serve v).1.hasStored = true → v.Before w) : Awaits (s.serve v).2 w := by
  cases hv : v.action with
  | create draft =>
    have hmemory := serve_create (s := s) hv
    rw [MemoryStore.create_eq, show (v.creation draft).draft = draft from rfl] at hmemory
    cases hobjection : s.objection draft with
    | some e => simpa only [hobjection, hmemory] using h
    | none =>
      simp only [hobjection] at hmemory
      have hvw := hbefore (by rw [hmemory]; rfl)
      rw [hmemory]
      refine ⟨fun c hc => ?_, fun c hc => ?_, fun m hm => h.older.messages m ?_⟩
      · rcases List.mem_append.mp hc with hc | hc
        · exact h.fresh c hc
        · rw [List.mem_singleton.mp hc, v.conversation_creation hv]
          exact hvw.drawn
      · rcases List.mem_append.mp hc with hc | hc
        · exact h.older.conversations c hc
        · rw [List.mem_singleton.mp hc]
          exact hvw.time
      · rwa [MemoryStore.adding_eq] at hm
  | save room author body =>
    have hmemory := serve_save hv hs
    have hvw := hbefore (by rw [hmemory]; rfl)
    rw [hmemory]
    refine ⟨h.fresh, h.older.conversations, fun m hm => ?_⟩
    rcases List.mem_append.mp hm with hm | hm
    · exact h.older.messages m hm
    · rw [List.mem_singleton.mp hm]
      exact hvw.time
  | isParticipant room user => simpa only [MemoryStore.serve, hv] using h
  | recent room limit => simpa only [MemoryStore.serve, hv] using h
  | list user limit => simpa only [MemoryStore.serve, hv] using h
  | setProfile user p =>
    simp only [MemoryStore.serve, hv]
    exact ⟨h.fresh, h.older.conversations, h.older.messages⟩

end Visit

/-! ### Every sequence of visits -/

theorem Level.relational_eq {ρ : Equiv.Perm String} {s : MemoryStore} {b : Backend} (h : Level ρ s b)
    (visits : List Visit)
    (hfresh : (writes s visits).Pairwise Visit.Before) (hawaits : ∀ v ∈ writes s visits, Awaits s v)
    (haddressed : Addressed s visits) (hρ : Renames ρ s visits) :
    relational ρ b visits = (inMemory s visits).map (·.rename ρ) := by
  induction visits generalizing s b with
  | nil => rfl
  | cons v visits ih =>
    obtain ⟨haddressed, hrest⟩ := haddressed
    have havailable := h.orderly.consistent.available
    by_cases hstored : (s.serve v).1.hasStored = true
    · rw [writes, if_pos hstored] at hfresh hawaits
      rw [Renames, writes, if_pos hstored] at hρ
      obtain ⟨hv, hfresh⟩ := List.pairwise_cons.mp hfresh
      have hagrees := h.agrees haddressed fun _ => ⟨hρ v List.mem_cons_self, hawaits v List.mem_cons_self⟩
      have htail := ih hagrees.level hfresh
        (fun w hw => (hawaits w (List.mem_cons_of_mem _ hw)).serve havailable fun _ => hv w hw) hrest
        (fun w hw => hρ w (List.mem_cons_of_mem _ hw))
      rw [relational, inMemory, List.map_cons, ← hagrees.reply, ← htail]
    · rw [writes, if_neg hstored] at hfresh hawaits
      rw [Renames, writes, if_neg hstored] at hρ
      have hagrees := h.agrees haddressed fun hyes => absurd hyes hstored
      have htail := ih hagrees.level hfresh
        (fun w hw => (hawaits w hw).serve havailable fun hyes => absurd hyes hstored) hrest hρ
      rw [relational, inMemory, List.map_cons, ← hagrees.reply, ← htail]

/-- **The two stores agree.** Take any visits, from nothing on both stores, such that every row that is stored
has a new identifier and a later time, and every message goes to a conversation that is there. Then the
identifiers of the store in memory can be renamed, one to one, to those that the relational store has drawn; and
under every such renaming the relational store replies to each visit what the store in memory does. -/
theorem stores_agree (visits : List Visit) (fresh : Fresh visits) (addressed : Addressed {} visits) :
    (∃ ρ : Equiv.Perm String, Renames ρ {} visits) ∧
      ∀ ρ : Equiv.Perm String, Renames ρ {} visits →
      relational ρ {} visits = (inMemory {} visits).map (·.rename ρ) := by
  refine ⟨exists_renames fresh, fun ρ hρ => ?_⟩
  have hlevel : Level ρ {} {} := ⟨MemoryStore.orderly_empty, .empty ρ, rfl, rfl⟩
  have hawaits : ∀ v ∈ writes {} visits, Awaits {} v := fun v _ =>
    ⟨fun c hc => absurd hc List.not_mem_nil, fun c hc => absurd hc List.not_mem_nil,
      fun m hm => absurd hm List.not_mem_nil⟩
  exact hlevel.relational_eq visits fresh hawaits addressed hρ

/-- A direct conversation, a second one of the same two, which is refused, two messages by somebody whose
profile changes in between, and what is then looked up. -/
def fewVisits : List Visit :=
  let room := Identifier.text "conv" 0
  [⟨.create ⟨none, false, "u1", ["u2", ""]⟩, ⟨{ drawn := 0 }, { micros := 0 }⟩, "conv_a"⟩,
    ⟨.create ⟨some "again", false, "u2", ["u1", "u1"]⟩, ⟨{ drawn := 1 }, { micros := 1 }⟩, "conv_b"⟩,
    ⟨.save room "u1" "hi", ⟨{ drawn := 1 }, { micros := 1 }⟩, "msg_a"⟩,
    ⟨.setProfile "u1" ⟨some "Ada", none⟩, ⟨{ drawn := 2 }, ⟨2, 0⟩⟩, ""⟩,
    ⟨.save room "u1" "bye", ⟨{ drawn := 2 }, ⟨2, 0⟩⟩, "msg_b"⟩,
    ⟨.recent room 1, ⟨{ drawn := 3 }, ⟨3, 0⟩⟩, ""⟩,
    ⟨.list "u2" 50, ⟨{ drawn := 3 }, ⟨3, 0⟩⟩, ""⟩]

theorem stores_agree_fewVisits :
    Fresh fewVisits ∧ Addressed {} fewVisits ∧ (writes {} fewVisits).length = 3 ∧
      ∃ ρ : Equiv.Perm String, Renames ρ {} fewVisits ∧
        relational ρ {} fewVisits = (inMemory {} fewVisits).map (·.rename ρ) :=
  have fresh : Fresh fewVisits := by decide +kernel
  have addressed : Addressed {} fewVisits := by decide +kernel
  have ⟨⟨ρ, hρ⟩, hagree⟩ := stores_agree fewVisits fresh addressed
  ⟨fresh, addressed, by decide +kernel, ρ, hρ, hagree ρ hρ⟩

end Store

end Parley
