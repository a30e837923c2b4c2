import Parley.Proofs.Store.Members

/-!
# The conversations of the store in memory

The store refuses a direct conversation by looking through its conversations and, for each, through
a separate set of memberships. That this keeps the direct conversations of two people apart needs
the two to fit together: `Consistent` says that every membership is of a listed conversation, that
a direct conversation has two members, its creator among them, and that no two direct conversations
have the same members.

* `Creation` is one call: what is asked, and the clockwork it draws from. `after calls` is the store
  after some calls, from the empty one.
* `create_eq` is the spec of one call, `objection_notDirect` and `objection_directExists` tell when
  it is refused, and `Consistent.create` is the step of the invariant.
* `conversations_consistent` is the whole: every state that calls reach, and every answer on the way.
-/

namespace Parley.MemoryStore

open Store

variable {s s' : MemoryStore} {d : Draft} {c : Conversation}

/-! ### One call -/

/-- A call: what it asks for, and the clockwork it draws from. -/
structure Creation where
  clock : Clockwork
  draft : Draft
deriving DecidableEq, Repr, Inhabited

namespace Creation

def id (call : Creation) : String := (call.clock.draw .conversation).1

def conversation (call : Creation) : Conversation :=
  call.draft.conversation call.id (call.clock.draw .conversation).2.read.1

end Creation

variable {call : Creation}

def create (s : MemoryStore) (call : Creation) : Except Store.Error Conversation × MemoryStore :=
  ((s.createConversation call.clock call.draft).1, (s.createConversation call.clock call.draft).2.1)

def adding (s : MemoryStore) (call : Creation) : MemoryStore :=
  { s.enrol call.id call.draft.people with conversations := s.conversations ++ [call.conversation] }

theorem create_eq (s : MemoryStore) (call : Creation) :
    s.create call =
      match s.objection call.draft with
      | some e => (.error e, s)
      | none => (.ok call.conversation, s.adding call) := by
  simp only [create, createConversation]
  cases s.objection call.draft with
  | some e => rfl
  | none =>
    simp only [adding]
    rw [← conversations_enrol s call.id call.draft.people]
    rfl

@[simp]
theorem conversations_adding : (s.adding call).conversations = s.conversations ++ [call.conversation] := rfl

theorem members_adding_of_ne {room : String} (h : room ≠ call.id) :
    (s.adding call).members room = s.members room :=
  members_enrol_of_ne s call.draft.people h

theorem members_adding (h : s.members call.id = ∅) :
    (s.adding call).members call.id = call.draft.members := by
  rw [show (s.adding call).members call.id = (s.enrol call.id call.draft.people).members call.id from rfl,
    members_enrol, h, Finset.empty_union, Draft.toFinset_people]

theorem adding_eq (s : MemoryStore) (call : Creation) :
    s.adding call =
      { s with conversations := (s.adding call).conversations, participants := (s.adding call).participants } := by
  simp only [adding]
  rw [enrol_eq]

/-! ### The invariant -/

/-- The conversations and the memberships fit together. -/
structure Consistent (s : MemoryStore) : Prop where
  available : s.available = true
  distinct : (s.conversations.map (·.id)).Nodup
  /-- Every membership is of a conversation that is listed. -/
  rooted : ∀ p ∈ s.participants, ∃ c ∈ s.conversations, c.id = p.1
  /-- A direct conversation has two members, its creator among them. -/
  pair : ∀ c ∈ s.conversations, c.isGroup = false → (s.members c.id).card = 2 ∧ c.createdBy ∈ s.members c.id
  /-- No two direct conversations have the same members. -/
  apart : ∀ c ∈ s.conversations, ∀ c' ∈ s.conversations, c.isGroup = false → c'.isGroup = false →
    s.members c.id = s.members c'.id → c = c'

theorem consistent_empty : Consistent {} where
  available := rfl
  distinct := List.nodup_nil
  rooted := by simp
  pair := by simp
  apart := by simp

/-- There is a direct conversation of the people of a draft. -/
def HasDirect (s : MemoryStore) (d : Draft) : Prop :=
  ∃ c ∈ s.conversations, c.isGroup = false ∧ s.members c.id = d.members

theorem Consistent.members_eq_pair (h : s.Consistent) (hc : c ∈ s.conversations) (hdirect : c.isGroup = false)
    {a b : String} (hab : a ≠ b) (ha : a ∈ s.members c.id) (hb : b ∈ s.members c.id) : s.members c.id = {a, b} := by
  symm
  apply Finset.eq_of_subset_of_card_le
  · exact Finset.insert_subset ha (Finset.singleton_subset_iff.mpr hb)
  · rw [(h.pair c hc hdirect).1, Finset.card_pair hab]

theorem Consistent.members_eq_empty (h : s.Consistent) (fresh : ∀ c ∈ s.conversations, c.id ≠ call.id) :
    s.members call.id = ∅ := by
  refine Finset.eq_empty_of_forall_notMem fun user hmem => ?_
  obtain ⟨c, hc, hid⟩ := h.rooted _ (mem_members.mp hmem)
  exact fresh c hc hid

/-! ### When a call is refused -/

theorem Consistent.haveDirect_iff_hasDirect (h : s.Consistent) (hcard : d.others.card = 1) :
    s.haveDirect d.creator d.other = true ↔ s.HasDirect d := by
  rw [haveDirect_iff, HasDirect, Draft.members_of_card_one hcard]
  constructor
  · rintro ⟨c, hc, hdirect, hcreator, hother⟩
    exact ⟨c, hc, hdirect, h.members_eq_pair hc hdirect (Draft.creator_ne_other hcard) hcreator hother⟩
  · rintro ⟨c, hc, hdirect, hmembers⟩
    exact ⟨c, hc, hdirect, by simp [hmembers], by simp [hmembers]⟩

theorem objection_of_available (h : s.available = true) (d : Draft) :
    s.objection d = if d.isGroup = true then none else if d.others.card ≠ 1 then some .notDirect
      else if s.haveDirect d.creator d.other = true then some .directExists else none := by
  simp only [objection, h, Bool.not_true, Bool.false_eq_true, if_false]
  by_cases hcard : d.others.card = 1
  · simp [Draft.otherParticipants_of_card_one hcard, hcard]
  · simp only [ne_eq, hcard, not_false_eq_true, if_true]
    split
    · rfl
    · split
      · rename_i other hlist
        rw [← length_otherParticipants, hlist] at hcard
        exact absurd rfl hcard
      · rfl

theorem Consistent.objection_of_card_one (h : s.Consistent) (hdirect : d.isGroup = false) (hcard : d.others.card = 1)
    [Decidable (s.HasDirect d)] :
    s.objection d = if s.HasDirect d then some .directExists else none := by
  simp [objection_of_available h.available, hdirect, hcard, h.haveDirect_iff_hasDirect hcard]

theorem Consistent.objection_of_card_ne_one (h : s.Consistent) (hdirect : d.isGroup = false)
    (hcard : d.others.card ≠ 1) : s.objection d = some .notDirect := by
  simp [objection_of_available h.available, hdirect, hcard]

theorem Consistent.objection_of_group (h : s.Consistent) (hgroup : d.isGroup = true) : s.objection d = none := by
  simp [objection_of_available h.available, hgroup]

theorem Consistent.objection_notDirect (h : s.Consistent) :
    s.objection d = some .notDirect ↔ d.isGroup = false ∧ d.others.card ≠ 1 := by
  classical
  constructor
  · intro hobj
    cases hgroup : d.isGroup with
    | true => simp [h.objection_of_group hgroup] at hobj
    | false =>
      refine ⟨rfl, fun hcard => ?_⟩
      rw [h.objection_of_card_one hgroup hcard] at hobj
      split_ifs at hobj
      exact absurd hobj (by decide)
  · rintro ⟨hdirect, hcard⟩
    exact h.objection_of_card_ne_one hdirect hcard

theorem Consistent.objection_directExists (h : s.Consistent) :
    s.objection d = some .directExists ↔ d.isGroup = false ∧ d.others.card = 1 ∧ s.HasDirect d := by
  classical
  constructor
  · intro hobj
    cases hgroup : d.isGroup with
    | true => simp [h.objection_of_group hgroup] at hobj
    | false =>
      have hcard : d.others.card = 1 := by
        by_contra hcard
        rw [h.objection_of_card_ne_one hgroup hcard] at hobj
        exact absurd hobj (by decide)
      rw [h.objection_of_card_one hgroup hcard] at hobj
      split_ifs at hobj with hhas
      exact ⟨rfl, hcard, hhas⟩
  · rintro ⟨hdirect, hcard, hhas⟩
    rw [h.objection_of_card_one hdirect hcard, if_pos hhas]

/-- Nothing else stands against a call. -/
theorem Consistent.objection_cases (h : s.Consistent) (d : Draft) :
    s.objection d = none ∨ s.objection d = some .notDirect ∨ s.objection d = some .directExists := by
  classical
  cases hgroup : d.isGroup with
  | true => exact .inl (h.objection_of_group hgroup)
  | false =>
    by_cases hcard : d.others.card = 1
    · rw [h.objection_of_card_one hgroup hcard]
      split_ifs
      · exact .inr (.inr rfl)
      · exact .inl rfl
    · exact .inr (.inl (h.objection_of_card_ne_one hgroup hcard))

/-! ### A call keeps the invariant -/

theorem members_adding_of_mem (fresh : ∀ c ∈ s.conversations, c.id ≠ call.id) (hc : c ∈ s.conversations) :
    (s.adding call).members c.id = s.members c.id :=
  members_adding_of_ne (fresh c hc)

section Adding

variable (h : s.Consistent) (fresh : ∀ c ∈ s.conversations, c.id ≠ call.id)
include h fresh

theorem Consistent.members_adding_new :
    (s.adding call).members call.id = call.draft.members :=
  members_adding (h.members_eq_empty fresh)

/-- A new direct conversation has members that no other direct conversation has. -/
theorem Consistent.members_ne_of_objection_none (hnone : s.objection call.draft = none)
    (hdirect : call.draft.isGroup = false) (hc : c ∈ s.conversations) (hc' : c.isGroup = false) :
    (s.adding call).members c.id ≠ (s.adding call).members call.id := by
  classical
  rw [members_adding_of_mem fresh hc, h.members_adding_new fresh]
  intro heq
  by_cases hcard : call.draft.others.card = 1
  · have hobj := h.objection_directExists.mpr ⟨hdirect, hcard, c, hc, hc', heq⟩
    rw [hnone] at hobj
    cases hobj
  · have hobj := h.objection_of_card_ne_one hdirect hcard
    rw [hnone] at hobj
    cases hobj

theorem Consistent.adding (hnone : s.objection call.draft = none) : (s.adding call).Consistent where
  available := by rw [adding_eq]; exact h.available
  distinct := by
    rw [conversations_adding, List.map_append, List.nodup_append]
    refine ⟨h.distinct, List.nodup_singleton _, ?_⟩
    simp only [List.mem_map]
    rintro _ ⟨c, hc, rfl⟩ _ ⟨c', hc', rfl⟩
    rw [List.mem_singleton.mp hc']
    exact fresh c hc
  rooted := by
    intro p hp
    rcases (mem_participants_enrol s call.id call.draft.people).mp hp with hp | ⟨hroom, -⟩
    · obtain ⟨c, hc, hid⟩ := h.rooted p hp
      exact ⟨c, List.mem_append_left _ hc, hid⟩
    · exact ⟨call.conversation, by simp, hroom.symm⟩
  pair := by
    intro c hc hdirect
    rcases List.mem_append.mp hc with hc | hc
    · rw [members_adding_of_mem fresh hc]
      exact h.pair c hc hdirect
    · obtain rfl := List.mem_singleton.mp hc
      have hcard : call.draft.others.card = 1 := by
        by_contra hcard
        rw [h.objection_of_card_ne_one hdirect hcard] at hnone
        cases hnone
      rw [show call.conversation.id = call.id from rfl, h.members_adding_new fresh]
      exact ⟨Draft.card_members_of_card_one hcard, Finset.mem_insert_self _ _⟩
  apart := by
    intro c hc c' hc' hdirect hdirect' heq
    rcases List.mem_append.mp hc with hc | hc <;> rcases List.mem_append.mp hc' with hc' | hc'
    · rw [members_adding_of_mem fresh hc, members_adding_of_mem fresh hc'] at heq
      exact h.apart c hc c' hc' hdirect hdirect' heq
    · obtain rfl := List.mem_singleton.mp hc'
      exact absurd heq (h.members_ne_of_objection_none fresh hnone hdirect' hc hdirect)
    · obtain rfl := List.mem_singleton.mp hc
      exact absurd heq.symm (h.members_ne_of_objection_none fresh hnone hdirect hc' hdirect')
    · rw [List.mem_singleton.mp hc, List.mem_singleton.mp hc']

theorem Consistent.create : (s.create call).2.Consistent := by
  rw [create_eq]
  cases hobj : s.objection call.draft with
  | some e => exact h
  | none => exact h.adding fresh hobj

end Adding

/-! ### What a call answers -/

/-- The store `s'` is the store `s` with exactly the conversation that the call asks for, of its creator
and the others. -/
structure Adds (s : MemoryStore) (call : Creation) (s' : MemoryStore) : Prop where
  listed : s'.conversations = s.conversations ++ [call.conversation]
  members : s'.members call.id = call.draft.members
  elsewhere : ∀ room, room ≠ call.id → s'.members room = s.members room
  rest : s'.profiles = s.profiles ∧ s'.messages = s.messages ∧ s'.available = s.available

/-- What a call answers on a store, and what it leaves there. -/
structure Answers (s : MemoryStore) (call : Creation) : Prop where
  invalid : (s.create call).1 = .error .notDirect ↔ call.draft.isGroup = false ∧ call.draft.others.card ≠ 1
  conflict : (s.create call).1 = .error .directExists ↔
    call.draft.isGroup = false ∧ call.draft.others.card = 1 ∧ s.HasDirect call.draft
  /-- A call that fails, fails in one of these two ways and leaves the store as it was. -/
  refused : ∀ e, (s.create call).1 = .error e → (e = .notDirect ∨ e = .directExists) ∧ (s.create call).2 = s
  added : ∀ c, (s.create call).1 = .ok c → c = call.conversation ∧ s.Adds call (s.create call).2

theorem Consistent.answers (h : s.Consistent) (fresh : ∀ c ∈ s.conversations, c.id ≠ call.id) : s.Answers call := by
  have herror : ∀ e, (s.create call).1 = .error e ↔ s.objection call.draft = some e := by
    intro e
    rw [create_eq]
    cases s.objection call.draft <;> simp
  constructor
  case invalid => rw [herror, h.objection_notDirect]
  case conflict => rw [herror, h.objection_directExists]
  case refused =>
    intro e he
    rw [herror] at he
    refine ⟨?_, by rw [create_eq, he]⟩
    rcases h.objection_cases call.draft with hobj | hobj | hobj <;> simp_all
  case added =>
    intro c hc
    rw [create_eq] at hc ⊢
    cases hobj : s.objection call.draft with
    | some e => simp [hobj] at hc
    | none =>
      simp only [hobj, Except.ok.injEq] at hc ⊢
      refine ⟨hc.symm, rfl, h.members_adding_new fresh, fun room => members_adding_of_ne, ?_⟩
      rw [adding_eq]
      exact ⟨rfl, rfl, rfl⟩

/-! ### Every sequence of calls -/

def after (calls : List Creation) : MemoryStore := calls.foldl (fun s call => (s.create call).2) {}

theorem after_append_singleton (calls : List Creation) (call : Creation) :
    after (calls ++ [call]) = ((after calls).create call).2 := by
  simp [after]

/-- No call draws the identifier of a conversation that is there already. A call that is refused draws none,
so the next one may draw what it would have drawn. -/
def Fresh (calls : List Creation) : Prop :=
  ∀ k (_ : k < calls.length), ∀ c ∈ (after (calls.take k)).conversations, c.id ≠ (calls[k]).id

instance (calls : List Creation) : Decidable (Fresh calls) :=
  inferInstanceAs (Decidable (∀ k (_ : k < calls.length), ∀ c ∈ _, _))

theorem Fresh.take {calls : List Creation} (fresh : Fresh calls) (k : Nat) : Fresh (calls.take k) := by
  intro j hj
  rw [List.length_take] at hj
  have hjk : min j k = j := by omega
  simpa [List.take_take, hjk] using fresh j (by omega)

/-- The conversations stand in the order of the calls that made them. -/
theorem conversations_after_sublist (calls : List Creation) :
    ((after calls).conversations).Sublist (calls.map (·.conversation)) := by
  induction calls using List.reverseRecOn with
  | nil => exact List.Sublist.refl _
  | append_singleton calls call ih =>
    rw [after_append_singleton, create_eq, List.map_append]
    cases (after calls).objection call.draft with
    | some e => exact ih.trans (List.sublist_append_left _ _)
    | none => exact ih.append_right _

theorem consistent_after (calls : List Creation) (fresh : Fresh calls) : (after calls).Consistent := by
  induction calls using List.reverseRecOn with
  | nil => exact consistent_empty
  | append_singleton calls call ih =>
    have hbefore : Fresh calls := by simpa using fresh.take calls.length
    have hcall : ∀ c ∈ (after calls).conversations, c.id ≠ call.id := by
      simpa using fresh calls.length (by simp)
    rw [after_append_singleton]
    exact (ih hbefore).create hcall

/-- A list of a person's conversations: all of them, each once, the newest first. -/
structure ListsAll (calls : List Creation) (user : String) (mine : List Conversation) : Prop where
  all : ∀ c, c ∈ mine ↔ c ∈ (after calls).conversations ∧ user ∈ (after calls).members c.id
  once : (mine.map (·.id)).Nodup
  newest : mine.Sublist (calls.map (·.conversation)).reverse

theorem conversationsFor_after (calls : List Creation) (fresh : Fresh calls) (user : String) (limit : Int) :
    ∃ mine, ListsAll calls user mine ∧ (after calls).conversationsFor user limit = .ok (mine.take limit.toNat) := by
  have h := consistent_after calls fresh
  refine ⟨(after calls).conversations.reverse.filter fun c => (after calls).takesPart c.id user, ?_, ?_⟩
  · refine ⟨fun c => by simp [takesPart_iff], ?_, ?_⟩
    · have hrev : (((after calls).conversations.reverse).map (·.id)).Nodup := by
        rw [List.map_reverse, List.nodup_reverse]
        exact h.distinct
      exact hrev.sublist (List.filter_sublist.map _)
    · exact List.filter_sublist.trans (conversations_after_sublist calls).reverse
  · simp [conversationsFor, whenAvailable, h.available, rows]

/-- **The conversations of the store.** Take any calls that create conversations, from the empty store, none
of which draws an identifier that is taken. Every call is answered as `Answers` says, on the store that the
calls before it left; the store that all of them leave is consistent; and what it lists for a person under a
limit is the first so many of that person's conversations, each once, the newest first. -/
theorem conversations_consistent (calls : List Creation) (fresh : Fresh calls) :
    (∀ k (_ : k < calls.length), (after (calls.take k)).Answers calls[k]) ∧
    (after calls).Consistent ∧
    ∀ user limit, ∃ mine, ListsAll calls user mine ∧
      (after calls).conversationsFor user limit = .ok (mine.take limit.toNat) := by
  refine ⟨fun k hk => ?_, consistent_after calls fresh, conversationsFor_after calls fresh⟩
  exact (consistent_after _ (fresh.take k)).answers (fresh k hk)

/-- A direct conversation, a second one of the same two, which is refused, and a group; each call draws from
the clockwork that the one before left. -/
def threeCalls : List Creation :=
  [⟨{}, ⟨none, false, "u1", ["", "u1", "u2", "u2"]⟩⟩,
    ⟨{ supply := { drawn := 1 } }, ⟨none, false, "u2", ["u1"]⟩⟩,
    ⟨{ supply := { drawn := 1 } }, ⟨some "g", true, "u1", ["u2", "u3"]⟩⟩]

theorem conversations_consistent_threeCalls :
    Fresh threeCalls ∧ (after threeCalls).Consistent ∧ (after threeCalls).conversations.length = 2 :=
  have fresh : Fresh threeCalls := by decide +kernel
  ⟨fresh, (conversations_consistent threeCalls fresh).2.1, by decide +kernel⟩

end Parley.MemoryStore
