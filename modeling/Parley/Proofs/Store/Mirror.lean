import Mathlib.Logic.Equiv.Basic
import Parley.Hub.Registry
import Parley.Proofs.Store.Alone
import Parley.Proofs.Store.Conversations
import Parley.Proofs.Store.Newest

/-!
# One store as the mirror of the other

The store in memory keeps lists in the order in which things came, the relational one tables that it
sorts and joins. `Mirrors ρ s t` says that the tables hold what the store in memory holds, row for
row, under other identifiers: `ρ` takes the identifiers of the one to those of the other. What is
looked up is then the same on both (`Mirrors.list`, `Mirrors.recent`, `Mirrors.objection`), provided
that the rows came in order of time (`MemoryStore.Orderly`), and what is written keeps the mirror.
-/

namespace Parley

/-! ### Other identifiers -/

def Conversation.rename (ρ : String → String) (c : Conversation) : Conversation := { c with id := ρ c.id }

def MessageRow.rename (ρ : String → String) (m : MessageRow) : MessageRow := { m with id := ρ m.id, room := ρ m.room }

def Message.rename (ρ : String → String) (m : Message) : Message := { m with row := m.row.rename ρ }

/-! ### Memberships of a new room -/

namespace MemoryStore

open Store

variable {s : MemoryStore} {room user : String}

theorem participants_enrol {users : List String} (hnodup : users.Nodup)
    (hnew : ∀ user ∈ users, (room, user) ∉ s.participants) :
    (s.enrol room users).participants = s.participants ++ users.map fun user => (room, user) := by
  induction users generalizing s with
  | nil => simp [enrol]
  | cons user users ih =>
    obtain ⟨hnotin, hnodup⟩ := List.nodup_cons.mp hnodup
    have hadd : (s.addParticipant room user).participants = s.participants ++ [(room, user)] := by
      simp [addParticipant, hnew user List.mem_cons_self]
    have hrest : ∀ other ∈ users, (room, other) ∉ (s.addParticipant room user).participants := by
      intro other hother hmem
      rw [hadd, List.mem_append, List.mem_singleton, Prod.mk.injEq] at hmem
      rcases hmem with hmem | ⟨-, rfl⟩
      · exact hnew other (List.mem_cons_of_mem _ hother) hmem
      · exact hnotin hother
    rw [show s.enrol room (user :: users) = (s.addParticipant room user).enrol room users from rfl, ih hnodup hrest,
      hadd, List.append_assoc, List.map_cons]
    rfl

/-! ### Order -/

/-- Every row is older than a time. -/
structure Older (s : MemoryStore) (time : Timestamp) : Prop where
  conversations : ∀ c ∈ s.conversations, c.createdAt.micros < time.micros
  messages : ∀ m ∈ s.messages, m.createdAt.micros < time.micros

/-- The store is consistent, and its rows came in order of time. -/
structure Orderly (s : MemoryStore) : Prop where
  consistent : s.Consistent
  memberships : s.participants.Nodup
  conversations : Tables.ConversationsInOrder s.conversations
  messages : Tables.MessagesInOrder s.messages

theorem orderly_empty : Orderly {} where
  consistent := consistent_empty
  memberships := List.nodup_nil
  conversations := List.Pairwise.nil
  messages := List.Pairwise.nil

def insertMessage (s : MemoryStore) (row : MessageRow) : MemoryStore := { s with messages := s.messages ++ [row] }

theorem Orderly.setProfile (h : s.Orderly) (user : String) (p : Profile) : (s.setProfile user p).Orderly where
  consistent := ⟨h.consistent.available, h.consistent.distinct, h.consistent.rooted, h.consistent.pair,
    h.consistent.apart⟩
  memberships := h.memberships
  conversations := h.conversations
  messages := h.messages

theorem Orderly.insertMessage (h : s.Orderly) {row : MessageRow} (hold : s.Older row.createdAt) :
    (s.insertMessage row).Orderly where
  consistent := ⟨h.consistent.available, h.consistent.distinct, h.consistent.rooted, h.consistent.pair,
    h.consistent.apart⟩
  memberships := h.memberships
  conversations := h.conversations
  messages := by
    refine List.pairwise_append.mpr ⟨h.messages, List.pairwise_singleton _ _, fun m hm m' hm' => ?_⟩
    rw [List.mem_singleton.mp hm']
    exact hold.messages m hm

section Adding

variable {call : Creation} (h : s.Orderly) (fresh : ∀ c ∈ s.conversations, c.id ≠ call.id)
include h fresh

theorem Orderly.participants_adding :
    (s.adding call).participants = s.participants ++ call.draft.people.map fun user => (call.id, user) := by
  refine participants_enrol call.draft.nodup_people fun user _ hmem => ?_
  obtain ⟨c, hc, hid⟩ := h.consistent.rooted _ hmem
  exact fresh c hc hid

theorem Orderly.adding (hnone : s.objection call.draft = none) (hold : s.Older call.conversation.createdAt) :
    (s.adding call).Orderly where
  consistent := h.consistent.adding fresh hnone
  memberships := by
    rw [h.participants_adding fresh]
    refine List.nodup_append.mpr ⟨h.memberships, ?_, ?_⟩
    · exact call.draft.nodup_people.map fun _ _ heq => (Prod.mk.inj heq).2
    · rintro _ hmem _ hnew rfl
      obtain ⟨user, -, rfl⟩ := List.mem_map.mp hnew
      obtain ⟨c, hc, hid⟩ := h.consistent.rooted _ hmem
      exact fresh c hc hid
  conversations := by
    rw [conversations_adding]
    refine List.pairwise_append.mpr ⟨h.conversations, List.pairwise_singleton _ _, fun c hc c' hc' => ?_⟩
    rw [List.mem_singleton.mp hc']
    exact hold.conversations c hc
  messages := by
    rw [adding_eq]
    exact h.messages

end Adding

end MemoryStore

/-! ### The mirror -/

namespace Store

open MemoryStore Tables

variable {ρ : Equiv.Perm String} {s : MemoryStore} {t : Tables} {room user : String}

/-- The tables hold what the store in memory holds, under other identifiers. -/
structure Mirrors (ρ : Equiv.Perm String) (s : MemoryStore) (t : Tables) : Prop where
  profiles : ∀ user, t.users.lookup user = s.profiles.lookup user
  conversations : t.conversations = s.conversations.map (·.rename ρ)
  participants : t.participants = s.participants.map fun p => (ρ p.1, p.2)
  messages : t.messages = s.messages.map (·.rename ρ)

namespace Mirrors

theorem empty (ρ : Equiv.Perm String) : Mirrors ρ {} {} := ⟨fun _ => rfl, rfl, rfl, rfl⟩

section Lookups

variable (h : Mirrors ρ s t)
include h

theorem mem_participants : (ρ room, user) ∈ t.participants ↔ (room, user) ∈ s.participants := by
  rw [h.participants, List.mem_map]
  constructor
  · rintro ⟨⟨room', user'⟩, hp, heq⟩
    obtain ⟨hroom, rfl⟩ := Prod.mk.inj heq
    rwa [← ρ.injective hroom]
  · exact fun hp => ⟨_, hp, rfl⟩

theorem takesPart : t.participants.contains (ρ room, user) = s.takesPart room user := by
  rw [Bool.eq_iff_iff, List.contains_iff_mem, h.mem_participants, takesPart_iff, mem_members]

theorem hasConversation {c : Conversation} (hc : c ∈ s.conversations) : t.hasConversation (ρ c.id) = true := by
  rw [Tables.hasConversation, h.conversations, List.any_map]
  exact List.any_eq_true.mpr ⟨c, hc, beq_self_eq_true _⟩

theorem withAuthor (row : MessageRow) : t.withAuthor (row.rename ρ) = (s.withAuthor row).rename ρ := by
  simp only [Tables.withAuthor, MemoryStore.withAuthor, Message.rename, Tables.profile?, MemoryStore.profile,
    MessageRow.rename, h.profiles]

theorem directs_eq_nil {a b : String} : t.directs a b = [] ↔ s.haveDirect a b = false := by
  rw [Bool.eq_false_iff, Ne, MemoryStore.haveDirect_iff, List.eq_nil_iff_forall_not_mem, not_exists]
  simp only [mem_directs, h.conversations, List.mem_map, MemoryStore.mem_members]
  constructor
  · rintro hnone c ⟨hc, hdirect, ha, hb⟩
    exact hnone (c.rename ρ) ⟨⟨c, hc, rfl⟩, hdirect, h.mem_participants.mpr ha, h.mem_participants.mpr hb⟩
  · rintro hnone _ ⟨⟨c, hc, rfl⟩, hdirect, ha, hb⟩
    exact hnone c ⟨hc, hdirect, h.mem_participants.mp ha, h.mem_participants.mp hb⟩

theorem objection (hs : s.Orderly) (call : Call) : call.objection t = s.objection call.draft := by
  classical
  cases hgroup : call.draft.isGroup with
  | true => rw [Call.objection, if_pos hgroup, hs.consistent.objection_of_group hgroup]
  | false =>
    rw [Call.objection, if_neg (by simp [hgroup])]
    by_cases hcard : call.draft.others.card = 1
    · rw [if_neg (by simpa using hcard), hs.consistent.objection_of_card_one hgroup hcard,
        ← hs.consistent.haveDirect_iff_hasDirect hcard]
      cases hhave : s.haveDirect call.draft.creator call.draft.other with
      | true => simp [h.directs_eq_nil, hhave]
      | false => simp [h.directs_eq_nil, hhave]
    · rw [if_pos hcard, hs.consistent.objection_of_card_ne_one hgroup hcard]

theorem list (hs : s.Orderly) (limit : Int) :
    t.list user limit =
      ((s.conversations.reverse.filter fun c => s.takesPart c.id user).take (rows limit)).map (·.rename ρ) := by
  have horder : ConversationsInOrder t.conversations := by
    rw [h.conversations]
    exact hs.conversations.map _ fun _ _ hlt => hlt
  have hnodup : t.participants.Nodup := by
    rw [h.participants]
    refine hs.memberships.map fun p q heq => ?_
    obtain ⟨hroom, huser⟩ := Prod.mk.inj heq
    exact Prod.ext (ρ.injective hroom) huser
  rw [list_eq horder hnodup, h.conversations, ← List.map_reverse, List.filter_map, ← List.map_take]
  congr 3
  funext c
  exact h.takesPart

theorem recent (hs : s.Orderly) (limit : Int) :
    (t.recent (ρ room) limit).reverse =
      (((s.ofRoom room).drop ((s.ofRoom room).length - rows limit)).map s.withAuthor).map (·.rename ρ) := by
  have horder : MessagesInOrder t.messages := by
    rw [h.messages]
    exact hs.messages.map _ fun _ _ hlt => hlt
  have hroom : t.messages.filter (·.room == ρ room) = (s.ofRoom room).map (·.rename ρ) := by
    rw [h.messages, List.filter_map, ofRoom]
    congr 2
    funext m
    simp [MessageRow.rename]
  rw [recent_eq horder, hroom, List.length_map, ← List.map_drop, List.map_map, List.map_map]
  exact List.map_congr_left fun m _ => h.withAuthor m

end Lookups

section Writes

variable (h : Mirrors ρ s t)
include h

theorem setProfile (user : String) (p : Profile) : Mirrors ρ (s.setProfile user p) (t.setProfile user p) where
  profiles other := by
    simp only [Tables.setProfile, MemoryStore.setProfile, List.lookup_append]
    by_cases hother : other = user
    · subst hother
      simp [Hub.Registry.lookup_filter_self]
    · rw [Hub.Registry.lookup_filter_of_ne _ hother, List.lookup_cons, List.lookup_cons, beq_false_of_ne hother,
        Hub.Registry.lookup_filter_of_ne _ hother, h.profiles]
      simp
  conversations := h.conversations
  participants := h.participants
  messages := h.messages

theorem insertMessage (row : MessageRow) : Mirrors ρ (s.insertMessage row) (t.insertMessage (row.rename ρ)) where
  profiles := h.profiles
  conversations := h.conversations
  participants := h.participants
  messages := by
    rw [Tables.insertMessage, MemoryStore.insertMessage, h.messages, List.map_append]
    rfl

theorem adding (hs : s.Orderly) {creation : Creation} (fresh : ∀ c ∈ s.conversations, c.id ≠ creation.id) {call : Call}
    (hrow : call.row = creation.conversation.rename ρ) (hdraft : call.draft = creation.draft) :
    Mirrors ρ (s.adding creation) (call.commit t) where
  profiles user := by
    rw [adding_eq, Call.commit, Tables.append]
    simpa using h.profiles user
  conversations := by
    rw [conversations_adding, Call.commit, Tables.append, h.conversations, List.map_append, hrow]
    rfl
  participants := by
    have hid : call.id = ρ creation.id := congrArg Conversation.id hrow
    rw [hs.participants_adding fresh, Call.commit, Tables.append, h.participants, List.map_append, Call.enrolments, hid,
      hdraft, List.map_map]
    rfl
  messages := by
    rw [adding_eq, Call.commit, Tables.append]
    simpa using h.messages

end Writes

end Mirrors

end Store

end Parley
