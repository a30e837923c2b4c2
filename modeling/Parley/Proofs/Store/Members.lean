import Mathlib.Data.Finset.Card
import Mathlib.Data.Finset.Insert
import Mathlib.Data.List.Nodup
import Parley.Store.Memory

/-!
# Who takes part, as sets

The store keeps its memberships as a list of pairs and a draft names its participants as a list.
What matters of either is a set: `Draft.others d` of the people a draft names besides its creator,
`Draft.members d` with the creator, `MemoryStore.members s room` of the people who take part in a room.
The lemmas here read the lists as these sets: `otherParticipants` lists each of the others once,
`takesPart` is membership, and enrolling people adds them to one room and to no other.
-/

namespace Parley

namespace Store

/-! ### The others of a draft -/

def Draft.others (d : Draft) : Finset String := d.participants.toFinset.filter fun p => p ≠ "" ∧ p ≠ d.creator

theorem Draft.mem_others {d : Draft} {p : String} : p ∈ d.others ↔ p ∈ d.participants ∧ p ≠ "" ∧ p ≠ d.creator := by
  simp [others]

theorem Draft.creator_notMem_others (d : Draft) : d.creator ∉ d.others := by
  simp [mem_others]

/-- One name of the list: passed over when it is empty, the creator's, or there already. -/
def addOther (creator : String) (found : List String) (p : String) : List String :=
  if p == "" || p == creator || found.contains p then found else p :: found

theorem mem_addOther {creator p q : String} {found : List String} :
    q ∈ addOther creator found p ↔ q ∈ found ∨ q = p ∧ q ≠ "" ∧ q ≠ creator := by
  simp only [addOther, Bool.or_eq_true, beq_iff_eq, List.contains_iff_mem]
  split_ifs with h
  · refine ⟨.inl, fun hq => hq.elim id ?_⟩
    rintro ⟨rfl, hempty, hcreator⟩
    exact (h.resolve_left fun h => h.elim hempty hcreator)
  · simp only [not_or] at h
    rw [List.mem_cons, or_comm]
    refine or_congr_right ⟨?_, fun hq => hq.1⟩
    rintro rfl
    exact ⟨rfl, h.1⟩

theorem nodup_addOther {creator p : String} {found : List String} (h : found.Nodup) :
    (addOther creator found p).Nodup := by
  simp only [addOther, Bool.or_eq_true, List.contains_iff_mem]
  split_ifs with hp
  · exact h
  · exact List.nodup_cons.mpr ⟨fun hmem => hp (.inr hmem), h⟩

theorem mem_foldl_addOther {creator q : String} (ps found : List String) :
    q ∈ ps.foldl (addOther creator) found ↔ q ∈ found ∨ q ∈ ps ∧ q ≠ "" ∧ q ≠ creator := by
  induction ps generalizing found with
  | nil => simp
  | cons p ps ih =>
    rw [List.foldl_cons, ih, mem_addOther, or_assoc, List.mem_cons, or_and_right]

theorem nodup_foldl_addOther {creator : String} (ps : List String) {found : List String} (h : found.Nodup) :
    (ps.foldl (addOther creator) found).Nodup := by
  induction ps generalizing found with
  | nil => exact h
  | cons p ps ih => exact ih (nodup_addOther h)

theorem otherParticipants_eq (creator : String) (ps : List String) :
    otherParticipants creator ps = (ps.foldl (addOther creator) []).reverse := rfl

theorem nodup_otherParticipants (creator : String) (ps : List String) : (otherParticipants creator ps).Nodup := by
  rw [otherParticipants_eq, List.nodup_reverse]
  exact nodup_foldl_addOther ps List.nodup_nil

theorem toFinset_otherParticipants (d : Draft) : (otherParticipants d.creator d.participants).toFinset = d.others := by
  ext q
  rw [List.mem_toFinset, otherParticipants_eq, List.mem_reverse, mem_foldl_addOther, Draft.mem_others]
  simp

theorem length_otherParticipants (d : Draft) : (otherParticipants d.creator d.participants).length = d.others.card := by
  rw [← toFinset_otherParticipants, List.toFinset_card_of_nodup (nodup_otherParticipants _ _)]

/-! ### The people of a draft -/

namespace Draft

variable {d : Draft} {p : String}

def people (d : Draft) : List String := d.creator :: otherParticipants d.creator d.participants

def members (d : Draft) : Finset String := insert d.creator d.others

/-- The first of the people that a draft names besides its creator. -/
def other (d : Draft) : String := (otherParticipants d.creator d.participants).headD ""

def conversation (d : Draft) (id : String) (createdAt : Timestamp) : Conversation where
  id := id
  title := d.title
  isGroup := d.isGroup
  createdBy := d.creator
  createdAt := createdAt

@[simp]
theorem id_conversation (id : String) (createdAt : Timestamp) : (d.conversation id createdAt).id = id := rfl

theorem toFinset_people (d : Draft) : d.people.toFinset = d.members := by
  rw [people, List.toFinset_cons, toFinset_otherParticipants, members]

theorem mem_people : p ∈ d.people ↔ p ∈ d.members := by
  rw [← toFinset_people, List.mem_toFinset]

theorem nodup_people (d : Draft) : d.people.Nodup := by
  rw [people, List.nodup_cons]
  refine ⟨fun hmem => d.creator_notMem_others ?_, nodup_otherParticipants _ _⟩
  rw [← toFinset_otherParticipants]
  exact List.mem_toFinset.mpr hmem

section OneOther

variable (h : d.others.card = 1)
include h

theorem otherParticipants_of_card_one : otherParticipants d.creator d.participants = [d.other] := by
  rw [← length_otherParticipants] at h
  obtain ⟨p, hp⟩ := List.length_eq_one_iff.mp h
  rw [other, hp]
  rfl

theorem others_of_card_one : d.others = {d.other} := by
  rw [← toFinset_otherParticipants, otherParticipants_of_card_one h]
  rfl

theorem creator_ne_other : d.creator ≠ d.other := by
  intro heq
  apply d.creator_notMem_others
  rw [others_of_card_one h, heq]
  exact Finset.mem_singleton_self _

theorem members_of_card_one : d.members = {d.creator, d.other} := by
  rw [members, others_of_card_one h]

theorem card_members_of_card_one : d.members.card = 2 := by
  rw [members_of_card_one h, Finset.card_pair (creator_ne_other h)]

end OneOther

end Draft

end Store

namespace MemoryStore

open Store

variable {s : MemoryStore} {room other user : String}

/-! ### The members of a room -/

def members (s : MemoryStore) (room : String) : Finset String :=
  ((s.participants.filter (·.1 == room)).map (·.2)).toFinset

@[simp]
theorem mem_members : user ∈ s.members room ↔ (room, user) ∈ s.participants := by
  simp [members]

theorem takesPart_iff : s.takesPart room user = true ↔ user ∈ s.members room := by
  simp [takesPart]

theorem haveDirect_iff {a b : String} :
    s.haveDirect a b = true ↔ ∃ c ∈ s.conversations, c.isGroup = false ∧ a ∈ s.members c.id ∧ b ∈ s.members c.id := by
  simp only [haveDirect, List.any_eq_true, Bool.and_eq_true, Bool.not_eq_true', takesPart_iff, and_assoc]

/-! ### Enrolling people -/

def enrol (s : MemoryStore) (room : String) (users : List String) : MemoryStore :=
  users.foldl (fun s user => s.addParticipant room user) s

theorem mem_participants_addParticipant {p : String × String} :
    p ∈ (s.addParticipant room user).participants ↔ p ∈ s.participants ∨ p = (room, user) := by
  simp only [addParticipant, List.contains_iff_mem]
  split_ifs with h
  · exact ⟨.inl, fun hp => hp.elim id fun e => e ▸ h⟩
  · simp

theorem mem_participants_enrol (s : MemoryStore) (room : String) (users : List String) {p : String × String} :
    p ∈ (s.enrol room users).participants ↔ p ∈ s.participants ∨ p.1 = room ∧ p.2 ∈ users := by
  induction users generalizing s with
  | nil => simp [enrol]
  | cons user users ih =>
    rw [show s.enrol room (user :: users) = (s.addParticipant room user).enrol room users from rfl, ih,
      mem_participants_addParticipant, or_assoc, List.mem_cons, and_or_left, Prod.ext_iff]

theorem members_enrol (s : MemoryStore) (room : String) (users : List String) :
    (s.enrol room users).members room = s.members room ∪ users.toFinset := by
  ext user
  simp [mem_participants_enrol]

theorem members_enrol_of_ne (s : MemoryStore) (users : List String) (h : other ≠ room) :
    (s.enrol room users).members other = s.members other := by
  ext user
  simp [mem_participants_enrol, h]

theorem enrol_eq (s : MemoryStore) (room : String) (users : List String) :
    s.enrol room users = { s with participants := (s.enrol room users).participants } := by
  induction users generalizing s with
  | nil => rfl
  | cons user users ih =>
    rw [show s.enrol room (user :: users) = (s.addParticipant room user).enrol room users from rfl, ih]
    simp only [addParticipant]
    split_ifs <;> rfl

@[simp]
theorem conversations_enrol (s : MemoryStore) (room : String) (users : List String) :
    (s.enrol room users).conversations = s.conversations := by
  rw [enrol_eq]

end MemoryStore

end Parley
