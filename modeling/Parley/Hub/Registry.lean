import Parley.Text.Utf8

/-!
Which connections are in which room. A room is there exactly as long as it has a connection, and a
connection stands in a room once.
-/

namespace Parley

/-- The number of a connection; no two connections of a service have the same. -/
abbrev ConnId := Nat

namespace Hub

structure Member where
  id : ConnId
  user : String
deriving DecidableEq, Repr, Inhabited

structure Registry where
  rooms : List (String × List Member) := []
deriving DecidableEq, Repr, Inhabited

namespace Registry

def members (r : Registry) (room : String) : List Member := (r.rooms.lookup room).getD []

/-- The registry with other members in a room; a room without any goes. -/
def setMembers (r : Registry) (room : String) (ms : List Member) : Registry :=
  let others := r.rooms.filter (·.1 != room)
  ⟨if ms.isEmpty then others else (room, ms) :: others⟩

theorem lookup_filter_of_ne {α : Type} (rooms : List (String × α)) {room other : String} (h : other ≠ room) :
    (rooms.filter (·.1 != room)).lookup other = rooms.lookup other := by
  induction rooms with
  | nil => rfl
  | cons p rooms ih =>
    obtain ⟨name, ms⟩ := p
    by_cases hn : name = room
    · have hne : (other == name) = false := by rw [hn]; exact beq_false_of_ne h
      rw [List.filter_cons_of_neg (by simp [hn]), List.lookup_cons, hne, ih]
    · rw [List.filter_cons_of_pos (by simpa using hn), List.lookup_cons, List.lookup_cons, ih]

theorem lookup_filter_self {α : Type} (rooms : List (String × α)) (room : String) :
    (rooms.filter (·.1 != room)).lookup room = none := by
  rw [List.lookup_eq_none_iff]
  intro p hp
  have hne : p.1 ≠ room := bne_iff_ne.1 (List.mem_filter.1 hp).2
  exact bne_iff_ne.2 hne.symm

@[simp] theorem members_setMembers (r : Registry) (room : String) (ms : List Member) :
    (r.setMembers room ms).members room = ms := by
  unfold setMembers members
  cases ms with
  | nil => simp [lookup_filter_self]
  | cons m ms => simp

theorem members_setMembers_of_ne (r : Registry) {room other : String} (ms : List Member) (h : other ≠ room) :
    (r.setMembers room ms).members other = r.members other := by
  have hne : (other == room) = false := by simpa using h
  unfold setMembers members
  cases ms with
  | nil => simp [lookup_filter_of_ne r.rooms h]
  | cons m ms => simp [List.lookup_cons, hne, lookup_filter_of_ne r.rooms h]

def contains (r : Registry) (room : String) (id : ConnId) : Bool := (r.members room).any (·.id == id)

def add (r : Registry) (room : String) (m : Member) : Registry :=
  r.setMembers room ((r.members room).filter (·.id != m.id) ++ [m])

/-- Removes a connection from a room, and tells whether it was there. -/
def remove (r : Registry) (room : String) (id : ConnId) : Bool × Registry :=
  (r.contains room id, r.setMembers room ((r.members room).filter (·.id != id)))

theorem mem_members_add (r : Registry) (room : String) (m x : Member) :
    x ∈ (r.add room m).members room ↔ x = m ∨ (x ∈ r.members room ∧ x.id ≠ m.id) := by
  simp only [add, members_setMembers, List.mem_append, List.mem_filter, bne_iff_ne, List.mem_singleton]
  exact or_comm

theorem mem_members_remove (r : Registry) (room : String) (id : ConnId) (x : Member) :
    x ∈ (r.remove room id).2.members room ↔ x ∈ r.members room ∧ x.id ≠ id := by
  simp [remove]

def snapshot (r : Registry) (room : String) : List ConnId := (r.members room).map (·.id)

def connectionCount (r : Registry) (room : String) : Nat := (r.members room).length

def roomCount (r : Registry) : Nat := r.rooms.length

def userConnected (r : Registry) (room user : String) : Bool := (r.members room).any (·.user == user)

end Registry

end Hub

end Parley
