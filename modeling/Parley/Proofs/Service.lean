import Parley.Deployment

/-!
What an operation on a service changes and what it leaves alone: the registries of the hubs, the
connections, the line to the broker. A later proof reads a service after a step through these lemmas
and does not open the operations.
-/

namespace Parley.Service

open Hub

variable (s : Service) (h g : Nat) (c d : ConnId)

/-! ### Connections -/

section Connections

variable (f : Connection → Connection)


@[simp] theorem size_updateConnection : (s.updateConnection c f).connections.size = s.connections.size := by
  simp [updateConnection]

theorem connection_updateConnection {c : ConnId} (hc : c < s.connections.size) :
    (s.updateConnection c f).connection c = f (s.connection c) := by
  simp [updateConnection, connection, Array.getElem_modify, hc]

theorem connection_updateConnection_of_ne {c d : ConnId} (h : d ≠ c) :
    (s.updateConnection c f).connection d = s.connection d := by
  simp [updateConnection, connection, Array.getElem?_modify, h.symm]

theorem updateConnection_of_size_le {c : ConnId} (hc : s.connections.size ≤ c) : s.updateConnection c f = s := by
  have he : s.connections.modify c f = s.connections := by
    refine Array.ext (by simp) fun i hi hi' => ?_
    rw [Array.getElem_modify, if_neg (by simp at hi; omega)]
  unfold updateConnection
  rw [he]

/-- A field that a change of one connection keeps is kept for all of them. -/
theorem field_updateConnection {α : Type} (field : Connection → α)
    (hf : field (f (s.connection c)) = field (s.connection c)) :
    field ((s.updateConnection c f).connection d) = field (s.connection d) := by
  by_cases hd : d = c
  · subst hd
    by_cases hs : d < s.connections.size
    · rw [connection_updateConnection s f hs, hf]
    · rw [updateConnection_of_size_le s f (Nat.le_of_not_lt hs)]
  · rw [connection_updateConnection_of_ne s f hd]

end Connections

/-! ### New connections -/

section Connect

variable (room user : String) (sink : Sink)

theorem connection_connect : let conn := (s.connect room user sink).2.connection s.connections.size
    conn.room = room ∧ conn.user = user ∧ conn.accepted = [] ∧ conn.closed = false ∧ conn.sights = [] := by
  simp [connect, connection]

theorem connection_connect_of_ne {c : ConnId} (h : c ≠ s.connections.size) :
    (s.connect room user sink).2.connection c = s.connection c := by
  simp [connect, connection, Array.getElem?_push, h]

end Connect

/-! ### Sending and closing -/

section Send

variable (frame : String)

@[simp] theorem size_send : (s.send c frame).2.connections.size = s.connections.size := by simp [send]

/-- A connection takes a frame as long as it is open and its queue has room. -/
def Takes : Prop := (s.connection c).closed = false ∧ (s.connection c).queue.length < Connection.capacity

instance : Decidable (s.Takes c) :=
  inferInstanceAs (Decidable ((s.connection c).closed = false ∧ (s.connection c).queue.length < Connection.capacity))

theorem send_fst : (s.send c frame).1 = .ok () ↔ s.Takes c := Connection.send_eq_ok_iff _ _

theorem connection_send {c : ConnId} (hc : c < s.connections.size) :
    (s.send c frame).2.connection c = ((s.connection c).send frame).2 :=
  connection_updateConnection s _ hc

theorem connection_send_of_ne {c d : ConnId} (h : d ≠ c) : (s.send c frame).2.connection d = s.connection d :=
  connection_updateConnection_of_ne s _ h

end Send

@[simp] theorem size_close : (s.close c).connections.size = s.connections.size := by simp [close]

/-! ### Registries -/

section Registries

variable (r : Registry)


@[simp] theorem size_setRegistry : (s.setRegistry h r).hubs.size = s.hubs.size := by simp [setRegistry, updateHub]

theorem registry_setRegistry {h : Nat} (hh : h < s.hubs.size) : (s.setRegistry h r).registry h = r := by
  simp [setRegistry, updateHub, registry, hub, Array.getElem_modify, hh]

theorem registry_setRegistry_of_ne {h g : Nat} (hg : g ≠ h) : (s.setRegistry h r).registry g = s.registry g := by
  simp [setRegistry, updateHub, registry, hub, Array.getElem?_modify, hg.symm]

theorem stopped_setRegistry : ((s.setRegistry h r).hub g).stopped = (s.hub g).stopped := by
  simp only [setRegistry, updateHub, hub, Array.getD_eq_getD_getElem?, Array.getElem?_modify]
  split
  · cases s.hubs[g]? <;> rfl
  · rfl

theorem registry_of_size_le {h : Nat} (hh : s.hubs.size ≤ h) : s.registry h = {} := by
  simp [registry, hub, hh]

end Registries

/-! ### The members of a room -/

section Members

variable (room : String) (m : Member)

theorem mem_members_register {h : Nat} (hh : h < s.hubs.size) :
    m ∈ ((s.register h c).registry g).members room ↔
      (g = h ∧ room = (s.connection c).room ∧ m = ⟨c, (s.connection c).user⟩) ∨
      (m ∈ (s.registry g).members room ∧ ¬ (g = h ∧ room = (s.connection c).room ∧ m.id = c)) := by
  unfold register
  by_cases hg : g = h
  · subst hg
    rw [registry_setRegistry s _ hh]
    by_cases hr : room = (s.connection c).room
    · subst hr
      rw [Registry.mem_members_add]
      simp
    · rw [Registry.add, Registry.members_setMembers_of_ne _ _ hr]
      simp [hr]
  · rw [registry_setRegistry_of_ne s _ hg]
    simp [hg]

/-- Who is in a room after a connection has been removed from its own: the others. -/
theorem mem_members_deregister :
    m ∈ ((s.deregister h c).registry g).members room ↔
      m ∈ (s.registry g).members room ∧ ¬ (g = h ∧ room = (s.connection c).room ∧ m.id = c) := by
  unfold deregister removeFrom
  by_cases hg : g = h
  · subst hg
    by_cases hh : g < s.hubs.size
    · rw [registry_setRegistry s _ hh]
      by_cases hr : room = (s.connection c).room
      · subst hr
        rw [Registry.mem_members_remove]
        simp
      · rw [Registry.remove, Registry.members_setMembers_of_ne _ _ hr]
        simp [hr]
    · have h0 := s.registry_of_size_le (Nat.le_of_not_lt hh)
      rw [registry_of_size_le _ (by simpa using Nat.le_of_not_lt hh), h0]
      simp [Registry.members]
  · rw [registry_setRegistry_of_ne s _ hg]
    simp [hg]

theorem mem_snapshot {r : Registry} {room : String} {c : ConnId} :
    c ∈ r.snapshot room ↔ ∃ m ∈ r.members room, m.id = c :=
  List.mem_map

/-- Who is in a room after a connection has been entered was there, or is that connection in its room. -/
theorem of_mem_snapshot_register (hd : d ∈ ((s.register h c).registry g).snapshot room) :
    d ∈ (s.registry g).snapshot room ∨ (g = h ∧ room = (s.connection c).room ∧ d = c) := by
  obtain ⟨m, hm, rfl⟩ := mem_snapshot.1 hd
  by_cases hh : h < s.hubs.size
  · rcases (mem_members_register s g c room m hh).1 hm with ⟨hg, hr, rfl⟩ | ⟨hm, -⟩
    · exact .inr ⟨hg, hr, rfl⟩
    · exact .inl (mem_snapshot.2 ⟨m, hm, rfl⟩)
  · by_cases hg : g = h
    · subst hg
      rw [registry_of_size_le _ (by simpa [register] using Nat.le_of_not_lt hh)] at hm
      cases hm
    · rw [register, registry_setRegistry_of_ne s _ hg] at hm
      exact .inl (mem_snapshot.2 ⟨m, hm, rfl⟩)

theorem mem_snapshot_deregister :
    d ∈ ((s.deregister h c).registry g).snapshot room ↔
      d ∈ (s.registry g).snapshot room ∧ ¬ (g = h ∧ room = (s.connection c).room ∧ d = c) := by
  simp only [mem_snapshot, mem_members_deregister]
  constructor
  · rintro ⟨m, ⟨hm, hn⟩, rfl⟩
    exact ⟨⟨m, hm, rfl⟩, hn⟩
  · rintro ⟨⟨m, hm, rfl⟩, hn⟩
    exact ⟨m, ⟨hm, hn⟩, rfl⟩

@[simp] theorem size_register : (s.register h c).hubs.size = s.hubs.size := by simp [register]
@[simp] theorem size_deregister : (s.deregister h c).hubs.size = s.hubs.size := by simp [deregister, removeFrom]

/-! ### Nobody is listed twice -/

theorem nodup_snapshot_add {r : Registry} (hr : ∀ room, (r.snapshot room).Nodup) (other : String) :
    ((r.add other m).snapshot room).Nodup := by
  by_cases h : room = other
  · subst h
    rw [Registry.snapshot, Registry.add, Registry.members_setMembers, List.map_append]
    refine List.nodup_append.2 ⟨(hr room).sublist (List.filter_sublist.map Member.id), by simp, fun a ha b hb => ?_⟩
    obtain ⟨x, hx, rfl⟩ := List.mem_map.1 ha
    rw [List.mem_singleton.1 hb]
    simpa using (List.mem_filter.1 hx).2
  · rw [Registry.snapshot, Registry.add, Registry.members_setMembers_of_ne _ _ h]
    exact hr room

theorem nodup_snapshot_remove {r : Registry} (hr : ∀ room, (r.snapshot room).Nodup) (other : String) :
    ((r.remove other c).2.snapshot room).Nodup := by
  by_cases h : room = other
  · subst h
    rw [Registry.snapshot, Registry.remove, Registry.members_setMembers]
    exact (hr room).sublist (List.filter_sublist.map Member.id)
  · rw [Registry.snapshot, Registry.remove, Registry.members_setMembers_of_ne _ _ h]
    exact hr room

theorem nodup_snapshot_setRegistry {r : Registry} (hn : ∀ g room, ((s.registry g).snapshot room).Nodup)
    (hr : ∀ room, (r.snapshot room).Nodup) : (((s.setRegistry h r).registry g).snapshot room).Nodup := by
  by_cases hg : g = h
  · subst hg
    by_cases hh : g < s.hubs.size
    · rw [registry_setRegistry s r hh]
      exact hr room
    · rw [registry_of_size_le _ (by simpa using Nat.le_of_not_lt hh)]
      exact List.nodup_nil
  · rw [registry_setRegistry_of_ne s r hg]
    exact hn g room

theorem nodup_snapshot_register (hn : ∀ g room, ((s.registry g).snapshot room).Nodup) :
    (((s.register h c).registry g).snapshot room).Nodup :=
  nodup_snapshot_setRegistry s h g room hn fun r => nodup_snapshot_add r _ (hn h) _

theorem nodup_snapshot_deregister (hn : ∀ g room, ((s.registry g).snapshot room).Nodup) :
    (((s.deregister h c).registry g).snapshot room).Nodup :=
  nodup_snapshot_setRegistry s h g room hn fun r => nodup_snapshot_remove c r (hn h) _

end Members

end Parley.Service

namespace Parley.Hub.Registry

/-! ### A room that is there has somebody -/

/-- Every room that is there has a connection. -/
def Filled (r : Registry) : Prop := ∀ p ∈ r.rooms, p.2 ≠ []

theorem Filled.setMembers {r : Registry} (hr : r.Filled) (room : String) (ms : List Member) :
    (r.setMembers room ms).Filled := by
  have others : ∀ p ∈ r.rooms.filter (·.1 != room), p.2 ≠ [] := fun p hp => hr p (List.mem_filter.1 hp).1
  intro p hp
  unfold Registry.setMembers at hp
  cases ms with
  | nil => exact others p hp
  | cons m ms =>
    rcases List.mem_cons.1 hp with rfl | hp
    · exact List.cons_ne_nil m ms
    · exact others p hp

theorem Filled.roomCount_eq_zero {r : Registry} (hr : r.Filled) (h : ∀ room, r.members room = []) :
    r.roomCount = 0 := by
  unfold roomCount
  cases hp : r.rooms with
  | nil => rfl
  | cons p rest =>
    have hm := h p.1
    rw [members, hp, List.lookup_cons, beq_self_eq_true] at hm
    exact absurd hm (hr p (by rw [hp]; exact List.mem_cons_self))

end Parley.Hub.Registry

namespace Parley.Service

variable (s : Service) (h g : Nat) (c : ConnId)

theorem filled_setRegistry {r : Hub.Registry} (hn : ∀ g, (s.registry g).Filled) (hr : r.Filled) :
    ((s.setRegistry h r).registry g).Filled := by
  by_cases hg : g = h
  · subst hg
    by_cases hh : g < s.hubs.size
    · rw [registry_setRegistry s r hh]
      exact hr
    · rw [registry_of_size_le _ (by simpa using Nat.le_of_not_lt hh)]
      exact List.forall_mem_nil _
  · rw [registry_setRegistry_of_ne s r hg]
    exact hn g

theorem filled_register (hn : ∀ g, (s.registry g).Filled) : ((s.register h c).registry g).Filled :=
  filled_setRegistry s h g hn ((hn h).setMembers _ _)

theorem filled_deregister (hn : ∀ g, (s.registry g).Filled) : ((s.deregister h c).registry g).Filled :=
  filled_setRegistry s h g hn ((hn h).setMembers _ _)

/-! ### A small service -/

/-- A room with two members on a hub without a broker. -/
def twoMembers : Service :=
  (((({} : Service).connect "r" "ann" fun _ => .taken).2.connect "r" "bob" fun _ => .taken).2.register 0 0).register 0 1

theorem nodup_twoMembers (g : Nat) (room : String) : ((twoMembers.registry g).snapshot room).Nodup := by
  refine nodup_snapshot_register _ 0 g 1 room fun g room => nodup_snapshot_register _ 0 g 0 room fun g room => ?_
  rcases Nat.eq_zero_or_pos g with rfl | hg
  · exact List.nodup_nil
  · rw [registry_of_size_le _ hg]
    exact List.nodup_nil

end Parley.Service
