import Mathlib.Data.List.Perm.Basic
import Parley.Proofs.Delivery.Deeds
import Parley.Proofs.Sessions.Tended

/-!
# A delivery to a room

A text that is delivered to a room of a hub is queued once on every connection of the room that takes it, and
nothing else changes. `Heard` says so, and `broadcast_heard` shows it. The order in which the connections are listed
does not matter, and a payload is delivered as the text it is, or to nobody.
-/

namespace Parley

open Hub

namespace Service

/-- A text has been queued on some connections: each of them that takes it has it once, behind what it had, and nothing
else is changed. -/
structure Queued (s : Service) (cs : List ConnId) (text : String) (t : Service) : Prop where
  hubs : t.hubs = s.hubs
  size : t.connections.size = s.connections.size
  taking : ∀ c ∈ cs, s.Takes c → t.connection c = { s.connection c with
    queue := (s.connection c).queue ++ [text], accepted := (s.connection c).accepted ++ [text] }
  others : ∀ c, c ∉ cs ∨ ¬ s.Takes c → t.connection c = s.connection c

/-- A text has come to the connections of a room on a hub. -/
def Heard (s : Service) (hub : Nat) (room text : String) (t : Service) : Prop :=
  s.Queued ((s.registry hub).snapshot room) text t

/-- The connections of a room on a hub are there, and each is listed once. -/
structure Listing (s : Service) (hub : Nat) (room : String) : Prop where
  once : ((s.registry hub).snapshot room).Nodup
  there : ∀ c ∈ (s.registry hub).snapshot room, c < s.connections.size

variable {s t u : Service} {hub : Nat} {room text : String} {cs ds : List ConnId}

/-! ### What does not matter to a delivery -/

theorem SameHubs.takes (h : s.SameHubs t) (c : ConnId) : t.Takes c ↔ s.Takes c := by
  unfold Takes
  rw [h.connection]

theorem Queued.of_sameHubs (h : s.Queued cs text t) (g : t.SameHubs u) : s.Queued cs text u where
  hubs := g.hubs.trans h.hubs
  size := by rw [g.connections, h.size]
  taking c hc ht := (g.connection c).trans (h.taking c hc ht)
  others c hc := (g.connection c).trans (h.others c hc)

theorem SameHubs.heard (g : s.SameHubs t) (h : t.Heard hub room text u) : s.Heard hub room text u where
  hubs := h.hubs.trans g.hubs
  size := by rw [h.size, g.connections]
  taking c hc ht := by
    rw [← g.connection]
    exact h.taking c (by rwa [g.registry]) ((g.takes c).mpr ht)
  others c hc := by
    rw [← g.connection]
    exact h.others c (by rwa [g.registry, g.takes])

theorem SameHubs.listing (g : s.SameHubs t) (h : s.Listing hub room) : t.Listing hub room where
  once := by
    rw [g.registry]
    exact h.once
  there := by
    rw [g.registry, g.connections]
    exact h.there

theorem Queued.congr (h : s.Queued cs text t) (hmem : ∀ c, c ∈ cs ↔ c ∈ ds) : s.Queued ds text t where
  hubs := h.hubs
  size := h.size
  taking c hc := h.taking c ((hmem c).mpr hc)
  others c hc := h.others c (hc.imp_left (mt (hmem c).mp))

/-! ### One connection after the other -/

theorem takes_send_of_ne {c d : ConnId} (h : c ≠ d) : (s.send d text).2.Takes c ↔ s.Takes c := by
  unfold Takes
  rw [s.connection_send_of_ne text h]

theorem Queued.cons_of_takes {d : ConnId} (hd : d < s.connections.size) (ht : s.Takes d) (hn : d ∉ cs)
    (h : (s.send d text).2.Queued cs text t) : s.Queued (d :: cs) text t where
  hubs := h.hubs
  size := h.size.trans (s.size_send d text)
  taking c hmem hc := by
    by_cases he : c = d
    · subst he
      rw [h.others c (.inl hn), s.connection_send_of_takes text hd ht]
    · rw [h.taking c ((List.mem_cons.mp hmem).resolve_left he) ((takes_send_of_ne he).mpr hc),
        s.connection_send_of_ne text he]
  others c hc := by
    have he : c ≠ d := by
      rintro rfl
      rcases hc with hc | hc
      · exact hc List.mem_cons_self
      · exact hc ht
    rw [h.others c (hc.imp (fun hc hmem => hc (List.mem_cons_of_mem _ hmem)) (mt (takes_send_of_ne he).mp)),
      s.connection_send_of_ne text he]

theorem Queued.cons_of_not_takes {d : ConnId} (ht : ¬ s.Takes d) (h : s.Queued cs text t) :
    s.Queued (d :: cs) text t where
  hubs := h.hubs
  size := h.size
  taking c hmem hc := h.taking c ((List.mem_cons.mp hmem).resolve_left fun e => ht (e ▸ hc)) hc
  others c hc := h.others c (hc.imp_left fun hc hmem => hc (List.mem_cons_of_mem _ hmem))

/-- What a text comes to that is handed to some connections, each of them once, and how many take it. -/
theorem handAll_queued (text : String) {cs : List ConnId} (hn : cs.Nodup) (hc : ∀ c ∈ cs, c < s.connections.size)
    (sent : Nat) : (Fanout.handAll s text cs sent).1 = sent + cs.countP (fun c => s.Takes c) ∧
      s.Queued cs text (Fanout.handAll s text cs sent).2 := by
  induction cs generalizing s sent with
  | nil => exact ⟨rfl, rfl, rfl, nofun, fun _ _ => rfl⟩
  | cons d cs ih =>
    obtain ⟨hd, hn⟩ := List.nodup_cons.mp hn
    have hcs : ∀ c ∈ cs, c < s.connections.size := fun c h => hc c (List.mem_cons_of_mem _ h)
    by_cases ht : s.Takes d
    · obtain ⟨hcount, hqueued⟩ :=
        ih (s := (s.send d text).2) hn (fun c h => by rw [size_send]; exact hcs c h) (sent + 1)
      rw [Fanout.handAll_cons_of_takes text ht]
      refine ⟨?_, hqueued.cons_of_takes (hc d List.mem_cons_self) ht hd⟩
      have hcongr : cs.countP (fun c => (s.send d text).2.Takes c) = cs.countP (fun c => s.Takes c) :=
        List.countP_congr fun c h => by
          have he : c ≠ d := fun e => hd (e ▸ h)
          simp [takes_send_of_ne he]
      rw [hcount, hcongr, List.countP_cons_of_pos (by simpa using ht)]
      omega
    · obtain ⟨hcount, hqueued⟩ := ih hn hcs sent
      rw [Fanout.handAll_cons_of_not_takes text ht]
      refine ⟨?_, hqueued.cons_of_not_takes ht⟩
      rw [hcount, List.countP_cons_of_neg (by simpa using ht)]

/-! ### The connections of a room -/

/-- A delivery, whatever the order in which the connections are listed. -/
theorem handAll_heard (hs : s.Listing hub room) (hcs : cs.Perm ((s.registry hub).snapshot room)) :
    (Fanout.handAll s text cs 0).1 = ((s.registry hub).snapshot room).countP (fun c => s.Takes c) ∧
      s.Heard hub room text (Fanout.handAll s text cs 0).2 := by
  obtain ⟨hcount, hqueued⟩ :=
    handAll_queued text (hcs.nodup_iff.mpr hs.once) (fun c hc => hs.there c (hcs.mem_iff.mp hc)) 0
  refine ⟨?_, hqueued.congr fun c => hcs.mem_iff⟩
  rw [hcount, hcs.countP_eq, Nat.zero_add]

theorem broadcast_heard (hs : s.Listing hub room) :
    (s.broadcast hub room (some text)).1 = ((s.registry hub).snapshot room).countP (fun c => s.Takes c) ∧
      s.Heard hub room text (s.broadcast hub room (some text)).2 :=
  handAll_heard hs (.refl _)

theorem broadcastRaw_encode (s : Service) (hub : Nat) (room text : String) :
    s.broadcastRaw hub room (Text.Utf8.encode text) = s.broadcast hub room (some text) := by
  rw [broadcastRaw, Text.Utf8.decode?_encode]

theorem broadcastRaw_of_decode?_none (s : Service) (hub : Nat) (room : String) {payload : Bytes}
    (h : Text.Utf8.decode? payload = none) : s.broadcastRaw hub room payload = (0, s) := by
  rw [broadcastRaw, h]
  rfl

theorem broadcast_of_nobody (s : Service) (h : (s.registry hub).connectionCount room = 0) (frame : Option String) :
    s.broadcast hub room frame = (0, s) := by
  have hsnapshot : (s.registry hub).snapshot room = [] := by
    rw [Registry.snapshot, List.length_eq_zero_iff.mp h, List.map_nil]
  cases frame with
  | none => rfl
  | some text =>
    rw [broadcast, Fanout.finish, hsnapshot]
    rfl

end Service

/-- In every room of a service that works the connections are there, and listed once. -/
theorem Tended.listing {y : Deployment} (hy : Tended y) (hub : Nat) (room : String) : y.service.Listing hub room where
  once := hy.nodup hub room
  there c hc := by
    obtain ⟨m, hm, rfl⟩ := Service.mem_snapshot.mp hc
    obtain ⟨n, x, hx, -, -, -, rfl⟩ := (hy.members hub room m).mp hm
    exact (hy.agrees n x hx).conn

end Parley
