import Mathlib.Data.List.Induction
import Parley.Hub.Activity
import Parley.Proofs.Channel
import Parley.Proofs.Printing
import Parley.Proofs.Traffic.Calm

/-!
# What has been said of a person's presence

The broker keeps what was said in two places: the messages it accepted, and one record for each
person in a room.

* `MemoryBroker.accepted` is every message, the oldest first, over all feeds.
* `Message.Announces` says that a message tells of a person in a room that they have a status. Who,
  where and what can be read off the message (`announces_unique`).
* `Latest` is the status that the last such message tells.
* A record is seen through `MemoryBroker.peek`; `readStatus_cases` says what reading it gives.
-/

namespace Parley

open Hub

/-! ### The messages a broker accepted -/

namespace MemoryBroker

open Broker

variable {b b' : MemoryBroker}

/-- Every message the broker accepted, the oldest first. -/
def accepted (b : MemoryBroker) : List Broker.Message := b.feeds.toList.flatMap (·.toList)

theorem accepted_of_feeds (h : b'.feeds = b.feeds) : b'.accepted = b.accepted := by rw [accepted, accepted, h]

theorem accepted_modify_current (hb : 0 < b.feeds.size) {m : Broker.Message}
    (h : b'.feeds = b.feeds.modify b.current (·.push m)) : b'.accepted = b.accepted ++ [m] := by
  have hlast : b.feeds.size - 1 < b.feeds.toList.length := by
    rw [Array.length_toList]
    omega
  have hend : b.feeds.toList.drop (b.feeds.size - 1 + 1) = [] := by
    rw [List.drop_eq_nil_iff, Array.length_toList]
    omega
  have hsplit : b.feeds.toList =
      b.feeds.toList.take (b.feeds.size - 1) ++ [b.feeds.toList[b.feeds.size - 1]] := by
    conv_lhs => rw [← List.take_append_drop (b.feeds.size - 1) b.feeds.toList]
    rw [List.drop_eq_getElem_cons hlast, hend]
  rw [accepted, accepted, h, Array.toList_modify, current, List.modify_eq_take_cons_drop hlast, hend]
  conv_rhs => rw [hsplit]
  simp

theorem accepted_disconnect (b : MemoryBroker) : b.disconnect.accepted = b.accepted := by
  simp [accepted, disconnect]

/-! ### Records -/

theorem peek_of_records {key : String} (h : b'.records = b.records) : b'.peek key = b.peek key := by
  rw [peek, peek, h]

theorem peek_put (b : MemoryBroker) (key other : String) (r : Record) :
    (b.put key r).peek other = if other = key then some r else b.peek other := by
  rw [peek, put, List.lookup_cons]
  split_ifs with h
  · simp [h]
  · rw [beq_false_of_ne h]
    exact Registry.lookup_filter_of_ne b.records h

theorem records_publish (b : MemoryBroker) (m : Broker.Message) : (b.publish m).2.records = b.records := by
  rw [publish]
  split <;> rfl

theorem records_subscribe (b : MemoryBroker) (patterns : List String) :
    (b.subscribe patterns).2.records = b.records := by
  rw [subscribe]
  split
  · rfl
  · split <;> rfl

theorem records_receive (b : MemoryBroker) (n : Nat) : (b.receive n).2.records = b.records := by
  unfold receive
  split
  · rfl
  · split
    · rfl
    · dsimp only
      split
      · rfl
      · split <;> rfl

/-- What is read under a key is what was put there, while it lives. -/
theorem get_fst (now : Instant) (key : String) (h : b.available = true) :
    (b.get now key).1 = .ok ((b.peek key).bind (Record.live? · now)) := by
  rw [get, if_neg (by simp [h])]
  cases b.peek key with
  | none => rfl
  | some r => cases hr : Record.live? r now <;> simp [hr]

end MemoryBroker

/-! ### Announcements -/

theorem Text.Utf8.encode_inj {s t : String} (h : encode s = encode t) : s = t := by
  have hd := congrArg decode? h
  rw [decode?_encode, decode?_encode] at hd
  exact Option.some.inj hd

theorem Envelope.presence_text_inj {room user status room' user' status' : String} {time time' : Timestamp}
    (h : (presence room user time status).text = (presence room' user' time' status').text) :
    room = room' ∧ user = user' ∧ status = status' := by
  obtain ⟨-, hroom, huser⟩ := Envelope.text_inj h
  obtain ⟨-, h₁⟩ := Json.printMembers_inj (Json.print_object_inj h)
  obtain ⟨-, h₂⟩ := Json.printMembers_inj h₁
  obtain ⟨-, h₃⟩ := Json.printMembers_inj h₂
  obtain ⟨-, h₄⟩ := Json.printMembers_inj h₃
  simp only [Json.printMembers, Json.print, String.toList_append, List.append_assoc,
    List.append_cancel_left_eq] at h₄
  exact ⟨hroom, huser, (Json.quote_inj h₄).1⟩

theorem Category.channel_inj {c c' : Category} {room room' : String} (h : c.channel room = c'.channel room') :
    c = c' := by
  have hname : ∀ (c : Category) room, (c.channel room).toList.takeWhile (· != ':') = c.name.toList := by
    intro c room
    rw [c.toList_channel, List.takeWhile_append_of_pos c.ne_colon_of_mem_name]
    simp
  have hnames : c.name = c'.name := by
    rw [← String.toList_inj, ← hname c room, h, hname]
  have hsome := congrArg ofName? hnames
  rw [ofName?_name, ofName?_name] at hsome
  exact Option.some.inj hsome

namespace Broker.Message

/-- The message tells that a person has a status in a room. -/
def Announces (m : Broker.Message) (room user status : String) : Prop :=
  ∃ time, m = ⟨Category.presence.channel room, Text.Utf8.encode (Envelope.presence room user time status).text⟩

variable {m : Broker.Message} {room user status room' user' status' : String}

theorem announces_unique (h : m.Announces room user status) (h' : m.Announces room' user' status') :
    room = room' ∧ user = user' ∧ status = status' := by
  obtain ⟨time, rfl⟩ := h
  obtain ⟨time', heq⟩ := h'
  exact Envelope.presence_text_inj (Text.Utf8.encode_inj (Broker.Message.mk.inj heq).2)

/-- A message of another category announces nobody. -/
theorem not_announces_of_category {c : Category} {room' : String} (hc : c ≠ .presence)
    (hm : m.channel = c.channel room') : ¬ m.Announces room user status := by
  rintro ⟨time, rfl⟩
  exact hc (Category.channel_inj hm).symm

end Broker.Message

/-- The last message that tells of a person in a room tells this status. -/
def Latest (room user status : String) (ms : List Broker.Message) : Prop :=
  ∃ before m later, ms = before ++ m :: later ∧ m.Announces room user status ∧
    ∀ n ∈ later, ∀ status', ¬ n.Announces room user status'

section Latest

variable {m : Broker.Message} {ms : List Broker.Message} {room user status status' : String}

/-- A message about the person settles the latest status. -/
theorem latest_append_of_announces (h : m.Announces room user status) :
    Latest room user status' (ms ++ [m]) ↔ status' = status := by
  constructor
  · rintro ⟨before, n, later, heq, hn, hlater⟩
    rcases List.eq_nil_or_concat later with rfl | ⟨later, last, rfl⟩
    · obtain ⟨-, hmn⟩ := List.append_inj' heq rfl
      rw [List.singleton_inj.mp hmn] at h
      exact (Broker.Message.announces_unique hn h).2.2
    · rw [List.concat_eq_append, ← List.cons_append, ← List.append_assoc] at heq
      obtain ⟨-, hmn⟩ := List.append_inj' heq rfl
      rw [List.singleton_inj.mp hmn] at h
      exact absurd h (hlater last (by simp) status)
  · rintro rfl
    exact ⟨ms, m, [], rfl, h, by simp⟩

theorem latest_of_getLast? (hlast : ms.getLast? = some m) (h : m.Announces room user status) :
    Latest room user status ms := by
  obtain ⟨before, rfl⟩ := List.getLast?_eq_some_iff.mp hlast
  exact (latest_append_of_announces h).mpr rfl

/-- A message that is not about the person leaves the latest status as it is. -/
theorem latest_append_of_not_announces (h : ∀ status, ¬ m.Announces room user status) :
    Latest room user status' (ms ++ [m]) ↔ Latest room user status' ms := by
  constructor
  · rintro ⟨before, n, later, heq, hn, hlater⟩
    rcases List.eq_nil_or_concat later with rfl | ⟨later, last, rfl⟩
    · obtain ⟨-, hmn⟩ := List.append_inj' heq rfl
      rw [← List.singleton_inj.mp hmn] at hn
      exact absurd hn (h status')
    · rw [List.concat_eq_append, ← List.cons_append, ← List.append_assoc] at heq
      obtain ⟨hms, -⟩ := List.append_inj' heq rfl
      exact ⟨before, n, later, hms, hn, fun k hk => hlater k (by simp [hk])⟩
  · rintro ⟨before, n, later, rfl, hn, hlater⟩
    refine ⟨before, n, later ++ [m], by simp, hn, fun k hk => ?_⟩
    rcases List.mem_append.mp hk with hk | hk
    · exact hlater k hk
    · rw [List.mem_singleton.mp hk]
      exact h

theorem latest_unique (h : Latest room user status ms) (h' : Latest room user status' ms) : status = status' := by
  induction ms using List.reverseRecOn with
  | nil =>
    obtain ⟨before, m, later, heq, -⟩ := h
    simp at heq
  | append_singleton ms m ih =>
    by_cases hm : ∃ status, m.Announces room user status
    · obtain ⟨told, hm⟩ := hm
      rw [latest_append_of_announces hm] at h h'
      rw [h, h']
    · have hno : ∀ status, ¬ m.Announces room user status := fun status hs => hm ⟨status, hs⟩
      rw [latest_append_of_not_announces hno] at h h'
      exact ih h h'

end Latest

/-! ### What a service leaves unsaid -/

namespace Service

/-- The broker is up and has a feed to accept messages into. -/
structure Ready (s : Service) : Prop where
  up : s.Up
  feeds : 0 < s.broker.feeds.size

/-- Nothing is said on the way from one service to another: no message is accepted and no record put. -/
structure Mute (s t : Service) : Prop where
  ready : t.Ready
  records : t.broker.records = s.broker.records
  accepted : t.broker.accepted = s.broker.accepted

variable {s t : Service}

theorem broker_eq_of_line (h : t.line = s.line) : t.broker = s.broker := by rw [broker, broker, h]

theorem Ready.of_line (hs : s.Ready) (h : t.line = s.line) : t.Ready := by
  obtain ⟨line, hl, hrest⟩ := hs.up
  exact ⟨⟨line, h.trans hl, hrest⟩, by rw [broker_eq_of_line h]; exact hs.feeds⟩

theorem Mute.of_line (hs : s.Ready) (h : t.line = s.line) : Mute s t :=
  ⟨hs.of_line h, by rw [broker_eq_of_line h], by rw [broker_eq_of_line h]⟩

theorem Mute.of_staysUp (hs : s.Ready) (h : StaysUp s t) (hr : t.broker.records = s.broker.records) : Mute s t :=
  ⟨⟨h.up, by rw [h.feeds]; exact hs.feeds⟩, hr, MemoryBroker.accepted_of_feeds h.feeds⟩

/-- A person's status as it is read: what was recorded last, while it lives. -/
theorem readStatus_fst (hs : s.Ready) (room user : String) :
    (readStatus s room user).1 = (s.broker.peek (presenceKey room user)).bind (MemoryBroker.Record.live? · s.now) := by
  obtain ⟨line, hl, hp, ha⟩ := hs.up
  have hget : (line.get s.now (presenceKey room user)).1 =
      .ok ((line.broker.peek (presenceKey room user)).bind (MemoryBroker.Record.live? · s.now)) := by
    rw [← MemoryBroker.get_fst s.now _ ha]
    exact (line.call_of_plans_nil s.now _ _ hp).1
  rw [broker_of_line hl, readStatus, onLine, hl, Option.map_some]
  rcases hline : line.get s.now (presenceKey room user) with ⟨answer, line'⟩
  rw [show (line.get s.now (presenceKey room user)).1 = answer by rw [hline]] at hget
  rw [hget]

end Service

end Parley
