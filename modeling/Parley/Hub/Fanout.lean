import Parley.Service

/-!
A frame on its way to the connections of a room: first the connections are listed, then the frame
is queued on each of them. What happens in between does not change the list.
-/

namespace Parley.Hub

/-- Where the delivery of a frame stands. -/
inductive Fanout where
  /-- The connections of the room are to be listed. A payload that is no text has no frame. -/
  | listing (hub : Nat) (room : String) (frame : Option String)
  /-- The frame is to be queued on the connections that remain. -/
  | handing (frame : String) (rest : List ConnId) (sent : Nat)
  /-- So many connections have queued it. -/
  | done (sent : Nat)
deriving DecidableEq, Repr

namespace Fanout

def step (s : Service) : Fanout → Fanout × Service
  | .listing hub room frame =>
    match frame with
    | none => (.done 0, s)
    | some text => (.handing text ((s.registry hub).snapshot room) 0, s)
  | .handing _ [] sent => (.done sent, s)
  | .handing frame (c :: rest) sent =>
    match s.send c frame with
    | (.ok (), s) => (.handing frame rest (sent + 1), s)
    | (.error _, s) => (.handing frame rest sent, s)
  | .done sent => (.done sent, s)

/-- Queues a frame on some connections one after the other, and counts those that take it. -/
def handAll (s : Service) (frame : String) : List ConnId → Nat → Nat × Service
  | [], sent => (sent, s)
  | c :: rest, sent =>
    match s.send c frame with
    | (.ok (), s) => handAll s frame rest (sent + 1)
    | (.error _, s) => handAll s frame rest sent

/-- A whole delivery without anything in between. -/
def finish (s : Service) : Fanout → Nat × Service
  | .listing hub room frame =>
    match frame with
    | none => (0, s)
    | some text => handAll s text ((s.registry hub).snapshot room) 0
  | .handing frame rest sent => handAll s frame rest sent
  | .done sent => (sent, s)

theorem finish_step (s : Service) (f : Fanout) : (f.step s).1.finish (f.step s).2 = f.finish s := by
  cases f with
  | listing hub room frame => cases frame <;> rfl
  | done sent => rfl
  | handing frame rest sent =>
    cases rest with
    | nil => rfl
    | cons c rest =>
      rcases h : s.send c frame with ⟨taken, t⟩
      cases taken <;> simp [step, finish, handAll, h]

end Fanout

end Parley.Hub

namespace Parley.Service

open Hub

/-- Sends an event to the connections of a room on one hub, and counts those that queue it. -/
def broadcast (s : Service) (hub : Nat) (room : String) (frame : Option String) : Nat × Service :=
  (Fanout.listing hub room frame).finish s

def broadcastRaw (s : Service) (hub : Nat) (room : String) (payload : Bytes) : Nat × Service :=
  s.broadcast hub room (Text.Utf8.decode? payload)

end Parley.Service
