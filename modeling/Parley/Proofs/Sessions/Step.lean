import Parley.Proofs.Quiet

/-!
The steps of a session, as a relation that names what each step does, and where a session stands: its
connection is to be registered, is registered, removed, closed, or the session was dropped.
-/

namespace Parley.Hub

/-! ### Events of a session -/

theorem quiet_announce (s : Service) (hub : Nat) (room user : String) (status : Option String) :
    Quiet s (Activity.announce s hub room user status).2 := .readClock s

/-- A frame that is taken for an event has the clock read, and nothing else is done about the service. -/
theorem route_service (s : Service) (hub : Nat) (room user : String) (raw : Bytes) :
    (route s hub room user raw).2.2 = s ∨ (route s hub room user raw).2.2 = s.readClock.2 := by
  unfold route
  cases ClientFrame.parse raw with
  | error e => exact .inl rfl
  | ok f => cases f <;> first | exact .inl rfl | exact .inr rfl

theorem quiet_route (s : Service) (hub : Nat) (room user : String) (raw : Bytes) :
    Quiet s (route s hub room user raw).2.2 := by
  rcases route_service s hub room user raw with h | h <;> rw [h]
  · exact .refl s
  · exact .readClock s

/-- A frame that starts nothing changes nothing. -/
theorem route_of_none {s : Service} {hub : Nat} {room user : String} {raw : Bytes}
    (h : (route s hub room user raw).2.1 = none) : (route s hub room user raw).2.2 = s := by
  unfold route at h ⊢
  cases hp : ClientFrame.parse raw with
  | error e => rfl
  | ok f => rw [hp] at h; cases f <;> first | rfl | cases h

/-! ### Sessions -/

/-- The stages in which a session is about an event, what comes next in it, and the stage after it. -/
inductive Stage.Busy : Stage → Activity → (Activity → Stage) → Stage → Prop
  | joining (a : Activity) : Busy (.joining a) a .joining .reading
  | handling (a : Activity) : Busy (.handling a) a .handling .reading
  | leaving (a : Activity) : Busy (.leaving a) a .leaving .over

inductive Session.Step (s : Service) (x : Session) : Session → Service → Prop
  | register (hx : x.stage = .opening) :
      Step s x { x with stage := .joining (Activity.announce (s.register x.hub x.conn) x.hub x.room x.user none).1 }
        (Activity.announce (s.register x.hub x.conn) x.hub x.room x.user none).2
  | work (a a' : Activity) (here : Activity → Stage) (next : Stage) (hx : x.stage.Busy a here next) (t : Service)
      (h : Activity.Step s a a' t) : Step s x { x with stage := here a' } t
  | rest (r : Except PublishError Unit) (here : Activity → Stage) (next : Stage)
      (hx : x.stage.Busy (.finished r) here next) : Step s x { x with stage := next } s
  | handle (hx : x.stage = .reading) (frame : String) (rest : List Item) (hi : x.inbox = .text frame :: rest)
      (a : Activity) (h : (route s x.hub x.room x.user (Text.Utf8.encode frame)).2.1 = some a) :
      Step s x { x with inbox := rest, stage := .handling a }
        (route s x.hub x.room x.user (Text.Utf8.encode frame)).2.2
  | pass (hx : x.stage = .reading) (rest : List Item) : Step s x { x with inbox := rest } s
  | leave (hx : x.stage = .reading) (rest : List Item) : Step s x { x with inbox := rest, stage := .releasing } s
  | remove (hx : x.stage = .releasing) : Step s x { x with stage := .closing } (s.deregister x.hub x.conn)
  | close (hx : x.stage = .closing) : Step s x { x with stage := .checking } (s.close x.conn)
  | stay (hx : x.stage = .checking) : Step s x { x with stage := .over } s
  | depart (hx : x.stage = .checking) :
      Step s x { x with stage := .leaving (Activity.announce s x.hub x.room x.user (some offlineStatus)).1 }
        (Activity.announce s x.hub x.room x.user (some offlineStatus)).2

theorem Session.advance_spec {s t : Service} {x x' : Session} {choice : Choice} {a : Activity} {here : Activity → Stage}
    {next : Stage} (hx : x.stage.Busy a here next) (h : x.advance s choice a here next = some (x', t)) :
    Session.Step s x x' t := by
  have worked : ∀ b, (∀ r, b ≠ .finished r) → a = b →
      ((b.step s choice).map fun p => (({ x with stage := here p.1 } : Session), p.2)) = some (x', t) →
      Session.Step s x x' t := by
    intro b _ hab hb
    subst hab
    obtain ⟨⟨a', t'⟩, ha, he⟩ := Option.map_eq_some_iff.1 hb
    cases he
    exact .work a a' here next hx _ (Activity.step_spec ha)
  cases a with
  | finished r => cases h; exact .rest r here next hx
  | _ => exact worked _ (by simp) rfl h

theorem Session.read_spec {s t : Service} {x x' : Session} (hx : x.stage = .reading) (h : x.read s = some (x', t)) :
    Session.Step s x x' t := by
  unfold read at h
  split at h
  · cases h
  · rename_i frame rest hi
    split at h
    · rename_i d a u hr
      cases h
      have hs := Session.Step.handle (s := s) (x := x) hx frame rest hi a (by rw [hr])
      rwa [hr] at hs
    · rename_i d u hr
      have hu : (route s x.hub x.room x.user (Text.Utf8.encode frame)).2.2 = s := route_of_none (by rw [hr])
      rw [hr] at hu
      cases h
      subst hu
      exact .pass hx rest
  · cases h; exact .pass hx _
  all_goals cases h; exact .leave hx _

theorem Session.step_spec {s t : Service} {x x' : Session} {choice : Choice} (h : x.step s choice = some (x', t)) :
    Session.Step s x x' t := by
  unfold step at h
  split at h
  · rename_i hx; cases h; exact .register hx
  · rename_i a hx; exact advance_spec (hx ▸ .joining a) h
  · rename_i hx; exact read_spec hx h
  · rename_i a hx; exact advance_spec (hx ▸ .handling a) h
  · rename_i hx; cases h; exact .remove hx
  · rename_i hx; cases h; exact .close hx
  · rename_i hx
    split at h
    · cases h; exact .stay hx
    · cases h; exact .depart hx
  · rename_i a hx; exact advance_spec (hx ▸ .leaving a) h
  all_goals cases h

end Parley.Hub
