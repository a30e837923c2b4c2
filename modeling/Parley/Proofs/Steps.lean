import Parley.Proofs.Broker
import Parley.Proofs.Service

/-!
The steps of writers, deliveries, activities and subscriptions, each as a relation that names what
the step does. The functions that run are opened here once; what a step can do is read off its
relation everywhere else.
-/

namespace Parley.Hub

/-! ### Writers -/

namespace Connection

/-- How often the transport of a connection has been closed. -/
def closes (c : Connection) : Nat := c.sights.count .closed

section Send

variable (c : Connection) (frame : String)

theorem send_cases : (c.send frame).2 = c ∨
    (c.send frame).2 = { c with queue := c.queue ++ [frame], accepted := c.accepted ++ [frame] } := by
  unfold send
  split
  · exact .inl rfl
  · split
    · exact .inl rfl
    · exact .inr rfl

@[simp] theorem room_send : (c.send frame).2.room = c.room := by rcases c.send_cases frame with h | h <;> rw [h]
@[simp] theorem user_send : (c.send frame).2.user = c.user := by rcases c.send_cases frame with h | h <;> rw [h]
@[simp] theorem closed_send : (c.send frame).2.closed = c.closed := by rcases c.send_cases frame with h | h <;> rw [h]
@[simp] theorem closes_send : (c.send frame).2.closes = c.closes := by
  rcases c.send_cases frame with h | h <;> rw [h]
  rfl

@[simp] theorem room_close : c.close.room = c.room := by unfold close; split <;> rfl
@[simp] theorem user_close : c.close.user = c.user := by unfold close; split <;> rfl
@[simp] theorem accepted_close : c.close.accepted = c.accepted := by unfold close; split <;> rfl

/-- A connection that was closed once if at all has been closed once after a close. -/
theorem closes_close {c : Connection} (h : c.closes = if c.closed then 1 else 0) : c.close.closes = 1 := by
  unfold close
  cases hc : c.closed with
  | true => rw [hc] at h; exact h
  | false =>
    rw [hc] at h
    simpa [closes, see] using h

end Send

/-- What a writer leaves alone. -/
structure Kept (c c' : Connection) : Prop where
  room : c'.room = c.room
  user : c'.user = c.user
  closed : c'.closed = c.closed
  accepted : c'.accepted = c.accepted
  closes : c'.closes = c.closes

theorem beginWrite_kept (c : Connection) (now : Instant) (frame : String) : Kept c (c.beginWrite now frame) := by
  unfold beginWrite
  cases c.sink c.begun.length <;> exact ⟨rfl, rfl, rfl, rfl, by simp [closes, see]⟩

theorem endWrite_kept {c c' : Connection} {now : Instant} {frame : String} {done : Option (Instant × Bool)}
    {deadline : Instant} (h : c.endWrite now frame done deadline = some c') : Kept c c' := by
  unfold endWrite at h
  cases done with
  | none =>
    simp only at h
    split at h <;> cases h
    exact ⟨rfl, rfl, rfl, rfl, rfl⟩
  | some d =>
    obtain ⟨t, written⟩ := d
    simp only at h
    split at h
    · cases h
      exact ⟨rfl, rfl, rfl, rfl, by cases written <;> simp [closes, see]⟩
    · split at h <;> cases h
      exact ⟨rfl, rfl, rfl, rfl, rfl⟩

theorem proceed_kept {c c' : Connection} {now : Instant} (h : c.proceed now = some c') : Kept c c' := by
  unfold proceed at h
  split at h
  · cases h
  · unfold take at h
    split at h <;> cases h
    exact ⟨rfl, rfl, rfl, rfl, rfl⟩
  · cases h
    exact beginWrite_kept c now _
  · exact endWrite_kept h

theorem step_kept {c c' : Connection} {now : Instant} {stopFirst : Bool} (h : c.step now stopFirst = some c') :
    Kept c c' := by
  have halted : Kept c c.halt := ⟨rfl, rfl, rfl, rfl, rfl⟩
  unfold step at h
  split at h
  · cases h
  · split at h
    · split at h
      · cases h; exact halted
      · cases hp : c.proceed now with
        | none => rw [hp] at h; cases h; exact halted
        | some d => rw [hp] at h; cases h; exact proceed_kept hp
    · exact proceed_kept h

end Connection

end Parley.Hub

namespace Parley.Service

open Hub

variable (s : Service) (c d : ConnId)

theorem send_of_not_takes {c : ConnId} (frame : String) (h : ¬ s.Takes c) : (s.send c frame).2 = s := by
  have hs : ((s.connection c).send frame).2 = s.connection c := by
    unfold Connection.send
    unfold Takes at h
    split
    · rfl
    · split
      · rfl
      · rename_i hc hq
        exact absurd ⟨by simpa using hc, Nat.lt_of_not_le hq⟩ h
  have he : s.connections.modify c (fun _ => s.connection c) = s.connections := by
    refine Array.ext (by simp) fun i hi hi' => ?_
    rw [Array.getElem_modify]
    split
    · rename_i hci
      subst hci
      simp [connection, hi']
    · rfl
  show s.updateConnection c (fun _ => ((s.connection c).send frame).2) = s
  rw [hs, updateConnection, he]

theorem connection_send_of_takes {c : ConnId} (frame : String) (hc : c < s.connections.size) (h : s.Takes c) :
    (s.send c frame).2.connection c = { s.connection c with
      queue := (s.connection c).queue ++ [frame], accepted := (s.connection c).accepted ++ [frame] } := by
  rw [connection_send s frame hc, Connection.send, if_neg (by simp [h.1]), if_neg (Nat.not_le.2 h.2)]

end Parley.Service

namespace Parley.Hub

/-! ### Deliveries -/

theorem Fanout.step_handing (s : Service) (frame : String) (c : ConnId) (rest : List ConnId) (sent : Nat) :
    ∃ sent', Fanout.step s (.handing frame (c :: rest) sent) = (.handing frame rest sent', (s.send c frame).2) := by
  rcases hs : s.send c frame with ⟨_ | _, t⟩
  · exact ⟨sent, by simp only [Fanout.step, hs]⟩
  · exact ⟨sent + 1, by simp only [Fanout.step, hs]⟩

inductive Fanout.Step (s : Service) : Fanout → Fanout → Service → Prop
  | blank (hub : Nat) (room : String) : Step s (.listing hub room none) (.done 0) s
  | list (hub : Nat) (room text : String) :
      Step s (.listing hub room (some text)) (.handing text ((s.registry hub).snapshot room) 0) s
  | hand (frame : String) (c : ConnId) (rest : List ConnId) (sent : Nat) (ht : s.Takes c) :
      Step s (.handing frame (c :: rest) sent) (.handing frame rest (sent + 1)) (s.send c frame).2
  | skip (frame : String) (c : ConnId) (rest : List ConnId) (sent : Nat) (ht : ¬ s.Takes c) :
      Step s (.handing frame (c :: rest) sent) (.handing frame rest sent) s
  | finish (frame : String) (sent : Nat) : Step s (.handing frame [] sent) (.done sent) s

theorem Fanout.step_spec (s : Service) (f : Fanout) (hf : ∀ k, f ≠ .done k) :
    Fanout.Step s f (f.step s).1 (f.step s).2 := by
  cases f with
  | listing hub room frame =>
    cases frame with
    | none => exact .blank hub room
    | some text => exact .list hub room text
  | done k => exact absurd rfl (hf k)
  | handing frame rest sent =>
    cases rest with
    | nil => exact .finish frame sent
    | cons c rest =>
      by_cases ht : s.Takes c
      · have h1 := (s.send_fst c frame).2 ht
        have he : Fanout.step s (.handing frame (c :: rest) sent) =
            (.handing frame rest (sent + 1), (s.send c frame).2) := by
          rcases hs : s.send c frame with ⟨taken, t⟩
          rw [hs] at h1
          cases taken with
          | ok u => simp [Fanout.step, hs]
          | error e => cases h1
        rw [he]
        exact .hand frame c rest sent ht
      · have he : Fanout.step s (.handing frame (c :: rest) sent) = (.handing frame rest sent, s) := by
          have h2 := s.send_of_not_takes frame ht
          rcases hs : s.send c frame with ⟨taken, t⟩
          rw [hs] at h2
          cases taken with
          | ok u => exact absurd ((s.send_fst c frame).1 (by rw [hs])) ht
          | error e => simp only at h2; simp [Fanout.step, hs, h2]
        rw [he]
        exact .skip frame c rest sent ht

theorem Fanout.handAll_cons_of_takes {s : Service} (frame : String) {c : ConnId} (h : s.Takes c) (cs : List ConnId)
    (sent : Nat) :
    handAll s frame (c :: cs) sent = handAll (s.send c frame).2 frame cs (sent + 1) := by
  have hok := (s.send_fst c frame).mpr h
  rcases hs : s.send c frame with ⟨_ | _, t⟩
  · rw [hs] at hok
    cases hok
  · simp only [handAll, hs]

theorem Fanout.handAll_cons_of_not_takes {s : Service} (frame : String) {c : ConnId} (h : ¬ s.Takes c)
    (cs : List ConnId) (sent : Nat) :
    handAll s frame (c :: cs) sent = handAll s frame cs sent := by
  have hsame := s.send_of_not_takes frame h
  rcases hs : s.send c frame with ⟨_ | _, t⟩
  · rw [hs] at hsame
    obtain rfl : t = s := hsame
    simp only [handAll, hs]
  · exact absurd ((s.send_fst c frame).mp (by rw [hs])) h

/-- A step on the way does not change what the whole delivery comes to. -/
theorem Fanout.Step.finish_eq {s t : Service} {f f' : Fanout} (h : Fanout.Step s f f' t) :
    f'.finish t = f.finish s := by
  cases h with
  | blank | list | finish => rfl
  | hand frame c rest sent ht => exact (handAll_cons_of_takes frame ht rest sent).symm
  | skip frame c rest sent ht => exact (handAll_cons_of_not_takes frame ht rest sent).symm

theorem Fanout.Step.line {s t : Service} {f f' : Fanout} (h : Fanout.Step s f f' t) : t.line = s.line := by
  cases h <;> rfl

/-! ### Activities -/

inductive Activity.Step (s : Service) : Activity → Activity → Service → Prop
  | record (l : Broker.Line) (hl : s.line = some l) (post : Post) (user status : String) :
      Step s (.recording post user status) (.attempting post 1)
        { s with line := some (l.setEx s.now (presenceKey post.room user) status presenceLife).2 }
  | unrecorded (hl : s.line = none) (post : Post) (user status : String) :
      Step s (.recording post user status) (.delivering post.fanout (.ok ())) s
  | direct (hl : s.line = none) (post : Post) (n : UInt32) :
      Step s (.attempting post n) (.delivering post.fanout (.ok ())) s
  | unwritable (l : Broker.Line) (hl : s.line = some l) (post : Post) (n : UInt32) (reason : String)
      (he : post.event = .error reason) : Step s (.attempting post n) (.finished (.error (.unwritable reason))) s
  | accepted (l : Broker.Line) (hl : s.line = some l) (post : Post) (n : UInt32) (text : String)
      (he : post.event = .ok text) (hp : (l.publish s.now (post.message text)).1 = .ok ()) :
      Step s (.attempting post n) (.finished (.ok ())) { s with line := some (l.publish s.now (post.message text)).2 }
  | exhausted (l : Broker.Line) (hl : s.line = some l) (post : Post) (n : UInt32) (text : String)
      (he : post.event = .ok text) (e : Broker.Error) (hp : (l.publish s.now (post.message text)).1 = .error e) :
      Step s (.attempting post n) (.delivering post.fanout (.error (.exhausted s.policy.maxAttempts e)))
        { s with line := some (l.publish s.now (post.message text)).2 }
  | again (l : Broker.Line) (hl : s.line = some l) (post : Post) (n : UInt32) (text : String)
      (he : post.event = .ok text) (e : Broker.Error) (hp : (l.publish s.now (post.message text)).1 = .error e)
      (next : UInt32) (t : Instant) :
      Step s (.attempting post n) (.pausing post next t) { s with line := some (l.publish s.now (post.message text)).2 }
  | unending (l : Broker.Line) (hl : s.line = some l) (post : Post) (n : UInt32) (text : String)
      (he : post.event = .ok text) (e : Broker.Error) (hp : (l.publish s.now (post.message text)).1 = .error e) :
      Step s (.attempting post n) (.finished (.error .unending))
        { s with line := some (l.publish s.now (post.message text)).2 }
  | resume (post : Post) (n : UInt32) (t : Instant) : Step s (.pausing post n t) (.attempting post n) s
  | deliver (f f' : Fanout) (t : Service) (r : Except PublishError Unit) (hf : f.Step s f' t) :
      Step s (.delivering f r) (.delivering f' r) t
  | delivered (k : Nat) (r : Except PublishError Unit) : Step s (.delivering (.done k) r) (.finished r) s

theorem next_error (p : RetryPolicy) (n : UInt32) (e : Broker.Error) :
    p.next n (.error e) = if p.maxAttempts ≤ n then .fallback e else .attempting (n + 1) := rfl

/-- After a failed attempt there is another one, or none is left. -/
theorem Activity.afterAttempt_error (s : Service) (post : Post) (n : UInt32) (draw : Nat) (e : Broker.Error) :
    afterAttempt s post n draw (.error e) = .delivering post.fanout (.error (.exhausted s.policy.maxAttempts e)) ∨
      (∃ next t, afterAttempt s post n draw (.error e) = .pausing post next t) ∨
      afterAttempt s post n draw (.error e) = .finished (.error .unending) := by
  unfold afterAttempt
  rw [next_error]
  by_cases hm : s.policy.maxAttempts ≤ n
  · rw [if_pos hm]
    exact .inl rfl
  · rw [if_neg hm]
    cases (s.policy.backoff n).add? (s.policy.jitter draw) with
    | some delay => exact .inr (.inl ⟨n + 1, _, rfl⟩)
    | none => exact .inr (.inr rfl)

theorem Activity.attempt_eq {s : Service} {l : Broker.Line} (hl : s.line = some l) {post : Post} {text : String}
    (he : post.event = .ok text) (n : UInt32) (draw : Nat) :
    attempt s post n draw = (afterAttempt s post n draw (l.publish s.now (post.message text)).1,
      { s with line := some (l.publish s.now (post.message text)).2 }) := by
  unfold attempt
  rw [hl, he]

theorem Activity.attempt_spec (s : Service) (post : Post) (n : UInt32) (draw : Nat) :
    Activity.Step s (.attempting post n) (attempt s post n draw).1 (attempt s post n draw).2 := by
  cases hl : s.line with
  | none =>
    rw [attempt, hl]
    exact .direct hl post n
  | some l =>
    cases he : post.event with
    | error reason =>
      rw [attempt, hl, he]
      exact .unwritable l hl post n reason he
    | ok text =>
      rw [attempt_eq hl he]
      cases hp : (l.publish s.now (post.message text)).1 with
      | ok u => exact .accepted l hl post n text he hp
      | error e =>
        rcases afterAttempt_error s post n draw e with h | ⟨next, t, h⟩ | h <;> simp only [h]
        · exact .exhausted l hl post n text he e hp
        · exact .again l hl post n text he e hp next t
        · exact .unending l hl post n text he e hp

theorem Activity.step_spec {s t : Service} {choice : Choice} {a a' : Activity} (h : a.step s choice = some (a', t)) :
    Activity.Step s a a' t := by
  cases a with
  | recording post user status =>
    simp only [step, recordStatus, Service.onLine] at h
    cases hl : s.line with
    | none => simp only [hl, Option.map_none] at h; cases h; exact .unrecorded hl post user status
    | some l => simp only [hl, Option.map_some] at h; cases h; exact .record l hl post user status
  | attempting post n =>
    have hs := attempt_spec s post n choice.draw
    rw [Option.some.inj (show some (attempt s post n choice.draw) = some (a', t) from h)] at hs
    exact hs
  | pausing post n t' =>
    simp only [step] at h
    split at h <;> cases h
    exact .resume post n t'
  | delivering f r =>
    cases f with
    | done k => cases h; exact .delivered k r
    | listing hub room frame => cases h; exact .deliver _ _ _ r (Fanout.step_spec s _ (by simp))
    | handing frame rest sent => cases h; exact .deliver _ _ _ r (Fanout.step_spec s _ (by simp))
  | finished r => cases h

/-! ### Subscriptions -/

inductive Subscriber.Step (s : Service) (x : Subscriber) : Subscriber → Service → Prop
  | subscribed (l : Broker.Line) (hl : s.line = some l) (hx : x.state = .subscribing) (n : Nat)
      (hn : (l.subscribe s.now patterns).1 = .ok n) :
      Step s x { x with state := .listening n false } { s with line := some (l.subscribe s.now patterns).2 }
  | refused (l : Broker.Line) (hl : s.line = some l) (hx : x.state = .subscribing) (e : Broker.Error)
      (he : (l.subscribe s.now patterns).1 = .error e) (delay : Duration) (t : Instant) :
      Step s x { x with delay, state := .waiting t } { s with line := some (l.subscribe s.now patterns).2 }
  | message (l : Broker.Line) (hl : s.line = some l) (n : Nat) (received : Bool) (hx : x.state = .listening n received)
      (m : Broker.Message) (b : MemoryBroker) (hr : l.broker.receive n = (.message m, b)) :
      Step s x { x with state := .relaying n (relay x.hub m) } { s with line := some { l with broker := b } }
  | ended (l : Broker.Line) (hl : s.line = some l) (n : Nat) (received : Bool) (hx : x.state = .listening n received)
      (b : MemoryBroker) (hr : l.broker.receive n = (.ended, b)) (delay : Duration) (t : Instant) :
      Step s x { x with delay, state := .waiting t } { s with line := some { l with broker := b.drop n } }
  | relay (n : Nat) (f f' : Fanout) (hx : x.state = .relaying n f) (t : Service) (hf : f.Step s f' t) :
      Step s x { x with state := .relaying n f' } t
  | relayed (n k : Nat) (hx : x.state = .relaying n (.done k)) : Step s x { x with state := .listening n true } s
  | retry (t : Instant) (hx : x.state = .waiting t) : Step s x { x with state := .subscribing } s
  | quit (hs : (s.hub x.hub).stopped = true) (l : Broker.Line) (hl : s.line = some l) (n : Nat) (received : Bool)
      (hx : x.state = .listening n received) :
      Step s x { x with state := .over } { s with line := some { l with broker := l.broker.drop n } }
  | stop (hs : s.line = none ∨ (s.hub x.hub).stopped = true) : Step s x { x with state := .over } s

theorem Subscriber.pause_eq (s : Service) (x : Subscriber) (choice : Choice) (received : Bool) :
    ∃ delay t, x.pause s choice received = { x with delay, state := .waiting t } := ⟨_, _, rfl⟩

theorem Subscriber.quit_spec {s : Service} {x : Subscriber} (hs : (s.hub x.hub).stopped = true) :
    Subscriber.Step s x (x.quit s).1 (x.quit s).2 := by
  unfold quit
  split
  · rename_i n received l hx hl
    exact .quit hs l hl n received hx
  · exact .stop (.inr hs)

theorem Subscriber.listen_spec {s t : Service} {x x' : Subscriber} {choice : Choice} {l : Broker.Line} {n : Nat}
    {received : Bool} (hl : s.line = some l) (hx : x.state = .listening n received)
    (h : x.listen s choice l n received = some (x', t)) : Subscriber.Step s x x' t := by
  unfold listen at h
  split at h
  · cases h
  · rename_i m b hr
    cases h
    exact .message l hl n received hx m b hr
  · rename_i b hr
    obtain ⟨delay, t', hp⟩ := pause_eq s x choice received
    rw [hp] at h
    cases h
    exact .ended l hl n received hx b hr delay t'

theorem Subscriber.proceed_spec {s t : Service} {x x' : Subscriber} {choice : Choice}
    (h : x.proceed s choice = some (x', t)) : Subscriber.Step s x x' t := by
  unfold proceed at h
  split at h
  · cases h
  · rename_i hl _
    cases h
    exact .stop (.inl hl)
  · rename_i l hl hx
    rcases hm : l.subscribe s.now patterns with ⟨made, l'⟩
    have hl' : l' = (l.subscribe s.now patterns).2 := by rw [hm]
    simp only [hm] at h
    subst hl'
    cases made with
    | ok n => cases h; exact .subscribed l hl hx n (by rw [hm])
    | error e =>
      obtain ⟨delay, t', hp⟩ := pause_eq { s with line := some (l.subscribe s.now patterns).2 } x choice false
      simp only [hp] at h
      cases h
      exact .refused l hl hx e (by rw [hm]) delay t'
  · rename_i l n received hl hx
    exact listen_spec hl hx h
  · rename_i l n k hl hx
    cases h
    exact .relayed n k hx
  · rename_i l n f hnd hl hx
    cases h
    exact .relay n f _ hx _ (Fanout.step_spec s f fun k hk => hnd k hk)
  · rename_i l t' hl hx
    split at h <;> cases h
    exact .retry t' hx
  · cases h

theorem Subscriber.step_spec {s t : Service} {x x' : Subscriber} {choice : Choice}
    (h : x.step s choice = some (x', t)) : Subscriber.Step s x x' t := by
  unfold step at h
  split at h
  · rename_i hs
    have hs : (s.hub x.hub).stopped = true := (Bool.and_eq_true_iff.1 hs).1
    split at h
    · cases h; exact quit_spec hs
    · cases hp : x.proceed s choice with
      | none => rw [hp] at h; cases h; exact quit_spec hs
      | some y => rw [hp] at h; cases h; exact proceed_spec hp
  · exact proceed_spec h

end Parley.Hub
