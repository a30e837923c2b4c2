import Parley.Broker.Line

/-!
What a command does to the broker's feeds and subscriptions: a publish that is accepted adds one
message at the end of the current feed, a subscription begins at that end, a reader moves its own
place and only forward. Everything else, refused commands and commands on records included, leaves
feeds and subscriptions as they are (`SameTraffic`).
-/

namespace Parley.MemoryBroker

open Broker

variable {b b' : MemoryBroker}

structure SameTraffic (b b' : MemoryBroker) : Prop where
  feeds : b'.feeds = b.feeds
  subscriptions : b'.subscriptions = b.subscriptions

theorem SameTraffic.refl (b : MemoryBroker) : SameTraffic b b := ⟨rfl, rfl⟩

/-! ### Publishing -/

theorem publish_error {m : Message} {e : Error} (h : (b.publish m).1 = .error e) : SameTraffic b (b.publish m).2 := by
  unfold publish at h ⊢
  cases ha : b.available with
  | true => simp [ha] at h
  | false => exact ⟨rfl, rfl⟩

theorem publish_ok {m : Message} (h : (b.publish m).1 = .ok ()) :
    (b.publish m).2.feeds = b.feeds.modify b.current (·.push m) ∧ (b.publish m).2.subscriptions = b.subscriptions := by
  unfold publish at h ⊢
  cases ha : b.available with
  | true => exact ⟨rfl, rfl⟩
  | false => simp [ha] at h

@[simp] theorem publish_available (m : Message) : (b.publish m).2.available = b.available := by
  simp only [publish]; split <;> rfl

theorem publish_of_available (m : Message) (h : b.available = true) : (b.publish m).1 = .ok () := by
  simp [publish, h]

/-- The feeds after one more message on the current one. -/
theorem feed_modify_current (hb : 0 < b.feeds.size) {m : Message}
    (h : b'.feeds = b.feeds.modify b.current (·.push m)) (n : Nat) :
    b'.feed n = if n = b.current then (b.feed n).push m else b.feed n := by
  have hc : b.current < b.feeds.size := by unfold current; omega
  unfold feed
  rw [h, Array.getD_eq_getD_getElem?, Array.getD_eq_getD_getElem?, Array.getElem?_modify]
  by_cases hn : n = b.current
  · subst hn
    rw [if_pos rfl, if_pos rfl, Array.getElem?_eq_getElem hc]
    rfl
  · rw [if_neg (Ne.symm hn), if_neg hn]

/-! ### Records -/

theorem setEx_traffic (now : Instant) (key value : String) (ttl : Nat) :
    SameTraffic b (b.setEx now key value ttl).2 := by
  unfold setEx; split <;> exact ⟨rfl, rfl⟩

/-! ### Subscribing -/

theorem subscribe_error {patterns : List String} {e : Error} (h : (b.subscribe patterns).1 = .error e) :
    (b.subscribe patterns).2 = b := by
  unfold subscribe at h ⊢
  split
  · rfl
  · rename_i ha
    rw [if_neg ha] at h
    split at h <;> first | rfl | cases h

theorem subscribe_ok {patterns : List String} {n : Nat} (h : (b.subscribe patterns).1 = .ok n) :
    n = b.subscriptions.size ∧ ∃ globs, readPatterns patterns = .ok globs ∧
      (b.subscribe patterns).2.feeds = b.feeds ∧ (b.subscribe patterns).2.subscriptions =
        b.subscriptions.push { feed := b.current, position := (b.feed b.current).size, patterns := globs } := by
  unfold subscribe at h ⊢
  split at h
  · cases h
  · rename_i ha
    rw [if_neg ha]
    split at h
    · cases h
    · rename_i globs hg
      cases h
      exact ⟨rfl, globs, hg, rfl, rfl⟩

@[simp] theorem subscribe_available (patterns : List String) : (b.subscribe patterns).2.available = b.available := by
  unfold subscribe
  split
  · rfl
  · split <;> rfl

/-! ### Reading -/

/-- The search for a message stops at the first one that is asked for, not before its start. -/
theorem seek_spec (messages : Array Message) (patterns : List Glob) (start : Nat) :
    start ≤ seek messages patterns start ∧
      (∀ i (h : i < messages.size), start ≤ i → i < seek messages patterns start →
        patterns.any (·.accepts messages[i].channel) = false) := by
  induction hk : messages.size - start generalizing start with
  | zero =>
    rw [seek, dif_neg (by omega)]
    exact ⟨Nat.le_refl start, fun i h h1 h2 => absurd h2 (by omega)⟩
  | succ k ih =>
    rw [seek, dif_pos (by omega)]
    split
    · exact ⟨Nat.le_refl start, fun i h h1 h2 => absurd h2 (by omega)⟩
    · rename_i hno
      obtain ⟨hle, hall⟩ := ih (start + 1) (by omega)
      refine ⟨by omega, fun i h h1 h2 => ?_⟩
      by_cases hi : i = start
      · subst hi; simpa using hno
      · exact hall i h (by omega) h2

theorem seek_le {messages : Array Message} {patterns : List Glob} {start : Nat} (h : start ≤ messages.size) :
    seek messages patterns start ≤ messages.size := by
  induction hk : messages.size - start generalizing start with
  | zero =>
    rw [seek, dif_neg (by omega)]
    exact h
  | succ k ih =>
    rw [seek, dif_pos (by omega)]
    split
    · exact h
    · exact ih (by omega) (by omega)

theorem seek_accepts {messages : Array Message} {patterns : List Glob} {start : Nat} {m : Message}
    (h : messages[seek messages patterns start]? = some m) : patterns.any (·.accepts m.channel) = true := by
  induction hk : messages.size - start generalizing start with
  | zero =>
    rw [seek, dif_neg (by omega), Array.getElem?_eq_none (by omega)] at h
    cases h
  | succ k ih =>
    have hlt : start < messages.size := by omega
    rw [seek, dif_pos hlt] at h
    split at h
    · rename_i ha
      rw [Array.getElem?_eq_getElem hlt] at h
      cases h
      exact ha
    · exact ih h (by omega)

/-- A reader takes the message at its place, or at a later one where messages were lost or are not
asked for, and then stands behind it. -/
theorem receive_message {n : Nat} {m : Message} (h : b.receive n = (.message m, b')) :
    ∃ s place, b.subscriptions[n]? = some s ∧
      place = seek (b.feed s.feed) s.patterns (max s.position (oldest (b.feed s.feed).size)) ∧
      (b.feed s.feed)[place]? = some m ∧
      b' = { b with subscriptions := b.subscriptions.set! n { s with position := place + 1 } } := by
  unfold receive at h
  split at h
  · cases h
  · rename_i s hs
    split at h
    · cases h
    · simp only at h
      split at h
      · rename_i m' hm
        cases h
        exact ⟨s, _, hs, rfl, hm, rfl⟩
      · split at h <;> cases h

/-- A reader comes to the end of its subscription when it was given up or its feed is not the current
one; the feeds and the other subscriptions stay. -/
theorem receive_ended {n : Nat} (h : b.receive n = (.ended, b')) :
    b'.feeds = b.feeds ∧ b'.available = b.available ∧ (∀ k, k ≠ n → b'.subscriptions[k]? = b.subscriptions[k]?) ∧
      ∀ s, b.subscriptions[n]? = some s → s.dropped = true ∨ s.feed ≠ b.current := by
  unfold receive at h
  split at h
  · rename_i hn
    cases h
    exact ⟨rfl, rfl, fun _ _ => rfl, fun s hs => by rw [hn] at hs; cases hs⟩
  · rename_i s hn
    split at h
    · rename_i hd
      cases h
      exact ⟨rfl, rfl, fun _ _ => rfl, fun t ht => by rw [hn] at ht; cases ht; exact .inl hd⟩
    · simp only at h
      split at h
      · cases h
      · split at h
        · cases h
        · rename_i hf
          cases h
          refine ⟨rfl, rfl, fun k hk => ?_, fun t ht => by rw [hn] at ht; cases ht; exact .inr hf⟩
          rw [Array.set!_eq_setIfInBounds, Array.getElem?_setIfInBounds, if_neg hk.symm]

/-- A read that finds nothing: everything from the place of the subscription on was looked at. -/
theorem receive_nothing {b b' : MemoryBroker} {n : Nat} {d : Delivery} {s : Subscription}
    (h : b.receive n = (d, b')) (hs : b.subscriptions[n]? = some s) (hd : s.dropped = false)
    (hm : ∀ m, d ≠ .message m) :
    ∃ place, place = seek (b.feed s.feed) s.patterns (max s.position (oldest (b.feed s.feed).size)) ∧
      (b.feed s.feed)[place]? = none ∧ (d = .waiting ∧ s.feed = b.current ∨ d = .ended ∧ s.feed ≠ b.current) ∧
      b' = { b with subscriptions := b.subscriptions.set! n { s with position := place } } := by
  unfold receive at h
  rw [hs] at h
  dsimp only at h
  rw [if_neg (by simp [hd])] at h
  split at h
  · cases h
    exact absurd rfl (hm _)
  · rename_i hnone
    refine ⟨_, rfl, hnone, ?_⟩
    split at h <;> rename_i hc <;> cases h
    · exact ⟨.inl ⟨rfl, hc⟩, rfl⟩
    · exact ⟨.inr ⟨rfl, hc⟩, rfl⟩

theorem SameTraffic.receive_fst (h : SameTraffic b b') (n : Nat) : (b'.receive n).1 = (b.receive n).1 := by
  have hfeed (k : Nat) : b'.feed k = b.feed k := by rw [feed, h.feeds, feed]
  have hcurrent : b'.current = b.current := by rw [current, h.feeds, current]
  unfold receive
  rw [h.subscriptions]
  cases b.subscriptions[n]? with
  | none => rfl
  | some s =>
    dsimp only
    rw [hfeed, hcurrent]
    split
    · rfl
    · split
      · rfl
      · split <;> rfl

theorem receive_others (b : MemoryBroker) (n : Nat) :
    (b.receive n).2.feeds = b.feeds ∧ ∀ k, k ≠ n → (b.receive n).2.subscriptions[k]? = b.subscriptions[k]? := by
  have hset : ∀ s k, k ≠ n → (b.subscriptions.set! n s)[k]? = b.subscriptions[k]? := fun s k hk => by
    rw [Array.set!_eq_setIfInBounds, Array.getElem?_setIfInBounds_ne (Ne.symm hk)]
  unfold receive
  split
  · exact ⟨rfl, fun _ _ => rfl⟩
  · split
    · exact ⟨rfl, fun _ _ => rfl⟩
    · dsimp only
      split
      · exact ⟨rfl, hset _⟩
      · split
        · exact ⟨rfl, hset _⟩
        · exact ⟨rfl, hset _⟩

end Parley.MemoryBroker

namespace Parley.Broker.Line

variable (l : Line) (now : Instant)

/-! ### Calls on the line -/

/-- A call either fails on the line and does not reach the broker, or the broker runs it. -/
theorem call_cases {α : Type} (c : Call) (run : MemoryBroker → Except Error α × MemoryBroker) :
    (∃ e, (l.call now c run).1 = .error e ∧ (l.call now c run).2.broker = l.broker) ∨
      ((l.call now c run).1 = (run l.broker).1 ∧ (l.call now c run).2.broker = (run l.broker).2) := by
  unfold call takePlan
  cases l.plans.find? (·.kind == c.kind) with
  | none => exact .inr ⟨rfl, rfl⟩
  | some p =>
    cases hf : p.failure with
    | some k => exact .inl ⟨⟨k, l.said⟩, by simp [hf], by simp [hf]⟩
    | none => exact .inr ⟨by simp [hf], by simp [hf]⟩

theorem journal_call {α : Type} (c : Call) (run : MemoryBroker → Except Error α × MemoryBroker) :
    (l.call now c run).2.journal = l.journal ++ [⟨now, c, (l.call now c run).1.map fun _ => ()⟩] := by
  unfold call takePlan
  cases l.plans.find? (·.kind == c.kind) <;> rfl

theorem call_of_plans_nil {α : Type} (c : Call) (run : MemoryBroker → Except Error α × MemoryBroker)
    (h : l.plans = []) :
    (l.call now c run).1 = (run l.broker).1 ∧ (l.call now c run).2.broker = (run l.broker).2 ∧
      (l.call now c run).2.plans = [] := by
  simp [call, takePlan, h]

theorem publish_error {m : Message} {e : Error} (h : (l.publish now m).1 = .error e) :
    MemoryBroker.SameTraffic l.broker (l.publish now m).2.broker := by
  unfold publish at h ⊢
  rcases l.call_cases now (.publish m) (·.publish m) with ⟨_, _, hb⟩ | ⟨ho, hb⟩
  · rw [hb]; exact .refl _
  · rw [hb]
    exact MemoryBroker.publish_error (ho.symm.trans h)

theorem publish_ok {m : Message} (h : (l.publish now m).1 = .ok ()) :
    (l.publish now m).2.broker.feeds = l.broker.feeds.modify l.broker.current (·.push m) ∧
      (l.publish now m).2.broker.subscriptions = l.broker.subscriptions := by
  unfold publish at h ⊢
  rcases l.call_cases now (.publish m) (·.publish m) with ⟨e, he, _⟩ | ⟨ho, hb⟩
  · rw [he] at h; cases h
  · rw [hb]
    exact MemoryBroker.publish_ok (ho.symm.trans h)

theorem setEx_traffic (key value : String) (ttl : Duration) :
    MemoryBroker.SameTraffic l.broker (l.setEx now key value ttl).2.broker := by
  unfold setEx
  rcases l.call_cases now (.setEx key value ttl) (·.setEx now key value ttl.nanos) with ⟨_, _, hb⟩ | ⟨_, hb⟩
  · rw [hb]; exact .refl _
  · rw [hb]
    exact MemoryBroker.setEx_traffic ..

theorem subscribe_error {patterns : List String} {e : Error} (h : (l.subscribe now patterns).1 = .error e) :
    (l.subscribe now patterns).2.broker = l.broker := by
  unfold subscribe at h ⊢
  rcases l.call_cases now (.subscribe patterns) (·.subscribe patterns) with ⟨_, _, hb⟩ | ⟨ho, hb⟩
  · exact hb
  · rw [hb]
    exact MemoryBroker.subscribe_error (ho.symm.trans h)

theorem subscribe_ok {patterns : List String} {n : Nat} (h : (l.subscribe now patterns).1 = .ok n) :
    n = l.broker.subscriptions.size ∧ ∃ globs, MemoryBroker.readPatterns patterns = .ok globs ∧
      (l.subscribe now patterns).2.broker.feeds = l.broker.feeds ∧
      (l.subscribe now patterns).2.broker.subscriptions = l.broker.subscriptions.push
        { feed := l.broker.current, position := (l.broker.feed l.broker.current).size, patterns := globs } := by
  unfold subscribe at h ⊢
  rcases l.call_cases now (.subscribe patterns) (·.subscribe patterns) with ⟨e, he, _⟩ | ⟨ho, hb⟩
  · rw [he] at h; cases h
  · rw [hb]
    exact MemoryBroker.subscribe_ok (ho.symm.trans h)

end Parley.Broker.Line
