import Parley.Proofs.Delivery.Paths

/-!
# How often a publish is tried

`Activity.run` is an activity in its surroundings: in every turn it finds a service, of which anything may have
changed, and does what it can. `Doing` is what it does then, the lengths of its pauses included.

* `ends`: every activity comes to its end, as long as time passes.
* `Retried` are failed attempts in a row, each with one pause behind it, and `Complete` is a publish that is through.
* `publish_retried` is the `Contract` of a publish, for any policy that fits and any outcomes of its attempts.
-/

namespace Parley

open Hub

namespace Hub

/-- Something that an activity does on its way. -/
inductive Doing where
  | deed (d : Deed)
  | sleep (nanos : ℕ)

/-- The attempt that it is, if it is one: the message and how it was answered. -/
def Doing.attempt? : Doing → Option (Broker.Message × Broker.Outcome)
  | .deed (.call (.publish m) outcome) => some (m, outcome)
  | _ => none

def attempts (ds : List Doing) : List (Broker.Message × Broker.Outcome) := ds.filterMap Doing.attempt?

@[simp] theorem attempts_append (ds es : List Doing) : attempts (ds ++ es) = attempts ds ++ attempts es :=
  List.filterMap_append

/-- What an activity finds in its turns. Between two of them anything may happen. -/
structure Surroundings where
  service : ℕ → Service
  choice : ℕ → Choice

namespace Surroundings

def later (w : Surroundings) (k : ℕ) : Surroundings := ⟨fun j => w.service (k + j), fun j => w.choice (k + j)⟩

/-- The policy stays, and time passes. -/
structure Lasting (w : Surroundings) (p : RetryPolicy) : Prop where
  policy : ∀ k, (w.service k).policy = p
  passes : ∀ k instant, ∃ j, k ≤ j ∧ instant ≤ (w.service j).now

theorem Lasting.later {w : Surroundings} {p : RetryPolicy} (h : w.Lasting p) (k : ℕ) : (w.later k).Lasting p where
  policy j := h.policy (k + j)
  passes i instant := by
    obtain ⟨j, hj, hinstant⟩ := h.passes (k + i) instant
    obtain ⟨d, rfl⟩ := Nat.exists_eq_add_of_le hj
    refine ⟨i + d, Nat.le_add_right i d, ?_⟩
    show instant ≤ (w.service (k + (i + d))).now
    rwa [← Nat.add_assoc]

end Surroundings

namespace Activity

/-- The pause that begins when an activity comes to stand so. -/
def pause (s : Service) : Activity → List Doing
  | .pausing _ _ resume => [.sleep (resume - s.now)]
  | _ => []

def turn (s : Service) (choice : Choice) (a : Activity) : Activity × List Doing :=
  match a.step s choice with
  | none => (a, [])
  | some (b, t) => (b, (a.begins ++ calls s t).map .deed ++ b.pause s)

/-- Where an activity stands after its first turns, and what it has done in them. -/
def run (w : Surroundings) (a : Activity) : ℕ → Activity × List Doing
  | 0 => (a, [])
  | k + 1 =>
    let (b, ds) := run w a k
    let (c, es) := b.turn (w.service k) (w.choice k)
    (c, ds ++ es)

variable {w : Surroundings} {p : RetryPolicy} {s t : Service} {choice : Choice} {a b : Activity} {k : ℕ}

theorem turn_of_step (h : a.step s choice = some (b, t)) :
    a.turn s choice = (b, (a.begins ++ calls s t).map .deed ++ b.pause s) := by simp [turn, h]

theorem turn_of_none (h : a.step s choice = none) : a.turn s choice = (a, []) := by simp [turn, h]

theorem turn_pausing_of_not_le (post : Post) (n : UInt32) {instant : Instant} (choice : Choice)
    (h : ¬ instant ≤ s.now) :
    (Activity.pausing post n instant).turn s choice = (.pausing post n instant, []) := turn_of_none (if_neg h)

theorem turn_pausing_of_le (post : Post) (n : UInt32) {instant : Instant} (choice : Choice) (h : instant ≤ s.now) :
    (Activity.pausing post n instant).turn s choice = (.attempting post n, []) := by
  have hstep : (Activity.pausing post n instant).step s choice = some (.attempting post n, s) := if_pos h
  simp [turn_of_step hstep, begins, pause, calls_of_line]

theorem run_succ (w : Surroundings) (a : Activity) (k : ℕ) : run w a (k + 1) =
    (((run w a k).1.turn (w.service k) (w.choice k)).1,
      (run w a k).2 ++ ((run w a k).1.turn (w.service k) (w.choice k)).2) := rfl

theorem run_one_add (w : Surroundings) (a : Activity) (k : ℕ) :
    (run w a (1 + k)).1 = (run (w.later 1) (a.turn (w.service 0) (w.choice 0)).1 k).1 := by
  induction k with
  | zero => rfl
  | succ k ih =>
    rw [← Nat.add_assoc, run_succ, run_succ, ih]
    rfl

theorem run_of_finished {r : Except PublishError Unit} {ds : List Doing} (h : run w a k = (.finished r, ds)) (j : ℕ) :
    run w a (k + j) = (.finished r, ds) := by
  induction j with
  | zero => exact h
  | succ j ih => rw [← Nat.add_assoc, run_succ, ih, turn_of_none rfl, List.append_nil]

/-! ### Every activity comes to its end -/

def Ends (w : Surroundings) (a : Activity) : Prop := ∃ k r, (run w a k).1 = .finished r

theorem Ends.of_turn (h : Ends (w.later 1) (a.turn (w.service 0) (w.choice 0)).1) : Ends w a := by
  obtain ⟨k, r, hk⟩ := h
  exact ⟨1 + k, r, (run_one_add w a k).trans hk⟩

theorem Ends.of_step {x : Activity × Service} (h : a.step (w.service 0) (w.choice 0) = some x)
    (hb : Ends (w.later 1) x.1) : Ends w a := by
  refine .of_turn ?_
  rwa [turn_of_step h]

theorem ends_finished (w : Surroundings) (r : Except PublishError Unit) : Ends w (.finished r) := ⟨0, r, rfl⟩

theorem ends_done (w : Surroundings) (sent : ℕ) (r : Except PublishError Unit) : Ends w (.delivering (.done sent) r) :=
  .of_step rfl (ends_finished _ r)

theorem ends_handing (w : Surroundings) (frame : String) (rest : List ConnId) (sent : ℕ)
    (r : Except PublishError Unit) :
    Ends w (.delivering (.handing frame rest sent) r) := by
  induction rest generalizing w sent with
  | nil => exact .of_step rfl (ends_done _ sent r)
  | cons c rest ih =>
    refine .of_step rfl ?_
    show Ends _ (.delivering (Fanout.step (w.service 0) (.handing frame (c :: rest) sent)).1 r)
    obtain ⟨sent', hstep⟩ := Fanout.step_handing (w.service 0) frame c rest sent
    rw [hstep]
    exact ih _ sent'

theorem ends_delivering (w : Surroundings) (f : Fanout) (r : Except PublishError Unit) : Ends w (.delivering f r) := by
  cases f with
  | listing hub room frame =>
    cases frame with
    | none => exact .of_step rfl (ends_done _ 0 r)
    | some text => exact .of_step rfl (ends_handing _ text _ 0 r)
  | handing frame rest sent => exact ends_handing w frame rest sent r
  | done sent => exact ends_done w sent r

/-- A pause is over once its instant has come, which is in turn `j` at the latest. -/
theorem ends_pausing {post : Post} {n : UInt32} {instant : Instant} {j : ℕ} (hw : w.Lasting p)
    (hj : instant ≤ (w.service j).now) (h : ∀ w' : Surroundings, w'.Lasting p → Ends w' (.attempting post n)) :
    Ends w (.pausing post n instant) := by
  induction j generalizing w with
  | zero =>
    refine .of_turn ?_
    rw [turn_pausing_of_le post n _ hj]
    exact h _ (hw.later 1)
  | succ j ih =>
    by_cases hnow : instant ≤ (w.service 0).now
    · refine .of_turn ?_
      rw [turn_pausing_of_le post n _ hnow]
      exact h _ (hw.later 1)
    · refine .of_turn ?_
      rw [turn_pausing_of_not_le post n _ hnow]
      refine ih (hw.later 1) ?_
      show instant ≤ (w.service (1 + j)).now
      rwa [Nat.add_comm]

/-- An attempt ends, and every one after it: there are fewer left each time. -/
theorem ends_attempting (hw : w.Lasting p) (post : Post) (n : UInt32) : Ends w (.attempting post n) := by
  generalize hk : p.maxAttempts.toNat - n.toNat = k
  induction k using Nat.strongRecOn generalizing w n with
  | ind k ih =>
    refine .of_step rfl ?_
    cases hl : (w.service 0).line with
    | none =>
      simp only [attempt, hl]
      exact ends_delivering _ _ _
    | some l =>
      cases he : post.event with
      | error reason =>
        simp only [attempt, hl, he]
        exact ends_finished _ _
      | ok text =>
        rw [attempt_eq hl he]
        unfold afterAttempt
        cases (l.publish (w.service 0).now (post.message text)).1 with
        | ok u => exact ends_finished _ _
        | error e =>
          rw [next_error, hw.policy]
          by_cases hn : p.maxAttempts ≤ n
          · rw [if_pos hn]
            exact ends_delivering _ _ _
          · rw [if_neg hn]
            cases (p.backoff n).add? (p.jitter (w.choice 0).draw) with
            | none => exact ends_finished _ _
            | some delay =>
              have hless := left_succ hn
              obtain ⟨j, -, hj⟩ := (hw.later 1).passes 0 ((w.service 0).now + delay.nanos)
              exact ends_pausing (hw.later 1) hj fun w' hw' => ih _ (by omega) hw' (n + 1) rfl

/-- **Every activity comes to its end**, whatever the broker does. -/
theorem ends (hw : w.Lasting p) (a : Activity) : Ends w a := by
  cases a with
  | recording post user status =>
    refine .of_step rfl ?_
    cases hl : (w.service 0).line with
    | none =>
      simp only [recordStatus, Service.onLine, hl, Option.map_none]
      exact ends_delivering _ _ _
    | some l =>
      simp only [recordStatus, Service.onLine, hl, Option.map_some]
      exact ends_attempting (hw.later 1) post 1
  | attempting post n => exact ends_attempting hw post n
  | pausing post n instant =>
    obtain ⟨j, -, hj⟩ := hw.passes 0 instant
    exact ends_pausing hw hj fun w' hw' => ends_attempting hw' post n
  | delivering f r => exact ends_delivering w f r
  | finished r => exact ends_finished w r

/-! ### What is done in a turn -/

def tried (post : Post) (text : String) (outcome : Broker.Outcome) : Doing :=
  .deed (.call (.publish (post.message text)) outcome)

section Turns

variable {post : Post} {text : String} {n : UInt32} {l : Broker.Line} (hl : s.line = some l)
  (he : post.event = .ok text)

include hl he in
theorem turn_attempting (choice : Choice) : (Activity.attempting post n).turn s choice =
    (afterAttempt s post n choice.draw (l.publish s.now (post.message text)).1,
      tried post text (l.publish s.now (post.message text)).1 ::
        (afterAttempt s post n choice.draw (l.publish s.now (post.message text)).1).pause s) := by
  have hstep : (Activity.attempting post n).step s choice = some (afterAttempt s post n choice.draw
      (l.publish s.now (post.message text)).1, { s with line := some (l.publish s.now (post.message text)).2 }) :=
    congrArg some (attempt_eq hl he n choice.draw)
  rw [turn_of_step hstep, calls_publish hl]
  rfl

include hl he in
theorem turn_accepted (choice : Choice) (ho : (l.publish s.now (post.message text)).1 = .ok ()) :
    (Activity.attempting post n).turn s choice = (.finished (.ok ()), [tried post text (.ok ())]) := by
  rw [turn_attempting hl he, ho]
  rfl

include hl he in
/-- After the last attempt comes a delivery. -/
theorem turn_exhausted (choice : Choice) {e : Broker.Error} (ho : (l.publish s.now (post.message text)).1 = .error e)
    (hn : s.policy.maxAttempts ≤ n) : (Activity.attempting post n).turn s choice =
      (.delivering post.fanout (.error (.exhausted s.policy.maxAttempts e)), [tried post text (.error e)]) := by
  rw [turn_attempting hl he, ho]
  unfold afterAttempt
  rw [next_error, if_pos hn]
  rfl

include hl he in
/-- After any other that fails comes a pause. -/
theorem turn_again (choice : Choice) {e : Broker.Error} (ho : (l.publish s.now (post.message text)).1 = .error e)
    (hn : ¬ s.policy.maxAttempts ≤ n) (hfits : s.policy.Fits) : ∃ instant d,
      (s.policy.backoff n).nanos ≤ d ∧ d ≤ (s.policy.backoff n).nanos + s.policy.maxJitter.nanos ∧
        (Activity.attempting post n).turn s choice =
          (.pausing post (n + 1) instant, [tried post text (.error e), .sleep d]) := by
  obtain ⟨delay, hadd, hlow, hhigh⟩ := hfits.exists_delay n choice.draw
  refine ⟨s.now + delay.nanos, delay.nanos, hlow, hhigh, ?_⟩
  have hafter : afterAttempt s post n choice.draw (.error e) = .pausing post (n + 1) (s.now + delay.nanos) := by
    unfold afterAttempt
    rw [next_error, if_neg hn, hadd]
  rw [turn_attempting hl he, ho, hafter, pause, Nat.add_sub_cancel_left]

end Turns

theorem turn_delivering (s : Service) (choice : Choice) (f : Fanout) (r : Except PublishError Unit) :
    (∃ f', (Activity.delivering f r).turn s choice = (.delivering f' r, (begins (.delivering f r)).map .deed) ∧
      begins (.delivering f' r) = []) ∨
    (Activity.delivering f r).turn s choice = (.finished r, (begins (.delivering f r)).map .deed) := by
  by_cases hf : ∃ k, f = .done k
  · obtain ⟨k, rfl⟩ := hf
    have hstep : (Activity.delivering (.done k) r).step s choice = some (.finished r, s) := rfl
    exact .inr (by simp [turn_of_step hstep, calls_of_line, pause])
  · have hspec := Fanout.step_spec s f fun k hk => hf ⟨k, hk⟩
    have hstep : (Activity.delivering f r).step s choice = some (.delivering (f.step s).1 r, (f.step s).2) := by
      cases f with
      | done k => exact absurd ⟨k, rfl⟩ hf
      | _ => rfl
    refine .inl ⟨_, ?_, begins_of_step hspec r⟩
    simp [turn_of_step hstep, calls_of_line hspec.line, pause]

/-! ### What a publish keeps to -/

section Contract

variable (p : RetryPolicy) (post : Post) (text : String) (o : ℕ → Broker.Outcome)

/-- Attempts in a row that failed, with one pause after each. Attempt number `i + 1` is answered with `o i`. -/
inductive Retried : ℕ → List Doing → Prop
  | none : Retried 0 []
  | again {i : ℕ} {ds : List Doing} (h : Retried i ds) {e : Broker.Error} (ho : o i = .error e) {d : ℕ}
      (low : (p.backoff (.ofNat (i + 1))).nanos ≤ d)
      (high : d ≤ (p.backoff (.ofNat (i + 1))).nanos + p.maxJitter.nanos) :
      Retried (i + 1) (ds ++ [tried post text (.error e), .sleep d])

/-- All that a publish does, with its result: it stops at an attempt that is accepted; after the last one that the
policy allows the event goes to the hub's own connections. -/
inductive Complete : List Doing → Except PublishError Unit → Prop
  | accepted {i : ℕ} {ds : List Doing} (h : Retried p post text o i ds) (hi : i < p.budget) (ho : o i = .ok ()) :
      Complete (ds ++ [tried post text (.ok ())]) (.ok ())
  | exhausted {i : ℕ} {ds : List Doing} {e : Broker.Error} (h : Retried p post text o i ds) (hi : i + 1 = p.budget)
      (ho : o i = .error e) :
      Complete (ds ++ [tried post text (.error e), .deed (.broadcast post.hub post.room (some text))])
        (.error (.exhausted p.maxAttempts e))

/-- Where a publish stands, after what it has done. -/
def Stands (ds : List Doing) : Activity → Prop
  | .recording .. => False
  | .attempting q n | .pausing q n _ => q = post ∧ ∃ i, n.toNat = i + 1 ∧ i < p.budget ∧ Retried p post text o i ds
  | .delivering f r => Complete p post text o (ds ++ (begins (.delivering f r)).map .deed) r ∧ r ≠ .ok ()
  | .finished r => Complete p post text o ds r

end Contract

variable {post : Post} {text : String} {o : ℕ → Broker.Outcome} {ds : List Doing} {i : ℕ} {r : Except PublishError Unit}

theorem Retried.failed (h : Retried p post text o i ds) : ∀ j < i, ∃ e, o j = .error e := by
  induction h with
  | none => nofun
  | @again i ds h e ho d low high ih =>
    intro j hj
    obtain hlt | rfl := Nat.lt_succ_iff_lt_or_eq.mp hj
    · exact ih j hlt
    · exact ⟨e, ho⟩

/-- Each of the attempts has the same message, and they are answered in turn. -/
theorem Retried.attempts_eq (h : Retried p post text o i ds) :
    attempts ds = (List.range i).map fun j => (post.message text, o j) := by
  induction h with
  | none => rfl
  | again h ho low high ih =>
    rw [attempts_append, ih, List.range_succ, List.map_append, List.map_singleton, ho]
    rfl

theorem Retried.length (h : Retried p post text o i ds) : (attempts ds).length = i := by simp [h.attempts_eq]

/-- **A turn** of a publish, with the next outcome as its answer. -/
theorem Stands.turn (hfits : p.Fits) (he : post.event = .ok text) (hpolicy : s.policy = p) (choice : Choice)
    (h : Stands p post text o ds a) (ho : ∀ n, a = .attempting post n →
      ∃ l, s.line = some l ∧ (l.publish s.now (post.message text)).1 = o (attempts ds).length) :
    Stands p post text o (ds ++ (a.turn s choice).2) (a.turn s choice).1 := by
  subst hpolicy
  cases a with
  | recording q user status => exact h.elim
  | attempting q n =>
    obtain ⟨rfl, i, hn, hi, hretried⟩ := h
    obtain ⟨l, hl, hanswer⟩ := ho n rfl
    rw [hretried.length] at hanswer
    cases hout : o i with
    | ok u =>
      rw [turn_accepted hl he choice (hanswer.trans hout)]
      exact .accepted hretried hi hout
    | error e =>
      by_cases hlast : s.policy.maxAttempts ≤ n
      · rw [turn_exhausted hl he choice (hanswer.trans hout) hlast]
        -- With no attempts at all allowed the first one is made nevertheless, and is the last.
        have hle := UInt32.le_iff_toNat_le.mp hlast
        have hbudget : i + 1 = s.policy.budget := by
          unfold RetryPolicy.budget at hi ⊢
          omega
        refine ⟨?_, nofun⟩
        rw [Post.fanout, he, List.append_assoc]
        exact .exhausted hretried hbudget hout
      · obtain ⟨instant, d, hlow, hhigh, hturn⟩ := turn_again hl he choice (hanswer.trans hout) hlast hfits
        -- An attempt is left, so that this one's number is not the greatest there is and the next does not wrap.
        have hnext := RetryPolicy.toNat_succ hlast
        have hlt : n.toNat < s.policy.maxAttempts.toNat :=
          Nat.lt_of_not_le fun hle => hlast (UInt32.le_iff_toNat_le.mpr hle)
        have hnumber : n = .ofNat (i + 1) := by rw [← hn, UInt32.ofNat_toNat]
        rw [hturn]
        refine ⟨rfl, i + 1, by omega, ?_, ?_⟩
        · unfold RetryPolicy.budget
          omega
        · rw [hnumber] at hlow hhigh
          exact hretried.again hout hlow hhigh
  | pausing q n instant =>
    by_cases hnow : instant ≤ s.now
    · rw [turn_pausing_of_le q n choice hnow, List.append_nil]
      exact h
    · rw [turn_pausing_of_not_le q n choice hnow, List.append_nil]
      exact h
  | delivering f r =>
    obtain ⟨hcomplete, hr⟩ := h
    obtain ⟨f', hturn, hbegins⟩ | hturn := turn_delivering s choice f r
    · rw [hturn]
      refine ⟨?_, hr⟩
      rwa [hbegins, List.map_nil, List.append_nil]
    · rw [hturn]
      exact hcomplete
  | finished r =>
    rw [turn_of_none rfl, List.append_nil]
    exact h

/-- There is a broker, and it answers the attempts of a publish with these outcomes, one after the other. -/
def Answers (w : Surroundings) (post : Post) (text : String) (o : ℕ → Broker.Outcome) : Prop :=
  ∀ k n, (run w (.attempting post 1) k).1 = .attempting post n → ∃ l, (w.service k).line = some l ∧
    (l.publish (w.service k).now (post.message text)).1 = o (attempts (run w (.attempting post 1) k).2).length

/-- **Every turn.** -/
theorem stands_run (hfits : p.Fits) (he : post.event = .ok text) (hw : w.Lasting p)
    (ho : Answers w post text o) (k : ℕ) :
    Stands p post text o (run w (.attempting post 1) k).2 (run w (.attempting post 1) k).1 := by
  induction k with
  | zero => exact ⟨rfl, 0, rfl, p.one_le_budget, .none⟩
  | succ k ih => exact ih.turn hfits he (hw.policy k) (w.choice k) (ho k)

/-- An attempt within the budget was accepted, or all of them failed and the last error is told. -/
theorem Complete.cases (h : Complete p post text o ds r) : ∃ i < p.budget, (∀ j < i, ∃ e, o j = .error e) ∧
    attempts ds = ((List.range (i + 1)).map fun j => (post.message text, o j)) ∧
      (o i = .ok () ∧ r = .ok () ∨
        i + 1 = p.budget ∧ ∃ e, o i = .error e ∧ r = .error (.exhausted p.maxAttempts e)) := by
  cases h with
  | @accepted i ds h hi ho =>
    refine ⟨i, hi, h.failed, ?_, .inl ⟨ho, rfl⟩⟩
    rw [attempts_append, h.attempts_eq, List.range_succ, List.map_append, List.map_singleton, ho]
    rfl
  | @exhausted i ds e h hi ho =>
    refine ⟨i, by omega, h.failed, ?_, .inr ⟨hi, e, ho, rfl⟩⟩
    rw [attempts_append, h.attempts_eq, List.range_succ, List.map_append, List.map_singleton, ho]
    rfl

/-- What a publish has come to in the end. -/
structure Outcome (p : RetryPolicy) (post : Post) (text : String) (o : ℕ → Broker.Outcome) (ds : List Doing)
    (r : Except PublishError Unit) : Prop where
  complete : Complete p post text o ds r
  /-- Every attempt had the same message. -/
  answered : attempts ds = (List.range (attempts ds).length).map fun i => (post.message text, o i)
  /-- There were as many as it took, within the budget. -/
  first : ∀ k, (∀ i < k, o i ≠ .ok ()) → o k = .ok () → (attempts ds).length = min (k + 1) p.budget
  never : (∀ i, o i ≠ .ok ()) → (attempts ds).length = p.budget
  ok_iff : r = .ok () ↔ ∃ i < p.budget, o i = .ok ()
  /-- Where none was accepted the last error is told. -/
  exhausted : (∀ i < p.budget, o i ≠ .ok ()) →
    ∃ e, o (p.budget - 1) = .error e ∧ r = .error (.exhausted p.maxAttempts e)

theorem Complete.outcome (h : Complete p post text o ds r) : Outcome p post text o ds r := by
  obtain ⟨i, hi, hfailed, hattempts, hend⟩ := h.cases
  have hlength : (attempts ds).length = i + 1 := by simp [hattempts]
  have hne : ∀ j < i, o j ≠ .ok () := by
    intro j hj hok
    obtain ⟨e, he⟩ := hfailed j hj
    simp [hok] at he
  refine { complete := h, answered := ?answered, first := ?first, never := ?never,
           ok_iff := ?ok_iff, exhausted := ?exhausted }
  case answered =>
    rw [hlength]
    exact hattempts
  case first =>
    intro k hbefore hk
    have hik : i ≤ k := Nat.le_of_not_lt fun hlt => hne k hlt hk
    obtain ⟨hok, -⟩ | ⟨hlast, e, he, -⟩ := hend
    · have hki : k ≤ i := Nat.le_of_not_lt fun hlt => hbefore i hlt hok
      omega
    · omega
  case never =>
    intro hnever
    obtain ⟨hok, -⟩ | ⟨hlast, -⟩ := hend
    · exact absurd hok (hnever i)
    · omega
  case ok_iff =>
    obtain ⟨hok, rfl⟩ | ⟨hlast, e, he, rfl⟩ := hend
    · exact ⟨fun _ => ⟨i, hi, hok⟩, fun _ => rfl⟩
    · refine ⟨nofun, ?_⟩
      rintro ⟨j, hj, hok⟩
      obtain hlt | rfl : j < i ∨ j = i := by omega
      · exact absurd hok (hne j hlt)
      · simp [he] at hok
  case exhausted =>
    intro hnone
    obtain ⟨hok, -⟩ | ⟨hlast, e, he, hr⟩ := hend
    · exact absurd hok (hnone i hi)
    · exact ⟨e, by rwa [← hlast, Nat.add_sub_cancel], hr⟩

/-- What a publish of an event with a text keeps to. -/
structure Contract (w : Surroundings) (p : RetryPolicy) (post : Post) (text : String)
    (o : ℕ → Broker.Outcome) : Prop where
  /-- It comes to its end, and does nothing afterwards. -/
  ends : ∃ k ds r, (∀ j, k ≤ j → run w (.attempting post 1) j = (.finished r, ds)) ∧ Outcome p post text o ds r
  /-- The number of an attempt counts those before it, and stays within the budget. -/
  counted : ∀ k n, ((run w (.attempting post 1) k).1 = .attempting post n ∨
      ∃ instant, (run w (.attempting post 1) k).1 = .pausing post n instant) →
    n.toNat = (attempts (run w (.attempting post 1) k).2).length + 1 ∧ n.toNat ≤ p.budget
  /-- Where an attempt is accepted the publish itself does nothing to the connections. -/
  untouched : (∃ i < p.budget, o i = .ok ()) → ∀ k b t,
    (run w (.attempting post 1) k).1.step (w.service k) (w.choice k) = some (b, t) → (w.service k).SameHubs t

theorem Stands.counted {q : Post} {n : UInt32} (h : Stands p post text o ds (.attempting q n)) :
    n.toNat = (attempts ds).length + 1 ∧ n.toNat ≤ p.budget := by
  obtain ⟨-, i, hn, hi, hretried⟩ := h
  exact ⟨by rw [hn, hretried.length], by omega⟩

theorem sameHubs_of_step (h : a.step s choice = some (b, t)) (ha : ∀ f r, a ≠ .delivering f r) : s.SameHubs t := by
  cases step_spec h with
  | deliver f f' t r hf => exact absurd rfl (ha f r)
  | _ => exact ⟨rfl, rfl⟩

/-- **What every publish keeps to**, whatever its policy and the outcomes of its attempts. -/
theorem publish_retried {hub : ℕ} {room : String} {category : Category} (hfits : p.Fits) (hw : w.Lasting p)
    (ho : Answers w ⟨hub, room, category, .ok text⟩ text o) : Contract w p ⟨hub, room, category, .ok text⟩ text o where
  ends := by
    obtain ⟨k, r, hk⟩ := ends hw (.attempting ⟨hub, room, category, .ok text⟩ 1)
    have hstands := stands_run hfits rfl hw ho k
    rw [hk] at hstands
    refine ⟨k, _, r, fun j hj => ?_, Complete.outcome hstands⟩
    obtain ⟨d, rfl⟩ := Nat.exists_eq_add_of_le hj
    exact run_of_finished (Prod.ext hk rfl) d
  counted k n hk := by
    have hstands := stands_run hfits rfl hw ho k
    obtain hk | ⟨instant, hk⟩ := hk <;> rw [hk] at hstands
    · exact hstands.counted
    · exact Stands.counted (show Stands p _ text o _ (.attempting _ n) from hstands)
  untouched hok k b t hstep := by
    refine sameHubs_of_step hstep fun f r hk => ?_
    have hstands := stands_run hfits rfl hw ho k
    rw [hk] at hstands
    exact hstands.2 (hstands.1.outcome.ok_iff.mpr hok)

/-! ### Every pattern of outcomes occurs -/

def lineFor : Broker.Outcome → Broker.Line
  | .ok () => {}
  | .error e => { plans := [⟨.publish, some e.kind⟩], said := e.detail }

theorem publish_lineFor (outcome : Broker.Outcome) (now : Instant) (m : Broker.Message) :
    ((lineFor outcome).publish now m).1 = outcome := by
  cases outcome <;> rfl

/-- The service in turn `k` of a publish that has done `ds`, if its attempts are to have these outcomes. -/
def serviceFor (p : RetryPolicy) (o : ℕ → Broker.Outcome) (k : ℕ) (ds : List Doing) : Service :=
  { policy := p, now := k, line := some (lineFor (o (attempts ds).length)) }

def runFor (p : RetryPolicy) (o : ℕ → Broker.Outcome) (a : Activity) : ℕ → Activity × List Doing
  | 0 => (a, [])
  | k + 1 =>
    let (b, ds) := runFor p o a k
    let (c, es) := b.turn (serviceFor p o k ds) {}
    (c, ds ++ es)

/-- Surroundings in which the attempts of an activity have these outcomes. -/
def surroundingsFor (p : RetryPolicy) (o : ℕ → Broker.Outcome) (a : Activity) : Surroundings where
  service k := serviceFor p o k (runFor p o a k).2
  choice _ := {}

theorem run_surroundingsFor (p : RetryPolicy) (o : ℕ → Broker.Outcome) (a : Activity) (k : ℕ) :
    run (surroundingsFor p o a) a k = runFor p o a k := by
  induction k with
  | zero => rfl
  | succ k ih =>
    rw [run_succ, ih]
    rfl

theorem lasting_surroundingsFor (p : RetryPolicy) (o : ℕ → Broker.Outcome) (a : Activity) :
    (surroundingsFor p o a).Lasting p where
  policy _ := rfl
  passes k instant := ⟨max k instant, Nat.le_max_left _ _, Nat.le_max_right _ _⟩

theorem answers_surroundingsFor (p : RetryPolicy) (post : Post) (text : String) (o : ℕ → Broker.Outcome) :
    Answers (surroundingsFor p o (.attempting post 1)) post text o := by
  intro k n _
  refine ⟨_, rfl, ?_⟩
  rw [publish_lineFor, run_surroundingsFor]

/-- A broker that cannot be reached twice, and then accepts. -/
def thirdTime (i : ℕ) : Broker.Outcome := if i < 2 then .error Broker.unavailable else .ok ()

/-- With the default policy the third attempt is the last that is made, and the publish ends well. -/
theorem publish_retried_thirdTime : RetryPolicy.default.Fits ∧ ∃ w : Surroundings, w.Lasting .default ∧
    Answers w ⟨0, "r", .messages, .ok "hello"⟩ "hello" thirdTime ∧
    Contract w .default ⟨0, "r", .messages, .ok "hello"⟩ "hello" thirdTime ∧ ∃ k ds,
      run w (publish 0 "r" .messages (.ok "hello")) k = (.finished (.ok ()), ds) ∧ (attempts ds).length = 3 := by
  have hw := lasting_surroundingsFor .default thirdTime (.attempting ⟨0, "r", .messages, .ok "hello"⟩ 1)
  have ho := answers_surroundingsFor .default ⟨0, "r", .messages, .ok "hello"⟩ "hello" thirdTime
  have h := publish_retried RetryPolicy.fits_default hw ho
  obtain ⟨k, ds, r, hrun, houtcome⟩ := h.ends
  have hr : r = .ok () := houtcome.ok_iff.mpr ⟨2, by decide, rfl⟩
  refine ⟨RetryPolicy.fits_default, _, hw, ho, h, k, ds, by rw [← hr]; exact hrun k (Nat.le_refl k), ?_⟩
  exact houtcome.first 2 (by decide) rfl

end Activity

end Hub

end Parley
