import Parley.Proofs.Delivery.Retries
import Parley.Proofs.Subscription.Rounds

/-!
# A subscription in its surroundings

A hub's subscription finds a service in every turn, of which anything may have changed, and does what it
can.

* `stands_run`: after every turn it stands somewhere in its rounds.
* `takes`, `handles` and `subscribes_again`: it takes what is there to take, brings each message it has taken to its
  end, and tries again after every wait.
* `held_or_givenUp`: of all subscriptions it has made, it holds one at most and has given up the others.
* `resubscribed` puts these together in the `Contract` of a subscription, for any policy and whatever the broker does.
-/

namespace Parley.Hub.Subscriber

/-! ### Turns -/

/-- The turn of a subscription: its step with what it does, if it can take one, and the service it leaves. -/
def turn (s : Service) (choice : Choice) (x : Subscriber) : Subscriber × List Act × Service :=
  match x.step s choice with
  | none => (x, [], s)
  | some (y, t) => (y, acts s x y, t)

/-- Where a subscription stands after its first turns, and what it has done in them. -/
def run (w : Surroundings) (x : Subscriber) : ℕ → Subscriber × List Act
  | 0 => (x, [])
  | k + 1 =>
    let (y, ds) := run w x k
    let (z, es, _) := y.turn (w.service k) (w.choice k)
    (z, ds ++ es)

def doing (w : Surroundings) (x : Subscriber) (k : ℕ) : List Act := ((run w x k).1.turn (w.service k) (w.choice k)).2.1

def left (w : Surroundings) (x : Subscriber) (k : ℕ) : Service := ((run w x k).1.turn (w.service k) (w.choice k)).2.2

variable {w : Surroundings} {p : RetryPolicy} {s t : Service} {x y : Subscriber} {choice : Choice} {hub k n : ℕ}

theorem turn_of_step (h : x.step s choice = some (y, t)) : x.turn s choice = (y, acts s x y, t) := by simp [turn, h]

theorem turn_of_none (h : x.step s choice = none) : x.turn s choice = (x, [], s) := by simp [turn, h]

theorem run_succ (w : Surroundings) (x : Subscriber) (k : ℕ) : run w x (k + 1) =
    (((run w x k).1.turn (w.service k) (w.choice k)).1, (run w x k).2 ++ doing w x k) := rfl

/-- In its turn a subscription makes a move, or has nothing to do. -/
theorem turn_cases (hb : s.hasBroker = true) (x : Subscriber) (choice : Choice) :
    Move s x choice (x.turn s choice).2.1 (x.turn s choice).1 (x.turn s choice).2.2 ∨
      x.step s choice = none ∧ x.turn s choice = (x, [], s) := by
  cases h : x.step s choice with
  | none => exact .inr ⟨rfl, turn_of_none h⟩
  | some y =>
    rw [turn_of_step (y := y.1) (t := y.2) h]
    exact .inl (step_move hb h)

/-- Where no stop is to be seen, or not looked for, a subscription goes on with what it does. -/
theorem step_eq_proceed (h : (s.hub x.hub).stopped = false ∨ x.looksForStop = false) (choice : Choice) :
    x.step s choice = x.proceed s choice := by
  unfold step
  rw [if_neg]
  rcases h with h | h <;> simp [h]

section Turns

variable (hb : s.hasBroker = true)

include hb

theorem turn_relaying {f : Fanout} (hx : x.state = .relaying n f) (hf : ∀ k, f ≠ .done k) (choice : Choice) :
    (x.turn s choice).1 = { x with state := .relaying n (f.step s).1 } := by
  obtain ⟨l, hl⟩ := Option.isSome_iff_exists.mp hb
  have hstep : x.step s choice = some ({ x with state := .relaying n (f.step s).1 }, (f.step s).2) := by
    rw [step_eq_proceed (.inr (by simp [looksForStop, hx])), proceed, hl, hx]
    cases f with
    | done k => exact absurd rfl (hf k)
    | _ => rfl
  rw [turn_of_step hstep]

theorem turn_done {k : ℕ} (hx : x.state = .relaying n (.done k)) (choice : Choice) :
    x.turn s choice = ({ x with state := .listening n true }, [.handled], s) := by
  obtain ⟨l, hl⟩ := Option.isSome_iff_exists.mp hb
  have hstep : x.step s choice = some ({ x with state := .listening n true }, s) := by
    rw [step_eq_proceed (.inr (by simp [looksForStop, hx])), proceed, hl, hx]
  rw [turn_of_step hstep]
  simp [acts, hx]

variable (hgo : (s.hub x.hub).stopped = false)

include hgo

theorem turn_waiting {resume : Instant} (hx : x.state = .waiting resume) (choice : Choice) :
    x.turn s choice = if resume ≤ s.now then ({ x with state := .subscribing }, [.woke s.now], s) else (x, [], s) := by
  obtain ⟨l, hl⟩ := Option.isSome_iff_exists.mp hb
  have hstep : x.step s choice = if resume ≤ s.now then some ({ x with state := .subscribing }, s) else none := by
    rw [step_eq_proceed (.inl hgo), proceed, hl, hx]
  by_cases hle : resume ≤ s.now
  · rw [if_pos hle] at hstep ⊢
    rw [turn_of_step hstep]
    simp [acts, hx]
  · rw [if_neg hle] at hstep ⊢
    exact turn_of_none hstep

theorem turn_subscribing (hx : x.state = .subscribing) (choice : Choice) :
    (∃ n, (x.turn s choice).2.1 = [.subscribed n]) ∨
    ∃ nanos, (x.turn s choice).2.1 = [.refused, .slept s.now nanos] := by
  obtain ⟨l, hl⟩ := Option.isSome_iff_exists.mp hb
  rcases hmade : l.subscribe s.now patterns with ⟨made, l'⟩
  cases made with
  | ok n =>
    have hstep : x.step s choice = some ({ x with state := .listening n false }, { s with line := some l' }) := by
      rw [step_eq_proceed (.inl hgo), proceed, hl, hx]
      simp only [hmade]
    rw [turn_of_step hstep]
    exact .inl ⟨n, by simp [acts, hx]⟩
  | error e =>
    have hstep : x.step s choice = some (x.pause s choice false, { s with line := some l' }) := by
      rw [step_eq_proceed (.inl hgo), proceed, hl, hx]
      simp only [hmade]
      rfl
    rw [turn_of_step hstep]
    exact .inr ⟨wait s x choice false, by simp [acts, hx, pause, wait]⟩

theorem turn_listening {received : Bool} (hx : x.state = .listening n received) (choice : Choice) :
    match (s.broker.receive n).1 with
    | .message m => (x.turn s choice).2.1 = [.took m]
    | .ended => ∃ nanos, (x.turn s choice).2.1 = [.ended n, .slept s.now nanos]
    | .waiting => (x.turn s choice).2.1 = [] := by
  obtain ⟨l, hl⟩ := Option.isSome_iff_exists.mp hb
  have hstep : x.step s choice = x.listen s choice l n received := by
    rw [step_eq_proceed (.inl hgo), proceed, hl, hx]
  rw [Service.broker_of_line hl]
  rcases hr : l.broker.receive n with ⟨m | _ | _, b⟩ <;> simp only [listen, hr] at hstep ⊢
  · rw [turn_of_step hstep]
    simp [acts, hx, Service.broker_of_line hl, hr]
  · rw [turn_of_none hstep]
  · rw [turn_of_step hstep]
    exact ⟨wait s x choice received, by simp [acts, hx, pause, wait]⟩

end Turns

/-- **Every turn.** -/
theorem stands_run (hw : w.Lasting p) (hb : ∀ k, (w.service k).hasBroker = true) (hub k : ℕ) :
    Stands p hub (run w { hub } k).2 (run w { hub } k).1 := by
  induction k with
  | zero => exact stands_begin p hub
  | succ k ih =>
    rw [run_succ, doing]
    rcases turn_cases (hb k) (run w { hub } k).1 (w.choice k) with hmove | ⟨-, hnone⟩
    · exact ih.move (hw.policy k) hmove
    · rw [hnone, List.append_nil]
      exact ih

/-! ### A message gets to its end -/

theorem hub_move {es : List Act} (h : Move s x choice es y t) : y.hub = x.hub := by
  cases h <;> rfl

theorem hub_run (hb : ∀ k, (w.service k).hasBroker = true) (x : Subscriber) (k : ℕ) : (run w x k).1.hub = x.hub := by
  induction k with
  | zero => rfl
  | succ k ih =>
    rw [run_succ]
    rcases turn_cases (hb k) (run w x k).1 (w.choice k) with hmove | ⟨-, hnone⟩
    · exact (hub_move hmove).trans ih
    · rw [hnone]
      exact ih

theorem handles_done (hb : ∀ k, (w.service k).hasBroker = true) {k sent : ℕ}
    (hx : (run w x k).1.state = .relaying n (.done sent)) :
    ∃ j, k ≤ j ∧ (run w x (j + 1)).1.state = .listening n true ∧ doing w x j = [.handled] := by
  have hturn := turn_done (hb k) hx (w.choice k)
  refine ⟨k, Nat.le_refl k, ?_, ?_⟩
  · rw [run_succ, hturn]
  · rw [doing, hturn]

theorem handles_handing (hb : ∀ k, (w.service k).hasBroker = true) {frame : String} (rest : List ConnId) {k sent : ℕ}
    (hx : (run w x k).1.state = .relaying n (.handing frame rest sent)) :
    ∃ j, k ≤ j ∧ (run w x (j + 1)).1.state = .listening n true ∧ doing w x j = [.handled] := by
  induction rest generalizing k sent with
  | nil =>
    have hnext : (run w x (k + 1)).1.state = .relaying n (.done sent) := by
      rw [run_succ, turn_relaying (hb k) hx nofun]
      rfl
    obtain ⟨j, hj, hend⟩ := handles_done hb hnext
    exact ⟨j, Nat.le_of_succ_le hj, hend⟩
  | cons c rest ih =>
    obtain ⟨sent', hstep⟩ := Fanout.step_handing (w.service k) frame c rest sent
    have hnext : (run w x (k + 1)).1.state = .relaying n (.handing frame rest sent') := by
      rw [run_succ, turn_relaying (hb k) hx nofun, hstep]
    obtain ⟨j, hj, hend⟩ := ih hnext
    exact ⟨j, Nat.le_of_succ_le hj, hend⟩

/-- **Every message that was taken gets to its end**, and is looked away from by no stop. -/
theorem handles (hb : ∀ k, (w.service k).hasBroker = true) {k : ℕ} {f : Fanout}
    (hx : (run w x k).1.state = .relaying n f) :
    ∃ j, k ≤ j ∧ (run w x (j + 1)).1.state = .listening n true ∧ doing w x j = [.handled] := by
  cases f with
  | done sent => exact handles_done hb hx
  | handing frame rest sent => exact handles_handing hb rest hx
  | listing hub room frame =>
    have hnext := congrArg (·.state) (turn_relaying (hb k) hx nofun (w.choice k))
    cases frame with
    | none =>
      obtain ⟨j, hj, hend⟩ := handles_done (k := k + 1) hb hnext
      exact ⟨j, Nat.le_of_succ_le hj, hend⟩
    | some text =>
      obtain ⟨j, hj, hend⟩ := handles_handing (k := k + 1) hb _ hnext
      exact ⟨j, Nat.le_of_succ_le hj, hend⟩

/-! ### After every wait comes another try -/

/-- The subscription wakes and tries again, once its instant has come, which is `d` turns from now at the latest. -/
theorem tries_within (hb : ∀ k, (w.service k).hasBroker = true) (hgo : ∀ k, ((w.service k).hub x.hub).stopped = false)
    {resume : Instant} (d : ℕ) {k : ℕ} (hd : resume ≤ (w.service (k + d)).now)
    (hx : (run w x k).1.state = .waiting resume) :
    ∃ j, k ≤ j ∧ (run w x j).2 = (run w x k).2 ∧ doing w x j = [.woke (w.service j).now] ∧
      ((∃ n, doing w x (j + 1) = [.subscribed n]) ∨
        ∃ nanos, doing w x (j + 1) = [.refused, .slept (w.service (j + 1)).now nanos]) := by
  have hstop (k : ℕ) : ((w.service k).hub (run w x k).1.hub).stopped = false := by
    rw [hub_run hb]
    exact hgo k
  have hturn := turn_waiting (hb k) (hstop k) hx (w.choice k)
  by_cases hle : resume ≤ (w.service k).now
  · rw [if_pos hle] at hturn
    have hnext : (run w x (k + 1)).1.state = .subscribing := by rw [run_succ, hturn]
    exact ⟨k, Nat.le_refl k,
      rfl, by rw [doing, hturn], turn_subscribing (hb (k + 1)) (hstop (k + 1)) hnext (w.choice (k + 1))⟩
  · rw [if_neg hle] at hturn
    cases d with
    | zero => exact absurd hd hle
    | succ d =>
      have hnext : run w x (k + 1) = run w x k := by rw [run_succ, doing, hturn, List.append_nil]
      have hd' : resume ≤ (w.service (k + 1 + d)).now := by rwa [Nat.add_assoc, Nat.add_comm 1]
      obtain ⟨j, hj, hsame, hrest⟩ := tries_within hb hgo d hd' (by rw [hnext]; exact hx)
      exact ⟨j, Nat.le_of_succ_le hj, by rw [hsame, hnext], hrest⟩

/-! ### One subscription at a time -/

/-- A subscription that gives nothing any more: it was given up, or there is none of this number. -/
def GivenUp (b : MemoryBroker) (n : ℕ) : Prop := ∀ sub, b.subscriptions[n]? = some sub → sub.dropped = true

def held (x : Subscriber) : Option ℕ :=
  match x.state with
  | .listening n _ | .relaying n _ => some n
  | _ => none

section GivenUp

variable {b b' : MemoryBroker}

theorem GivenUp.congr (h : GivenUp b n) (hs : b'.subscriptions[n]? = b.subscriptions[n]?) : GivenUp b' n := by
  rw [GivenUp, hs]
  exact h

theorem givenUp_drop (b : MemoryBroker) (n : ℕ) : GivenUp (b.drop n) n := by
  intro sub hsub
  rw [MemoryBroker.drop, Array.getElem?_modify, if_pos rfl] at hsub
  obtain ⟨sub', -, rfl⟩ := Option.map_eq_some_iff.1 hsub
  rfl

theorem GivenUp.drop (h : GivenUp b n) (m : ℕ) : GivenUp (b.drop m) n := by
  by_cases hm : m = n
  · subst hm
    exact givenUp_drop b m
  · refine h.congr ?_
    rw [MemoryBroker.drop, Array.getElem?_modify, if_neg hm]

/-- A read brings no subscription back. -/
theorem GivenUp.receive (h : GivenUp b n) (m : ℕ) : GivenUp (b.receive m).2 n := by
  by_cases hm : n = m
  · subst hm
    have hsame : (b.receive n).2 = b := by
      unfold MemoryBroker.receive
      split
      · rfl
      · rename_i sub hsub
        rw [if_pos (h sub hsub)]
    rw [hsame]
    exact h
  · exact h.congr ((b.receive_others m).2 n hm)

theorem GivenUp.subscribe {l : Broker.Line} (h : GivenUp l.broker n) {now : Instant} {m : ℕ}
    (hm : (l.subscribe now patterns).1 = .ok m) : GivenUp (l.subscribe now patterns).2.broker n ∨ n = m := by
  obtain ⟨rfl, globs, -, -, hsubs⟩ := l.subscribe_ok now hm
  by_cases hn : n = l.broker.subscriptions.size
  · exact .inr hn
  · refine .inl (h.congr ?_)
    rw [hsubs, Array.getElem?_push, if_neg hn]

theorem quit_line {l : Broker.Line} (hl : s.line = some l) (x : Subscriber) : (x.quit s).2.broker =
    match x.state with
    | .listening n _ => l.broker.drop n
    | _ => l.broker := by
  cases hx : x.state <;> simp [quit, hx, hl, Service.broker]

/-- **A step keeps to one subscription**: of those that were made it holds one, if any, and has given up the rest. -/
theorem Move.held_or_givenUp {ds es : List Act} (hb : s.hasBroker = true) (hm : Move s x choice es y t)
    (h : ∀ n, .subscribed n ∈ ds → x.held = some n ∨ GivenUp s.broker n) :
    ∀ n, .subscribed n ∈ ds ++ es → y.held = some n ∨ GivenUp t.broker n := by
  intro n hn
  have hold (hes : .subscribed n ∉ es) : x.held = some n ∨ GivenUp s.broker n :=
    h n ((List.mem_append.1 hn).resolve_right hes)
  cases hm with
  | subscribe l hl hx m hm =>
    rw [Service.broker_of_line (l := (l.subscribe s.now patterns).2) rfl]
    rcases List.mem_append.1 hn with hn | hn
    · rcases h n hn with hheld | hgone
      · simp [held, hx] at hheld
      · rw [Service.broker_of_line hl] at hgone
        rcases hgone.subscribe hm with hgone | rfl
        · exact .inr hgone
        · exact .inl rfl
    · obtain rfl : n = m := by simpa using hn
      exact .inl rfl
  | refuse l hl hx e he =>
    rcases hold (by simp) with hheld | hgone
    · simp [held, hx] at hheld
    · rw [Service.broker_of_line hl] at hgone
      rw [Service.broker_of_line (l := (l.subscribe s.now patterns).2) rfl, l.subscribe_error s.now he]
      exact .inr hgone
  | take l hl m received hx msg b hr =>
    rcases hold (by simp) with hheld | hgone
    · exact .inl (by simpa [held, hx] using hheld)
    · rw [Service.broker_of_line hl] at hgone
      have hnext := hgone.receive m
      rw [hr] at hnext
      exact .inr hnext
  | cease l hl m received hx b hr =>
    have hb : b = (l.broker.receive m).2 := by rw [hr]
    rcases hold (by simp) with hheld | hgone
    · obtain rfl : m = n := by simpa [held, hx] using hheld
      exact .inr (givenUp_drop b m)
    · rw [Service.broker_of_line hl] at hgone
      subst hb
      exact .inr ((hgone.receive m).drop m)
  | list m hub room text hx | blank m hub room hx | hand m frame c rest sent sent' hx
  | finish m frame sent hx | handle m k hx =>
    exact (hold (by simp)).imp_left fun hheld => by simpa [held, hx] using hheld
  | wake resume hx hle => exact (hold (by simp)).imp_left fun hheld => by simp [held, hx] at hheld
  | quit hs hlooks =>
    obtain ⟨l, hl⟩ := Option.isSome_iff_exists.mp hb
    have hbroker := quit_line hl x
    refine .inr ?_
    rcases hold (by simp) with hheld | hgone
    · cases hx : x.state with
      | listening m received =>
        obtain rfl : m = n := by simpa [held, hx] using hheld
        rw [hbroker, hx]
        exact givenUp_drop _ m
      | relaying m f => simp [looksForStop, hx] at hlooks
      | _ => simp [held, hx] at hheld
    · rw [Service.broker_of_line hl] at hgone
      rw [hbroker]
      cases x.state with
      | listening m received => exact hgone.drop m
      | _ => exact hgone

end GivenUp

/-- What is given up stays so, of all the subscriptions that were made. -/
def Keeps (w : Surroundings) (x : Subscriber) : Prop :=
  ∀ k n, .subscribed n ∈ (run w x (k + 1)).2 → GivenUp (left w x k).broker n → GivenUp (w.service (k + 1)).broker n

/-- **Every turn.** -/
theorem held_or_givenUp (hb : ∀ k, (w.service k).hasBroker = true) {x : Subscriber} (hkeeps : Keeps w x) (k : ℕ) :
    ∀ n, .subscribed n ∈ (run w x k).2 → (run w x k).1.held = some n ∨ GivenUp (w.service k).broker n := by
  induction k with
  | zero => nofun
  | succ k ih =>
    intro n hn
    have hturn : (run w x (k + 1)).1.held = some n ∨ GivenUp (left w x k).broker n := by
      rw [run_succ] at hn ⊢
      rw [left]
      rcases turn_cases (hb k) (run w x k).1 (w.choice k) with hmove | ⟨-, hnone⟩
      · exact hmove.held_or_givenUp (hb k) ih n hn
      · rw [doing, hnone, List.append_nil] at hn
        rw [hnone]
        exact ih n hn
    exact hturn.imp_right (hkeeps k n hn)

/-! ### The end -/

theorem turn_over (hx : x.state = .over) (s : Service) (choice : Choice) : x.turn s choice = (x, [], s) := by
  have hstep : x.step s choice = none := by
    rw [step_eq_proceed (.inr (by simp [looksForStop, hx])), proceed, hx]
    cases s.line <;> rfl
  exact turn_of_none hstep

/-- It comes to its end only by quitting, at the sight of a stop. -/
theorem Move.stopped_of_over {es : List Act} (hm : Move s x choice es y t) (hy : y.state = .over) :
    es = [.quit] ∧ (s.hub x.hub).stopped = true := by
  cases hm with
  | quit hs hlooks => exact ⟨rfl, hs⟩
  | _ => cases hy

theorem stopped_of_over (hb : ∀ k, (w.service k).hasBroker = true) {hub k : ℕ}
    (hx : (run w { hub } k).1.state = .over) :
    ∃ i < k, ((w.service i).hub hub).stopped = true ∧ doing w { hub } i = [.quit] ∧
    run w { hub } k = run w { hub } (i + 1) := by
  induction k with
  | zero => cases hx
  | succ k ih =>
    by_cases hbefore : (run w { hub } k).1.state = .over
    · obtain ⟨i, hi, hstop, hquit, hsame⟩ := ih hbefore
      refine ⟨i, by omega, hstop, hquit, ?_⟩
      rw [run_succ, doing, turn_over hbefore, List.append_nil]
      exact hsame
    · rcases turn_cases (hb k) (run w { hub } k).1 (w.choice k) with hmove | ⟨-, hnone⟩
      · obtain ⟨hes, hstop⟩ := hmove.stopped_of_over hx
        rw [hub_run hb] at hstop
        exact ⟨k, Nat.lt_succ_self k, hstop, hes, rfl⟩
      · rw [run_succ, hnone] at hx
        exact absurd hx hbefore

theorem run_of_over {k : ℕ} (hx : (run w x k).1.state = .over) {j : ℕ} (hj : k ≤ j) :
    run w x j = run w x k ∧ left w x j = w.service j := by
  have hrun : run w x j = run w x k := by
    induction hj with
    | refl => rfl
    | step _ ih => rw [run_succ, doing, turn_over (by rw [ih]; exact hx), List.append_nil, ih]
  exact ⟨hrun, by rw [left, turn_over (by rw [hrun]; exact hx)]⟩

/-! ### What a subscription keeps to -/

/-- What its doing does to the hubs and their connections: one that is listed is in the room then, and one that a frame
is handed to is sent it; nothing else does anything to them. -/
def Effect (hub : ℕ) (s : Service) (es : List Act) (t : Service) : Prop :=
  match es with
  | [.handed frame c] => t = (s.send c frame).2
  | [.listed room cs] => cs = (s.registry hub).snapshot room ∧ t = s
  | _ => s.SameHubs t

/-- The times that it goes by are those of the service. -/
def Timed (s : Service) (es : List Act) : Prop :=
  (∀ begun nanos, .slept begun nanos ∈ es → begun = s.now) ∧ ∀ now, .woke now ∈ es → now = s.now

theorem Move.timed {es : List Act} (hm : Move s x choice es y t) : Timed s es := by
  cases hm <;> constructor <;> simp

theorem Stands.effect {p : RetryPolicy} {hub : ℕ} {ds es : List Act} (h : Stands p hub ds x)
    (hm : Move s x choice es y t) :
    Effect hub s es t := by
  cases hm with
  | list n hub' room text hx =>
    obtain ⟨rfl, os, base, part, -, -, hwithin⟩ := h
    rw [hx] at hwithin
    cases hwithin with
    | relaying hd n h hm =>
      obtain ⟨-, rfl, -⟩ := hm.of_listing
      exact ⟨rfl, rfl⟩
  | hand => rfl
  | quit hs hlooks =>
    show s.SameHubs (x.quit s).2
    unfold quit
    split <;> exact ⟨rfl, rfl⟩
  | _ => exact ⟨rfl, rfl⟩

/-- What the subscription of a hub keeps to. -/
structure Contract (w : Surroundings) (p : RetryPolicy) (hub : ℕ) : Prop where
  /-- It goes in rounds, and waits once after each outcome. -/
  stands : ∀ k, Stands p hub (run w { hub } k).2 (run w { hub } k).1
  effect : ∀ k, Effect hub (w.service k) (doing w { hub } k) (left w { hub } k)
  timed : ∀ k, Timed (w.service k) (doing w { hub } k)
  /-- What there is to take is taken, and an end is noticed. -/
  takes : ∀ k n received, (run w { hub } k).1.state = .listening n received → ((w.service k).hub hub).stopped = false →
    match ((w.service k).broker.receive n).1 with
    | .message m => doing w { hub } k = [.took m]
    | .ended => ∃ nanos, doing w { hub } k = [.ended n, .slept (w.service k).now nanos]
    | .waiting => doing w { hub } k = []
  /-- What was taken is handled to its end, stop or no stop. -/
  handles : ∀ k n f, (run w { hub } k).1.state = .relaying n f →
    ∃ j, k ≤ j ∧ (run w { hub } (j + 1)).1.state = .listening n true ∧ doing w { hub } j = [.handled]
  /-- After every wait comes another try. -/
  tries : (∀ k, ((w.service k).hub hub).stopped = false) → ∀ k resume, (run w { hub } k).1.state = .waiting resume →
    ∃ j, k ≤ j ∧ (run w { hub } j).2 = (run w { hub } k).2 ∧ doing w { hub } j = [.woke (w.service j).now] ∧
      ((∃ n, doing w { hub } (j + 1) = [.subscribed n]) ∨
        ∃ nanos, doing w { hub } (j + 1) = [.refused, .slept (w.service (j + 1)).now nanos])
  /-- Of all the subscriptions it has made it holds one at most, and has given up the others. -/
  holds : Keeps w { hub } → ∀ k n, .subscribed n ∈ (run w { hub } k).2 →
    (run w { hub } k).1.held = some n ∨ GivenUp (w.service k).broker n
  /-- It ends only when it sees a stop, and then it holds no subscription and does nothing any more. -/
  stops : ∀ k, (run w { hub } k).1.state = .over →
    (∃ i < k, ((w.service i).hub hub).stopped = true ∧ doing w { hub } i = [.quit] ∧
      run w { hub } k = run w { hub } (i + 1)) ∧
    (run w { hub } k).1.held = none ∧ ∀ j, k ≤ j → run w { hub } j = run w { hub } k ∧ left w { hub } j = w.service j

/-- **What the subscription of every hub keeps to**, whatever the broker does. -/
theorem resubscribed (hw : w.Lasting p) (hb : ∀ k, (w.service k).hasBroker = true) (hub : ℕ) : Contract w p hub where
  stands := stands_run hw hb hub
  effect k := by
    rw [doing, left]
    rcases turn_cases (hb k) (run w { hub } k).1 (w.choice k) with hmove | ⟨-, hnone⟩
    · exact (stands_run hw hb hub k).effect hmove
    · rw [hnone]
      exact .refl _
  timed k := by
    rw [doing]
    rcases turn_cases (hb k) (run w { hub } k).1 (w.choice k) with hmove | ⟨-, hnone⟩
    · exact hmove.timed
    · rw [hnone]
      exact ⟨nofun, nofun⟩
  takes k n received hx hgo := turn_listening (hb k) (by rw [hub_run hb]; exact hgo) hx (w.choice k)
  handles k n f hx := handles hb hx
  tries hgo k resume hx := by
    obtain ⟨j, hj, hresume⟩ := hw.passes k resume
    obtain ⟨d, rfl⟩ := Nat.exists_eq_add_of_le hj
    exact tries_within hb hgo d hresume hx
  holds hkeeps k := held_or_givenUp hb hkeeps k
  stops k hx := ⟨stopped_of_over hb hx, by simp [held, hx], fun j hj => run_of_over hx hj⟩

/-! ### Amid what happens to a service -/

/-- A subscription and the service, turn after turn: in every turn it finds what it left, after this has happened to
it. -/
def threaded (happens : ℕ → Service → Service) (x : Subscriber) (s : Service) : ℕ → (Subscriber × List Act) × Service
  | 0 => ((x, []), happens 0 s)
  | k + 1 =>
    let ((y, ds), t) := threaded happens x s k
    let (z, es, u) := y.turn t {}
    ((z, ds ++ es), happens (k + 1) u)

/-- The surroundings that a subscription leaves and finds itself. -/
def amid (happens : ℕ → Service → Service) (x : Subscriber) (s : Service) : Surroundings where
  service k := (threaded happens x s k).2
  choice _ := {}

section Amid

variable {happens : ℕ → Service → Service}

theorem run_amid (happens : ℕ → Service → Service) (x : Subscriber) (s : Service) (k : ℕ) :
    run (amid happens x s) x k = (threaded happens x s k).1 := by
  induction k with
  | zero => rfl
  | succ k ih =>
    rw [run_succ, doing, ih]
    rfl

theorem service_amid (happens : ℕ → Service → Service) (x : Subscriber) (s : Service) (k : ℕ) :
    (amid happens x s).service (k + 1) = happens (k + 1) (left (amid happens x s) x k) := by
  rw [left, run_amid]
  rfl

theorem Move.policy {es : List Act} (hb : s.hasBroker = true) (hm : Move s x choice es y t) :
    t.policy = s.policy ∧ t.hasBroker = true := by
  cases hm with
  | subscribe | refuse | take | cease => exact ⟨rfl, rfl⟩
  | list | blank | finish | handle | wake => exact ⟨rfl, hb⟩
  | hand => exact ⟨rfl, hb⟩
  | quit hs hlooks =>
    unfold Subscriber.quit
    split
    · exact ⟨rfl, rfl⟩
    · exact ⟨rfl, hb⟩

theorem settled_amid (hhappens : ∀ k s, (happens k s).policy = s.policy ∧ (happens k s).hasBroker = s.hasBroker)
    (x : Subscriber) {s : Service} (hb : s.hasBroker = true) (k : ℕ) :
    ((amid happens x s).service k).policy = s.policy ∧ ((amid happens x s).service k).hasBroker = true := by
  induction k with
  | zero => exact ⟨(hhappens 0 s).1, (hhappens 0 s).2.trans hb⟩
  | succ k ih =>
    rw [service_amid, (hhappens _ _).1, (hhappens _ _).2, left]
    rcases turn_cases ih.2 (run (amid happens x s) x k).1 ((amid happens x s).choice k) with hmove | ⟨-, hnone⟩
    · obtain ⟨hpolicy, hbroker⟩ := hmove.policy ih.2
      exact ⟨hpolicy.trans ih.1, hbroker⟩
    · rw [hnone]
      exact ih

end Amid

/-- An outage, two messages of which the first is for a room without a name, a disconnect, another one, and a stop. -/
def troubles (k : ℕ) (s : Service) : Service :=
  let s := { s with now := k * 10 ^ 9 }
  match k with
  | 0 => s.onBroker fun b => { b with available := false }
  | 1 => s.onBroker fun b => { b with available := true }
  | 3 => s.onBroker fun b =>
    ((b.publish ⟨"messages:conversation:", []⟩).2.publish ⟨"messages:conversation:r", Text.Utf8.encode "hi"⟩).2
  | 11 | 14 => s.onBroker (·.disconnect)
  | 16 => s.stopHub 0
  | _ => s

theorem troubles_settled (k : ℕ) (s : Service) :
    (troubles k s).policy = s.policy ∧ (troubles k s).hasBroker = s.hasBroker ∧ (troubles k s).now = k * 10 ^ 9 := by
  unfold troubles
  dsimp only
  split <;> simp [Service.onBroker, Service.hasBroker, Service.stopHub, Service.updateHub]

theorem subscriptions_publish (b : MemoryBroker) (m : Broker.Message) :
    (b.publish m).2.subscriptions = b.subscriptions := by
  simp only [MemoryBroker.publish]
  split <;> rfl

theorem troubles_subscriptions (k : ℕ) (s : Service) :
    (troubles k s).broker.subscriptions = s.broker.subscriptions := by
  have on (now : Instant) (f : MemoryBroker → MemoryBroker) (hf : ∀ b, (f b).subscriptions = b.subscriptions) :
      (({ s with now := now } : Service).onBroker f).broker.subscriptions = s.broker.subscriptions := by
    unfold Service.onBroker Service.broker
    cases s.line with
    | none => rfl
    | some l => exact hf l.broker
  unfold troubles
  dsimp only
  split
  · exact on _ _ fun b => rfl
  · exact on _ _ fun b => rfl
  · exact on _ _ fun b => by rw [subscriptions_publish, subscriptions_publish]
  · exact on _ _ fun b => rfl
  · exact on _ _ fun b => rfl
  · rfl
  · rfl

/-- **In these troubles**, with two connections in the room: both messages are handled, the delay begins anew after the
first subscription and doubles after the second, and there is no other try after the stop. -/
theorem resubscribed_troubles : ∃ w : Surroundings, w.Lasting .default ∧ (∀ k, (w.service k).hasBroker = true) ∧
    Keeps w { hub := 0 } ∧ Contract w .default 0 ∧
    run w { hub := 0 } 17 = ({ hub := 0, delay := .ofMillis 400, state := .over }, [
      .refused, .slept 0 100000000, .woke 1000000000,
      .subscribed 0, .took ⟨"messages:conversation:", []⟩, .handled,
      .took ⟨"messages:conversation:r", Text.Utf8.encode "hi"⟩, .listed "r" [0, 1], .handed "hi" 0,
      .handed "hi" 1, .handled, .ended 0, .slept 11000000000 100000000, .woke 12000000000,
      .subscribed 1, .ended 1, .slept 14000000000 200000000, .woke 15000000000, .quit]) := by
  let begun : Service := { Service.twoMembers with line := some {} }
  have hsettled := settled_amid (fun k s => ⟨(troubles_settled k s).1, (troubles_settled k s).2.1⟩) { hub := 0 }
    (s := begun) rfl
  have hlasting : (amid troubles { hub := 0 } begun).Lasting .default := by
    refine ⟨fun k => (hsettled k).1, fun k instant => ⟨k + instant + 1, by omega, ?_⟩⟩
    rw [service_amid, (troubles_settled _ _).2.2]
    have hle : instant ≤ k + instant + 1 := Nat.le_trans (Nat.le_add_left instant k) (Nat.le_succ _)
    exact Nat.le_trans hle (Nat.le_mul_of_pos_right _ (by decide))
  have hbroker k := (hsettled k).2
  have hkeeps : Keeps (amid troubles { hub := 0 } begun) { hub := 0 } := by
    intro k n _ hgone
    rw [service_amid]
    exact hgone.congr (by rw [troubles_subscriptions])
  refine ⟨_, hlasting, hbroker, hkeeps, resubscribed hlasting hbroker 0, ?_⟩
  rw [run_amid]
  decide +kernel

end Parley.Hub.Subscriber
