import Parley.Proofs.Traffic.Simulation

/-!
A run without faults: the broker can always be reached and never disconnects. Every event then goes
through the broker, and a call that has returned has its event in the one feed there is, if the event
has a text.
-/

namespace Parley

open Hub Deployment Function

namespace Service

/-- The broker can be reached, and nothing is planned to fail. -/
def Up (s : Service) : Prop := ∃ line, s.line = some line ∧ line.plans = [] ∧ line.broker.available = true

/-- A service whose broker is up, and has the messages it had. -/
structure StaysUp (s t : Service) : Prop where
  up : t.Up
  feeds : t.broker.feeds = s.broker.feeds

variable {s t : Service}

theorem StaysUp.of_line (hs : s.Up) (h : t.line = s.line) : StaysUp s t := by
  obtain ⟨line, hl, hp, ha⟩ := hs
  exact ⟨⟨line, h.trans hl, hp, ha⟩, by rw [broker, broker, h]⟩

theorem StaysUp.of_broker {line line' : Broker.Line} (hl : s.line = some line) (ht : t.line = some line')
    (hp : line'.plans = [])
    (ha : line'.broker.available = true) (hf : line'.broker.feeds = line.broker.feeds) : StaysUp s t :=
  ⟨⟨line', ht, hp, ha⟩, by rw [broker_of_line hl, broker_of_line ht, hf]⟩

theorem publish_of_up {line : Broker.Line} (hl : s.line = some line) (hs : s.Up) (m : Broker.Message) :
    (line.publish s.now m).1 = .ok () ∧ Up { s with line := some (line.publish s.now m).2 } := by
  obtain ⟨line', hl', hp, ha⟩ := hs
  rw [hl] at hl'
  cases hl'
  obtain ⟨h1, h2, h3⟩ := line.call_of_plans_nil s.now (.publish m) (·.publish m) hp
  refine ⟨h1.trans (MemoryBroker.publish_of_available m ha), _, rfl, h3, ?_⟩
  rw [show (line.publish s.now m).2.broker = (line.broker.publish m).2 from h2, MemoryBroker.publish_available, ha]

end Service

namespace Hub

variable {s t : Service}

theorem Subscriber.Step.staysUp {x x' : Subscriber} (hs : s.Up) (h : Subscriber.Step s x x' t) :
    Service.StaysUp s t := by
  obtain ⟨line, hline, hp, ha⟩ := hs
  have hup : s.Up := ⟨line, hline, hp, ha⟩
  have subscribing : Service.StaysUp s { s with line := some (line.subscribe s.now patterns).2 } := by
    obtain ⟨-, h2, h3⟩ := line.call_of_plans_nil s.now (.subscribe patterns) (·.subscribe patterns) hp
    have hb : (line.subscribe s.now patterns).2.broker = (line.broker.subscribe patterns).2 := h2
    refine .of_broker hline rfl h3 (by rw [hb, MemoryBroker.subscribe_available, ha]) ?_
    cases hm : (line.subscribe s.now patterns).1 with
    | ok n =>
      obtain ⟨-, -, -, hf, -⟩ := line.subscribe_ok s.now hm
      exact hf
    | error e => rw [line.subscribe_error s.now hm]
  cases h with
  | subscribed l hl hx n hn => rw [hline] at hl; cases hl; exact subscribing
  | refused l hl hx e he delay t => rw [hline] at hl; cases hl; exact subscribing
  | message l hl n received hx m b hr =>
    rw [hline] at hl
    cases hl
    obtain ⟨q, place, -, -, -, rfl⟩ := MemoryBroker.receive_message hr
    exact .of_broker hline rfl hp ha rfl
  | ended l hl n received hx b hr delay t =>
    rw [hline] at hl
    cases hl
    obtain ⟨hf, hav, -⟩ := MemoryBroker.receive_ended hr
    exact .of_broker hline rfl hp (hav.trans ha) hf
  | relay n f f' hx t hf => exact .of_line hup hf.line
  | relayed => exact .of_line hup rfl
  | retry => exact .of_line hup rfl
  | quit hs l hl n received hx =>
    rw [hline] at hl
    cases hl
    exact .of_broker hline rfl hp ha rfl
  | stop => exact .of_line hup rfl

end Hub

namespace Ledger

variable {l : Ledger}

def Move.isCalm : Move → Bool
  | .turn (.outage down) => !down
  | .turn .disconnect => false
  | _ => true

/-- A call is at an attempt, or has returned, and then the feed has its event if that has a text. -/
def Settled (l : Ledger) (p : TaskId) (post : Post) : Prop :=
  (∃ i, l.deployment.task p = .activity (.attempting post i)) ∨
    (∃ r, l.deployment.task p = .activity (.finished r)) ∧ ∀ text, post.event = .ok text → p ∈ l.origins 0

theorem Settled.mono {p : TaskId} {post : Post} (h : Settled l p post) {l' : Ledger}
    (htask : ∀ a, l.deployment.task p = .activity a → l'.deployment.task p = .activity a)
    (hor : p ∈ l.origins 0 → p ∈ l'.origins 0) : Settled l' p post := by
  rcases h with ⟨i, h⟩ | ⟨⟨r, h⟩, ht⟩
  · exact .inl ⟨i, htask _ h⟩
  · exact .inr ⟨⟨r, htask _ h⟩, fun text he => hor (ht text he)⟩

/-- The broker is up, and every call's event goes into its one feed. -/
structure Calm (l : Ledger) : Prop where
  up : l.service.Up
  feeds : l.service.broker.feeds.size = 1
  settled : ∀ p post, l.posts p = some post → Settled l p post

theorem calm_start (base : Service) (hubs : Nat) : Calm (start base hubs) :=
  ⟨⟨{}, rfl, rfl, rfl⟩, rfl, fun p post h => by cases h⟩

theorem Calm.current (hc : Calm l) : l.view.current = 0 := by
  show l.service.broker.feeds.size - 1 = 0
  rw [hc.feeds]

/-- Nothing is on its way past the broker. -/
theorem Calm.brokered (hl : Sound l) (hc : Calm l) (n : TaskId) (f : Fanout) (r : Except PublishError Unit) :
    l.view.task n ≠ .activity (.delivering f r) := by
  intro ht
  obtain ⟨q, hq, -⟩ := hl.filed.fits n _ ht
  rcases hc.settled n q hq with ⟨i, h⟩ | ⟨⟨r', h⟩, -⟩
  · rw [view_task h] at ht; cases ht
  · rw [view_task h] at ht; cases ht

/-- A move keeps the run calm if it keeps the broker up, and every call either goes on or is entered. -/
theorem Calm.of_staysUp (hc : Calm l) {l' : Ledger} (h : Service.StaysUp l.service l'.service)
    (hposts : l'.posts = l.posts)
    (htask : ∀ p a, l.deployment.task p = .activity a → l'.deployment.task p = .activity a)
    (hor : l'.origins = l.origins) : Calm l' := by
  refine ⟨h.up, (congrArg Array.size h.feeds).trans hc.feeds, fun p post hp => ?_⟩
  rw [hposts] at hp
  exact (hc.settled p post hp).mono (htask p) fun h => by rw [hor]; exact h

section Step

variable {n : TaskId} {k : Task} {s : Service}

theorem origins_note (h : Service.StaysUp l.service s) : (l.note n (l.after n k s)).origins = l.origins := by
  funext f
  show (if (l.service.broker.feed f).size < (s.broker.feed f).size then _ else _) = _
  rw [MemoryBroker.feed, MemoryBroker.feed, h.feeds, if_neg (Nat.lt_irrefl _)]

/-- A step of a task that is no call. -/
theorem Calm.of_other (hc : Calm l) (hn : n < l.deployment.tasks.size) (ht : ∀ a, l.deployment.task n ≠ .activity a)
    (h : Service.StaysUp l.service s) : Calm (l.note n (l.after n k s)) := by
  refine hc.of_staysUp h rfl (fun p a hp => ?_) (origins_note h)
  have hne : p ≠ n := by rintro rfl; exact ht a hp
  exact (task_after hn p).trans (by rw [if_neg hne]; exact hp)

/-- A step that ends a call: its event is in the feed if it has a text. -/
theorem Calm.of_finished (hc : Calm l) (hn : n < l.deployment.tasks.size) {r : Except PublishError Unit} (hup : s.Up)
    (hfeeds : s.broker.feeds.size = l.service.broker.feeds.size)
    (hor : ∀ post text, l.posts n = some post → post.event = .ok text →
      (l.service.broker.feed 0).size < (s.broker.feed 0).size) :
    Calm (l.note n (l.after n (.activity (.finished r)) s)) := by
  refine ⟨hup, hfeeds.trans hc.feeds, fun p post hp => ?_⟩
  have hp : l.posts p = some post := hp
  -- the feed only grows
  have hmono : p ∈ l.origins 0 → p ∈ (l.note n (l.after n (.activity (.finished r)) s)).origins 0 := by
    intro h
    show p ∈ if (l.service.broker.feed 0).size < (s.broker.feed 0).size then _ else _
    split
    · exact List.mem_append_left _ h
    · exact h
  rcases eq_or_ne p n with rfl | hne
  · refine .inr ⟨⟨r, (task_after hn p).trans (if_pos rfl)⟩, fun text he => ?_⟩
    show p ∈ if (l.service.broker.feed 0).size < (s.broker.feed 0).size then _ else _
    rw [if_pos (hor post text hp he)]
    exact List.mem_append_right _ List.mem_cons_self
  · have htask : ∀ a, l.deployment.task p = .activity a →
        (l.note n (l.after n (.activity (.finished r)) s)).deployment.task p = .activity a :=
      fun a ha => (task_after hn p).trans (by rw [if_neg hne]; exact ha)
    exact (hc.settled p post hp).mono htask hmono

theorem Calm.activity (hl : Sound l) (hc : Calm l) (hn : n < l.deployment.tasks.size) {a a' : Activity}
    (ht : l.deployment.task n = .activity a) (h : Activity.Step l.service a a' s) :
    Calm (l.note n (l.after n (.activity a') s)) := by
  obtain ⟨q, hq, hfit⟩ := hl.filed.fits n a (view_task ht)
  -- the call is at an attempt
  obtain ⟨i, rfl⟩ : ∃ i, a = .attempting q i := by
    rcases hc.settled n q hq with ⟨i, hi⟩ | ⟨⟨r, hr⟩, -⟩
    · rw [ht] at hi
      cases hi
      exact ⟨i, rfl⟩
    · rw [ht] at hr
      cases hr
      cases h
  cases h with
  | direct hline => exact absurd hline (Option.isSome_iff_ne_none.1 hl.line)
  | unwritable line hline post i reason he =>
    refine hc.of_finished hn hc.up rfl fun post text hpost htext => ?_
    rw [show l.posts n = some q from hq] at hpost
    cases hpost
    rw [he] at htext
    cases htext
  | accepted line hline post i text he hp =>
    have hf := (line.publish_ok l.service.now hp).1
    rw [← Service.broker_of_line hline] at hf
    refine hc.of_finished hn (Service.publish_of_up hline hc.up _).2 ((congrArg Array.size hf).trans Array.size_modify)
      fun _ _ _ _ => ?_
    have hgrow := MemoryBroker.feed_modify_current hl.feeds hf 0
    rw [if_pos (show 0 = l.service.broker.current from hc.current.symm)] at hgrow
    show _ < ((line.publish l.service.now (q.message text)).2.broker.feed 0).size
    rw [hgrow, Array.size_push]
    exact Nat.lt_succ_self _
  | exhausted line hline post i text he e hp => rw [(Service.publish_of_up hline hc.up _).1] at hp; cases hp
  | again line hline post i text he e hp => rw [(Service.publish_of_up hline hc.up _).1] at hp; cases hp
  | unending line hline post i text he e hp => rw [(Service.publish_of_up hline hc.up _).1] at hp; cases hp

theorem Calm.step (hl : Sound l) (hc : Calm l) (hn : n < l.deployment.tasks.size)
    (h : Task.Step l.service (l.deployment.task n) k s) : Calm (l.note n (l.after n k s)) := by
  have hplain := hl.plain n
  generalize ht : l.deployment.task n = t at h hplain
  cases h with
  | writer c conn now stopFirst h => exact hc.of_other hn (by simp [ht]) (.of_line hc.up rfl)
  | closer c => exact hplain.elim
  | activity a a' t h => exact hc.activity hl hn ht h
  | session x => exact hplain.elim
  | subscriber x x' t h => exact hc.of_other hn (by simp [ht]) (h.staysUp hc.up)

end Step

/-- **A run without faults stays calm.** -/
theorem Calm.apply (hl : Sound l) (hc : Calm l) {m : Move} (hm : m.isCalm = true) : Calm (l.apply m) := by
  have hspawn : ∀ (y : Deployment) (t : Task) (p : TaskId) (a : Activity), y.task p = .activity a →
      (y.spawn t).2.task p = .activity a := by
    intro y t p a hp
    rw [task_spawn, if_neg (Nat.ne_of_lt (y.lt_of_task_ne (by rw [hp]; simp)))]
    exact hp
  cases m with
  | turn t =>
    cases t with
    | step n choice =>
      show Calm (l.note n ((l.deployment.step n choice).getD l.deployment))
      cases hs : l.deployment.step n choice with
      | some y =>
        obtain ⟨hn, k, s, hstep, rfl⟩ := step_spec hs
        exact hc.step hl hn hstep
      | none => exact hc.of_staysUp (.of_line hc.up rfl) rfl (fun _ _ h => h) (funext fun f => if_neg (Nat.lt_irrefl _))
    | pass t => exact hc.of_staysUp (.of_line hc.up rfl) rfl (fun _ _ h => h) rfl
    | listen hub =>
      have hstart : l.deployment.start hub = some (l.deployment.spawn (.subscriber { hub })) := if_pos hl.line
      simp only [Ledger.apply, turn, hstart, Option.map_some, Option.getD_some]
      split
      · exact hc.of_staysUp (.of_line hc.up rfl) rfl (hspawn _ _) rfl
      · exact hc
    | outage down =>
      obtain ⟨line, hline, hp, ha⟩ := hc.up
      have hline' : (l.apply (.turn (.outage down))).service.line =
          some { line with broker := { line.broker with available := !down } } := by
        simp [Ledger.apply, turn, Service.onBroker, hline]
      exact hc.of_staysUp (.of_broker hline hline' hp hm rfl) rfl (fun _ _ h => h) rfl
    | disconnect => cases hm
  | connect hub room user sink => exact hc.of_staysUp (.of_line hc.up rfl) rfl (hspawn _ _) rfl
  | register c =>
    rw [Ledger.apply]
    split
    · exact hc.of_staysUp (.of_line hc.up rfl) rfl (fun _ _ h => h) rfl
    · exact hc
  | deregister c => exact hc.of_staysUp (.of_line hc.up rfl) rfl (fun _ _ h => h) rfl
  | close c =>
    rw [Ledger.apply]
    split
    · exact hc
    · exact hc.of_staysUp (.of_line hc.up rfl) rfl (fun _ _ h => h) rfl
  | publish post =>
    refine ⟨hc.up, hc.feeds, fun p q hq => ?_⟩
    rcases eq_or_ne p l.deployment.tasks.size with rfl | hne
    · cases (update_self ..).symm.trans hq
      exact .inl ⟨1, by rw [Ledger.apply, task_spawn, if_pos rfl]; rfl⟩
    · have hq := (update_of_ne hne ..).symm.trans hq
      exact (hc.settled p q hq).mono (hspawn _ _ p) id

end Ledger

end Parley
