import Parley.Proofs.Delivery.Awaited

/-!
# An activity that is waited for while nothing else goes on

As long as a publish fails nobody hears of it: no connection, no hub and no subscription (`Unheard`). So where
nobody has anything to do, or waits for an instant (`Idle`), that stays so, and the only timer is the one of the
activity. Each time that it goes on it has fewer steps left, and `await_of_idle` is that it is over in the end,
whatever the broker does.
-/

namespace Parley

open Hub Deployment

/-! ### What nobody hears of -/

namespace Service

/-- Nothing has come to a connection, to a hub or to a subscription. -/
structure Unheard (s t : Service) : Prop where
  connections : t.connections = s.connections
  hubs : t.hubs = s.hubs
  broker : t.hasBroker = s.hasBroker
  traffic : MemoryBroker.SameTraffic s.broker t.broker

namespace Unheard

variable {s t u : Service} {l : Broker.Line}

theorem refl (s : Service) : Unheard s s := ⟨rfl, rfl, rfl, .refl _⟩

theorem trans (h : Unheard s t) (h' : Unheard t u) : Unheard s u where
  connections := h'.connections.trans h.connections
  hubs := h'.hubs.trans h.hubs
  broker := h'.broker.trans h.broker
  traffic := ⟨h'.traffic.feeds.trans h.traffic.feeds, h'.traffic.subscriptions.trans h.traffic.subscriptions⟩

theorem of_line (hl : s.line = some l) {l' : Broker.Line} (h : MemoryBroker.SameTraffic l.broker l'.broker) :
    Unheard s { s with line := some l' } where
  connections := rfl
  hubs := rfl
  broker := by simp [hasBroker, hl]
  traffic := by rw [broker_of_line hl]; exact h

theorem connection (h : Unheard s t) (c : ConnId) : t.connection c = s.connection c := by
  rw [Service.connection, h.connections, Service.connection]

theorem stopped (h : Unheard s t) (g : ℕ) : (t.hub g).stopped = (s.hub g).stopped := by
  rw [Service.hub, h.hubs, Service.hub]

end Unheard

end Service

open Service

namespace Hub

variable {s t : Service}

/-- It goes to the room, or it is over. -/
def Activity.Settles : Activity → Prop
  | .delivering .. | .finished _ => True
  | _ => False

/-- An activity that has not settled tells nobody anything. -/
theorem Activity.Step.settles_or {a a' : Activity} (h : Activity.Step s a a' t) :
    a'.Settles ∨ ¬ a.Settles ∧ Unheard s t := by
  cases h with
  | record l hl => exact .inr ⟨id, .of_line hl (l.setEx_traffic _ _ _ _)⟩
  | again l hl p n text he e ho => exact .inr ⟨id, .of_line hl (Broker.Line.publish_error _ _ ho)⟩
  | resume => exact .inr ⟨id, .refl s⟩
  | _ => exact .inl trivial

theorem Connection.step_of_wake {c : Connection} {now : Instant} {stopFirst : Bool} (h : c.step now stopFirst = none)
    (hwake : c.wake? = none) (now' : Instant) : c.step now' stopFirst = none := by
  unfold step at h ⊢
  unfold wake? at hwake
  cases hw : c.writer with
  | stopped => rfl
  | idle => simpa [proceed, hw] using h
  | holding frame =>
    simp only [proceed, hw, reduceCtorEq, if_false] at h
    split at h
    · split at h <;> cases h
    · cases h
  | writing frame done deadline =>
    rw [hw] at hwake
    cases done <;> cases hwake

theorem Session.step_of_wake {x : Session} {choice : Choice} (h : x.step s choice = none) (hwake : x.wake? = none)
    (t : Service) : x.step t choice = none := by
  have hadvance : ∀ a here next, a.wake? = none → x.advance s choice a here next ≠ none := by
    intro a here next ha
    cases a with
    | pausing => cases ha
    | delivering f r => cases f <;> simp [advance, Activity.step]
    | _ => simp [advance, Activity.step]
  unfold step at h ⊢
  unfold wake? at hwake
  cases hstage : x.stage with
  | reading =>
    rw [hstage] at h
    simp only [read] at h ⊢
    split at h
    · rfl
    · split at h <;> cases h
    all_goals cases h
  | joining a | handling a | leaving a =>
    rw [hstage] at h hwake
    exact absurd h (hadvance a _ _ hwake)
  | checking =>
    rw [hstage] at h
    dsimp only at h
    split at h <;> cases h
  | opening | releasing | closing =>
    rw [hstage] at h
    cases h
  -- a session that is over or was dropped does nothing any more
  | _ => rfl

/-- A subscription with nothing to do is over, or has nothing to read. -/
theorem Subscriber.over_or_listening {x : Subscriber} {choice : Choice} (h : x.proceed s choice = none)
    (hwake : x.wake? = none) :
    x.state = .over ∨
      ∃ l n received, s.line = some l ∧ x.state = .listening n received ∧ (l.broker.receive n).1 = .waiting := by
  unfold wake? at hwake
  unfold proceed at h
  cases hx : x.state with
  | waiting =>
    rw [hx] at hwake
    cases hwake
  | listening n received =>
    cases hl : s.line with
    | none => simp [hl, hx] at h
    | some l =>
      refine .inr ⟨l, n, received, rfl, rfl, ?_⟩
      simp only [hl, hx, listen] at h
      split at h
      · rename_i hr
        rw [hr]
      all_goals cases h
  | subscribing =>
    cases hl : s.line with
    | none => simp [hl, hx] at h
    | some l =>
      simp only [hl, hx] at h
      split at h <;> cases h
  | relaying n f => cases hl : s.line <;> cases f <;> simp [hl, hx] at h
  | _ => exact .inl rfl

theorem Subscriber.step_of_wake {x : Subscriber} (h : x.step s Schedule.choice = none) (hwake : x.wake? = none)
    (hst : Unheard s t) : x.step t Schedule.choice = none := by
  unfold step at h ⊢
  rw [hst.stopped x.hub]
  split at h
  · cases h
  · rename_i hstop
    rw [if_neg hstop]
    rcases over_or_listening h hwake with hx | ⟨l, n, received, hl, hx, hwaiting⟩
    · unfold proceed
      rw [hx]
      cases t.line <;> rfl
    · obtain ⟨l', hl'⟩ : ∃ l', t.line = some l' :=
        Option.isSome_iff_exists.mp (hst.broker.trans (by rw [hasBroker, hl]; rfl))
      have htraffic := hst.traffic
      rw [broker_of_line hl, broker_of_line hl'] at htraffic
      have hwaiting' : (l'.broker.receive n).1 = .waiting := (htraffic.receive_fst n).trans hwaiting
      rcases hr : l'.broker.receive n with ⟨d, b⟩
      rw [hr] at hwaiting'
      obtain rfl : d = .waiting := hwaiting'
      simp [proceed, hl', hx, listen, hr]

end Hub

/-! ### Tasks with nothing to do -/

/-- A task has nothing to do, and waits for no instant. -/
structure Task.Idle (s : Service) (k : Task) : Prop where
  step : k.step s Schedule.choice = none
  wake : k.wake? s = none

/-- What nobody has heard of gives nobody anything to do. -/
theorem Task.Idle.unheard {s t : Service} {k : Task} (h : k.Idle s) (hst : Unheard s t) : k.Idle t := by
  cases k with
  | writer c =>
    have hstep : (s.connection c).step s.now Schedule.choice.stopFirst = none := Option.map_eq_none_iff.mp h.step
    refine ⟨?_, (congrArg Connection.wake? (hst.connection c)).trans h.wake⟩
    simp only [Task.step, hst.connection c, Connection.step_of_wake hstep h.wake, Option.map_none]
  | closer => cases h.step
  | activity a =>
    have hstep : a.step s Schedule.choice = none := Option.map_eq_none_iff.mp h.step
    refine ⟨?_, h.wake⟩
    rw [Task.step]
    cases a with
    | pausing => cases h.wake
    | finished r => rfl
    | _ => exact (Activity.step_eq_none_iff.mp hstep).elim
  | session x =>
    have hstep : x.step s Schedule.choice = none := Option.map_eq_none_iff.mp h.step
    refine ⟨?_, h.wake⟩
    rw [Task.step, Session.step_of_wake hstep h.wake, Option.map_none]
  | subscriber x =>
    have hstep : x.step s Schedule.choice = none := Option.map_eq_none_iff.mp h.step
    refine ⟨?_, h.wake⟩
    rw [Task.step, Subscriber.step_of_wake hstep h.wake hst, Option.map_none]
  | done => exact ⟨rfl, rfl⟩

namespace Schedule

variable {x : Schedule} {y : Deployment} {n m : TaskId} {a b : Activity}

theorem runTask_settles_or (hn : y.task n = .activity a) (fuel : ℕ) : ∃ b, (runTask y n fuel).task n = .activity b ∧
    (b.Settles ∨ ¬ a.Settles ∧ Unheard y.service (runTask y n fuel).service) := by
  induction fuel generalizing y a with
  | zero => exact ⟨a, hn, (em a.Settles).imp_right fun h => ⟨h, .refl _⟩⟩
  | succ fuel ih =>
    unfold runTask
    rw [step_activity hn]
    cases hstep : a.step y.service choice with
    | none => exact ⟨a, hn, (em a.Settles).imp_right fun h => ⟨h, .refl _⟩⟩
    | some p =>
      have hn' : ({ y.setTask n (.activity p.1) with service := p.2 } : Deployment).task n = .activity p.1 :=
        y.task_setTask _ (y.lt_of_task_ne (by simp [hn]))
      obtain ⟨b, hb, hor⟩ := ih hn'
      refine ⟨b, hb, hor.imp_right ?_⟩
      rintro ⟨hp, hunheard⟩
      obtain hsettles | ⟨ha, hfirst⟩ := (Activity.step_spec hstep).settles_or
      · exact absurd hsettles hp
      · exact ⟨ha, hfirst.trans hunheard⟩

/-- The timers are those of the tasks that wait for an instant. -/
theorem mem_renewTimers {timers : List (Instant × TaskId)} {t : Instant} :
    (t, m) ∈ renewTimers y timers ↔ (y.task m).wake? y.service = some t := by
  have hlt (h : (y.task m).wake? y.service = some t) : m < y.tasks.size := by
    refine y.lt_of_task_ne fun hdone => ?_
    rw [hdone] at h
    cases h
  simp only [renewTimers, List.mem_append, List.mem_filterMap, List.mem_range]
  constructor
  · rintro (h | ⟨k, -, hk⟩)
    · exact beq_iff_eq.mp (List.mem_filter.mp h).2
    · split at hk
      · rename_i t' ht'
        split at hk <;> cases hk
        exact ht'
      · cases hk
  · intro h
    by_cases hmem : (t, m) ∈ timers
    · exact .inl (List.mem_filter.mpr ⟨hmem, beq_iff_eq.mpr h⟩)
    · refine .inr ⟨m, hlt h, ?_⟩
      rw [h]
      exact if_neg fun hc => hmem (List.mem_filter.mp (List.contains_iff_mem.mp hc)).1

/-- Nobody but one task has anything to do. -/
def Spares (n : TaskId) (y : Deployment) : Prop := ∀ m, m ≠ n → (y.task m).Idle y.service

theorem woken_of_spares (h : Spares n y) {queue : List TaskId} (hn : n ∈ queue ∨ y.step n choice = none) :
    woken y queue = [] := by
  refine List.filter_eq_nil_iff.mpr fun m _ hm => ?_
  obtain ⟨hqueue, hready⟩ := Bool.and_eq_true_iff.mp hm
  by_cases hmn : m = n
  · subst hmn
    rcases hn with hn | hn
    · simp [hn] at hqueue
    · rw [step, Option.map_eq_none_iff] at hn
      rw [isReady, hn] at hready
      cases hready
  · rw [isReady, (h m hmn).step] at hready
    cases hready

theorem drain_of_queue_eq_nil (h : x.queue = []) (fuel : ℕ) : x.drain fuel = x := by
  cases fuel with
  | zero => rfl
  | succ fuel =>
    unfold drain
    rw [h]

/-- A task has let go, and nobody has anything to do until it goes on. -/
structure Lulled (n : TaskId) (b : Activity) (x : Schedule) : Prop where
  held : Held n b x.deployment
  spares : Spares n x.deployment
  queue : x.queue = []
  timers : ∀ t m, (t, m) ∈ x.timers ↔ (x.deployment.task m).wake? x.service = some t

/-- The task goes on until it is over or lets time pass. -/
theorem settle_lulled (hqueue : x.queue = [n]) (hn : x.deployment.task n = .activity a)
    (hspares : Spares n x.deployment) (hpatience : a.stretch x.service ≤ patience) :
    (∃ r, Held n (.finished r) x.settle.deployment) ∨
      ∃ b, Lulled n b x.settle ∧ b.stretch x.settle.service ≤ a.stretch x.service ∧
        (¬ a.Rests x.service.now → b.stretch x.settle.service < a.stretch x.service) := by
  obtain ⟨k, hk⟩ := exists_patience
  obtain ⟨b, hheld, hstretch⟩ := runTask_held patience hn hpatience
  obtain ⟨c, hc, hor⟩ := runTask_settles_or hn patience
  obtain rfl : b = c := Task.activity.inj (hheld.task.symm.trans hc)
  have hsettle : x.settle = drain ⟨runTask x.deployment n patience, woken (runTask x.deployment n patience) [],
      renewTimers (runTask x.deployment n patience) x.timers⟩ k := by
    refine (congrArg ({ x with queue := x.queue ++ woken x.deployment x.queue } : Schedule).drain hk).trans ?_
    rw [hqueue, woken_of_spares hspares (.inl (List.mem_singleton_self n))]
    rfl
  rcases hor with hsettles | ⟨-, hunheard⟩
  · cases b with
    | finished r =>
      refine .inl ⟨r, ?_⟩
      rw [hsettle]
      exact drain_held hheld k
    | delivering f r => exact hheld.rests.elim
    | _ => exact hsettles.elim
  · have hspares' : Spares n (runTask x.deployment n patience) := fun m hm => by
      rw [runTask_task_of_ne hm]
      exact (hspares m hm).unheard hunheard
    rw [woken_of_spares hspares' (.inr (hheld.step_self choice)), drain_of_queue_eq_nil rfl] at hsettle
    rw [hsettle]
    exact .inr ⟨b, ⟨hheld, hspares', rfl, fun t m => mem_renewTimers⟩, hstretch⟩

section Pause

variable {p : Post} {k : UInt32} {t : Instant}

/-- The only timer is that of the task. -/
theorem Lulled.mem_timers_iff (h : Lulled n (.pausing p k t) x) {w : Instant × TaskId} : w ∈ x.timers ↔ w = (t, n) := by
  obtain ⟨i, m⟩ := w
  rw [h.timers i m]
  by_cases hm : m = n
  · subst hm
    rw [h.held.task, Prod.mk.injEq, and_iff_left rfl]
    exact Option.some_inj.trans eq_comm
  · rw [show (x.deployment.task m).wake? x.service = none from (h.spares m hm).wake]
    exact ⟨nofun, fun he => absurd (Prod.mk.inj he).2 hm⟩

theorem Lulled.next?_eq (h : Lulled n (.pausing p k t) x) : x.next? = some t := by
  refine List.min?_eq_some_iff.mpr ⟨List.mem_map.mpr ⟨_, h.mem_timers_iff.mpr rfl, rfl⟩, fun i hi => ?_⟩
  obtain ⟨w, hw, rfl⟩ := List.mem_map.mp hi
  rw [h.mem_timers_iff.mp hw]

theorem Lulled.mem_queue_passTo_iff (h : Lulled n (.pausing p k t) x) : m ∈ (x.passTo t).queue ↔ m = n := by
  simp [passTo, h.queue, h.mem_timers_iff]

/-- When the pause is over it is the turn of the task. -/
theorem Lulled.runUntilOver_succ (h : Lulled n (.pausing p k t) x) (fuel : ℕ) :
    x.runUntilOver n (fuel + 1) = ({ x.passTo t with queue := [n] } : Schedule).settle.runUntilOver n fuel := by
  have hlast : x.deployment.isOver n = false := by rw [isOver, h.held.task]; rfl
  have hqueue : (x.passTo t).queue.filter (· != n) = [] :=
    List.filter_eq_nil_iff.mpr fun m hm => by simp [h.mem_queue_passTo_iff.mp hm]
  rw [runUntilOver, hlast, h.next?_eq]
  dsimp only
  rw [if_neg Bool.false_ne_true, if_pos (List.contains_iff_mem.mpr (h.mem_queue_passTo_iff.mpr rfl)), hqueue]

end Pause

/-- Each time that it goes on there is less left to do. -/
theorem runUntilOver_lulled (fuel : ℕ) (h : Lulled n b x) (hfuel : b.stretch x.service ≤ fuel)
    (hpatience : fuel ≤ patience) :
    ∃ r, (x.runUntilOver n fuel).deployment.task n = .activity (.finished r) := by
  induction fuel generalizing x b with
  | zero =>
    cases b with
    | finished r => exact ⟨r, h.held.task⟩
    | pausing p k t => exact absurd (Nat.le_zero.mp hfuel) (Nat.succ_ne_zero _)
    | _ => exact h.held.rests.elim
  | succ fuel ih =>
    cases b with
    | finished r =>
      refine ⟨r, ?_⟩
      rw [runUntilOver_of_finished h.held.task]
      exact h.held.task
    | pausing p k t =>
      have hspares : Spares n (x.passTo t).deployment := fun m hm => (h.spares m hm).unheard ⟨rfl, rfl, rfl, .refl _⟩
      have hdue : ¬ Activity.Rests (x.passTo t).service.now (.pausing p k t) :=
        Nat.not_lt_of_le (Nat.le_max_right x.service.now t)
      rw [h.runUntilOver_succ]
      obtain ⟨r, hr⟩ | ⟨b, hb, -, hless⟩ :=
        settle_lulled (x := { x.passTo t with queue := [n] }) rfl h.held.task hspares (hfuel.trans hpatience)
      · exact ⟨r, by rw [runUntilOver_of_finished hr.task]; exact hr.task⟩
      · exact ih hb (Nat.le_of_lt_succ ((hless hdue).trans_le hfuel)) (Nat.le_of_succ_le hpatience)
    | _ => exact h.held.rests.elim

/-- Nobody has anything to do, or waits for an instant. -/
structure Idle (x : Schedule) : Prop where
  queue : x.queue = []
  tasks : ∀ m, (x.deployment.task m).Idle x.service

/-- A person is in a room whose hub listens, and says nothing. -/
example : Idle {
    deployment := {
      service := {
        line := some { broker := { subscriptions := #[⟨0, 0, [], false⟩] } }
        connections := #[{ label := "c", room := "r", user := "u", sink := fun _ => .taken }] }
      tasks := #[.writer 0, .session ⟨0, 0, "r", "u", [], .reading⟩,
        .subscriber ⟨0, firstDelay, .listening 0 false⟩] } } where
  queue := rfl
  tasks m :=
    match m with
    | 0 | 1 | 2 | _ + 3 => ⟨rfl, rfl⟩

theorem Idle.onService (h : x.Idle) {t : Service} (ht : Unheard x.service t) : (x.onService fun _ => t).Idle :=
  ⟨h.queue, fun m => (h.tasks m).unheard ht⟩

/-- **Where nothing else goes on an activity that is waited for is over in the end**, whatever the broker does. -/
theorem await_of_idle (h : x.Idle) (hpatience : a.stretch x.service ≤ patience) :
    ∃ r, (x.await a).2.deployment.task x.deployment.tasks.size = .activity (.finished r) := by
  have hspares : Spares x.deployment.tasks.size (x.begin a).deployment := fun m hm => by
    rw [begin, (x.deployment.task_spawn _ _).trans (if_neg hm)]
    exact h.tasks m
  have hqueue : (x.begin a).queue = [x.deployment.tasks.size] := by rw [begin, h.queue]
  rw [await_snd]
  obtain ⟨r, hr⟩ | ⟨b, hb, hle, -⟩ := settle_lulled hqueue (x.task_begin a) hspares hpatience
  · exact ⟨r, by rw [runUntilOver_of_finished hr.task]; exact hr.task⟩
  · exact runUntilOver_lulled patience hb (hle.trans hpatience) le_rfl

end Schedule

end Parley
