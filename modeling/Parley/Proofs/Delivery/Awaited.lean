import Parley.Proofs.Delivery.Paths
import Parley.Proofs.Delivery.Steady

/-!
# An activity that is waited for

A schedule runs an activity that is waited for until it is over, or until the patience of the schedule is.
`Activity.stretch` bounds the steps that an activity has still to take.

* `await_held`: the activity goes on at once until it is over or has to let time pass.
* `await_of_direct`: without a broker it never has to, whatever else goes on.
-/

namespace Parley

open Hub Deployment

/-! ### How many steps are left -/

namespace Hub

def Post.stretch (p : Post) (s : Service) (n : UInt32) : ℕ :=
  2 * (s.policy.maxAttempts.toNat - n.toNat) + (s.registry p.hub).connectionCount p.room + 4

namespace Activity

/-- At most so many steps follow. -/
def stretch (s : Service) : Activity → ℕ
  | .recording p _ _ => p.stretch s 1 + 1
  | .attempting p n => p.stretch s n
  | .pausing p n _ => p.stretch s n + 1
  | .delivering (.listing hub room _) _ => (s.registry hub).connectionCount room + 3
  | .delivering (.handing _ rest _) _ => rest.length + 2
  | .delivering (.done _) _ => 1
  | .finished _ => 0

/-- It is over, or time has to pass. -/
def Rests (now : Instant) : Activity → Prop
  | .pausing _ _ t => now < t
  | .finished _ => True
  | _ => False

variable {s t : Service} {choice : Choice} {a a' : Activity}

theorem step_eq_none_iff : a.step s choice = none ↔ a.Rests s.now := by
  cases a with
  | pausing p n t => simp [step, Rests]
  | delivering f r => cases f <;> simp [step, Rests]
  | _ => simp [step, Rests]

theorem stretch_fanout_lt (p : Post) (s : Service) (n : UInt32) (r : Except PublishError Unit) :
    (delivering p.fanout r).stretch s < p.stretch s n := by
  show (s.registry p.hub).connectionCount p.room + 3 < _
  unfold Post.stretch
  omega

/-- **Every step is one of those.** -/
theorem stretch_lt_of_step (h : a.step s choice = some (a', t)) : a'.stretch t < a.stretch s := by
  cases step_spec h with
  | record l hl p user status => exact Nat.lt_succ_self (p.stretch s 1)
  | unrecorded hl p user status => exact Nat.lt_succ_of_lt (stretch_fanout_lt p s 1 (.ok ()))
  | direct hl p n => exact stretch_fanout_lt p s n (.ok ())
  | unwritable | accepted | unending => exact Nat.succ_pos _
  | exhausted l hl p n text he e ho => exact stretch_fanout_lt p s n (.ok ())
  | again l hl p n text he e ho next instant =>
    obtain ⟨-, ⟨-, hfinished⟩ | ⟨e', -, ⟨-, hdelivering⟩ | ⟨hn, ⟨instant', hpausing⟩ | ⟨-, hfinished⟩⟩⟩⟩ :=
      step_attempting hl he h
    · cases hfinished
    · cases hdelivering
    · obtain ⟨-, rfl, -⟩ := Activity.pausing.inj hpausing
      have hless := left_succ hn
      show p.stretch s (n + 1) + 1 < p.stretch s n
      unfold Post.stretch
      omega
    · cases hfinished
  | resume p n instant => exact Nat.lt_succ_self (p.stretch s n)
  | deliver f f' t r hf =>
    cases hf with
    | blank hub room => exact Nat.lt_of_lt_of_le (by decide : 1 < 3) (Nat.le_add_left _ _)
    | list hub room text =>
      show ((s.registry hub).snapshot room).length + 2 < (s.registry hub).connectionCount room + 3
      rw [Registry.snapshot, List.length_map]
      exact Nat.lt_succ_self _
    | hand frame c rest sent | skip frame c rest sent => exact Nat.lt_succ_self (rest.length + 2)
    | finish frame sent => exact Nat.lt_succ_self 1
  | delivered k r => exact Nat.zero_lt_one

end Activity

end Hub

/-! ### Steps take no time -/

section Now

variable {s t : Service}

theorem Hub.Fanout.Step.now {f f' : Fanout} (h : Fanout.Step s f f' t) : t.now = s.now := by
  cases h <;> rfl

theorem Hub.Activity.Step.now {a a' : Activity} (h : Activity.Step s a a' t) : t.now = s.now := by
  cases h with
  | deliver f f' t r hf => exact hf.now
  | _ => rfl

theorem Hub.Session.Step.now {x x' : Session} (h : Session.Step s x x' t) : t.now = s.now := by
  cases h with
  | work a a' here next hx t h => exact h.now
  | handle hx frame rest hi a ha =>
    rcases route_service s x.hub x.room x.user (Text.Utf8.encode frame) with h | h
    · rw [h]
    · rw [h]
      rfl
  | _ => rfl

theorem Hub.Subscriber.Step.now {x x' : Subscriber} (h : Subscriber.Step s x x' t) : t.now = s.now := by
  cases h with
  | relay n f f' hx t hf => exact hf.now
  | _ => rfl

theorem Task.Step.now {k k' : Task} (h : Task.Step s k k' t) : t.now = s.now := by
  cases h with
  | writer | closer => rfl
  | activity a a' t h => exact h.now
  | session x x' t choice h => exact (Session.step_spec h).now
  | subscriber x x' t h => exact h.now

end Now

/-! ### Runs -/

namespace Deployment

variable {y y' : Deployment} {n m : TaskId} {a b : Activity} {choice : Choice}

/-- A task is an activity that is over or has to let time pass. -/
structure Held (n : TaskId) (b : Activity) (y : Deployment) : Prop where
  task : y.task n = .activity b
  rests : b.Rests y.service.now

theorem step_activity (hn : y.task n = .activity a) (choice : Choice) : y.step n choice =
    (a.step y.service choice).map fun p => { y.setTask n (.activity p.1) with service := p.2 } := by
  rw [step, hn, Task.step, Option.map_map]
  rfl

theorem Held.step_self (h : Held n b y) (choice : Choice) : y.step n choice = none := by
  rw [step_activity h.task, Activity.step_eq_none_iff.mpr h.rests, Option.map_none]

theorem Held.step (h : Held n b y) (hs : y.step m choice = some y') : Held n b y' := by
  by_cases hm : m = n
  · subst hm
    rw [h.step_self] at hs
    cases hs
  · obtain ⟨-, k, s, hk, rfl⟩ := step_spec hs
    refine ⟨(y.task_setTask_of_ne k (Ne.symm hm)).trans h.task, ?_⟩
    show b.Rests s.now
    rw [hk.now]
    exact h.rests

theorem Held.runTask (h : Held n b y) (m : TaskId) (fuel : ℕ) : Held n b (Schedule.runTask y m fuel) := by
  induction fuel generalizing y with
  | zero => exact h
  | succ fuel ih =>
    unfold Schedule.runTask
    split
    · rename_i y' hy'
      exact ih (h.step hy')
    · exact h

end Deployment

namespace Schedule

variable {x : Schedule} {y : Deployment} {n m : TaskId} {a b : Activity}

theorem runTask_task_of_ne (hm : m ≠ n) (fuel : ℕ) : (runTask y n fuel).task m = y.task m := by
  induction fuel generalizing y with
  | zero => rfl
  | succ fuel ih =>
    unfold runTask
    split
    · rename_i y' hy'
      obtain ⟨-, k, s, -, rfl⟩ := step_spec hy'
      exact ih.trans (y.task_setTask_of_ne k hm)
    · rfl

theorem drain_held (h : Held n b x.deployment) (fuel : ℕ) : Held n b (x.drain fuel).deployment := by
  induction fuel generalizing x with
  | zero => exact h
  | succ fuel ih =>
    unfold drain
    split
    · exact h
    · exact ih (h.runTask _ patience)

/-- **An activity that is run rests in the end**, and nearer to its end if it did not rest before. -/
theorem runTask_held (fuel : ℕ) (hn : y.task n = .activity a) (hfuel : a.stretch y.service ≤ fuel) :
    ∃ b, Held n b (runTask y n fuel) ∧ b.stretch (runTask y n fuel).service ≤ a.stretch y.service ∧
      (¬ a.Rests y.service.now → b.stretch (runTask y n fuel).service < a.stretch y.service) := by
  induction fuel generalizing y a with
  | zero =>
    cases hstep : a.step y.service choice with
    | none =>
      have hrests := Activity.step_eq_none_iff.mp hstep
      exact ⟨a, ⟨hn, hrests⟩, le_rfl, absurd hrests⟩
    | some p =>
      have hless := Activity.stretch_lt_of_step hstep
      omega
  | succ fuel ih =>
    unfold runTask
    rw [step_activity hn]
    cases hstep : a.step y.service choice with
    | none =>
      have hrests := Activity.step_eq_none_iff.mp hstep
      exact ⟨a, ⟨hn, hrests⟩, le_rfl, absurd hrests⟩
    | some p =>
      have hless := Activity.stretch_lt_of_step hstep
      have hn' : ({ y.setTask n (.activity p.1) with service := p.2 } : Deployment).task n = .activity p.1 :=
        y.task_setTask _ (y.lt_of_task_ne (by simp [hn]))
      obtain ⟨b, hheld, hle, -⟩ := ih hn' (by dsimp only; omega)
      exact ⟨b, hheld, hle.trans hless.le, fun _ => hle.trans_lt hless⟩

theorem exists_patience : ∃ k, patience = k + 1 := ⟨Nat.pow 2 40 - 1, rfl⟩

/-- The activity that is first in the queue is run first, and rests until time passes. -/
theorem settle_held {rest : List TaskId} (hqueue : x.queue = n :: rest) (hn : x.deployment.task n = .activity a)
    (hpatience : a.stretch x.service ≤ patience) : ∃ b, Held n b x.settle.deployment := by
  obtain ⟨k, hk⟩ := exists_patience
  obtain ⟨b, hheld, -⟩ := runTask_held patience hn hpatience
  refine ⟨b, ?_⟩
  rw [settle, hqueue, hk]
  exact drain_held hheld k

theorem task_begin (x : Schedule) (a : Activity) : (x.begin a).deployment.task x.deployment.tasks.size = .activity a :=
  (x.deployment.task_spawn _ _).trans (if_pos rfl)

/-- **An activity that is waited for goes on at once**, until it is over or has to let time pass. -/
theorem await_held (hpatience : a.stretch x.service ≤ patience) :
    ∃ z b, Reaches (x.deployment.spawn (.activity a)).2 z ∧
    Held x.deployment.tasks.size b z ∧ Reaches z (x.await a).2.deployment := by
  obtain ⟨b, hheld⟩ := settle_held rfl (x.task_begin a) hpatience
  refine ⟨_, b, settle_reaches (x.begin a), hheld, ?_⟩
  rw [await_snd]
  exact runUntilOver_reaches _ _ _

theorem runUntilOver_of_finished {r : Except PublishError Unit} (hn : x.deployment.task n = .activity (.finished r))
    (fuel : ℕ) : x.runUntilOver n fuel = x := by
  have hover : x.deployment.isOver n = true := by rw [isOver, hn]; rfl
  cases fuel with
  | zero => rfl
  | succ fuel => rw [runUntilOver, if_pos hover]

end Schedule

/-! ### Without a broker -/

theorem Hub.Activity.Course.ne_pausing {E : Service → Service → Prop} (hE : Activity.Settled E) {s t : Service}
    {a b : Activity} {ds : List Deed} (h : Activity.Course E s a ds b t) (hbroker : s.hasBroker = false)
    (ha : ∀ p n i, a ≠ .pausing p n i) (p : Post) (n : UInt32) (i : Instant) : b ≠ .pausing p n i := by
  induction h with
  | refl s a => exact ha p n i
  | own choice hstep rest ih =>
    have hspec := Activity.step_spec hstep
    refine ih (hspec.steady.broker.trans hbroker) ?_
    cases hspec with
    | again l hl =>
      rw [Service.hasBroker, hl] at hbroker
      cases hbroker
    | _ =>
      intro p n i hc
      cases hc
  | other hother rest ih => exact ih ((hE _ _ hother).1.trans hbroker) ha

namespace Schedule

variable {x : Schedule} {n m : TaskId} {a b : Activity}

/-- **Without a broker an activity that is waited for is over**, whatever else goes on. -/
theorem await_of_direct (hbroker : x.service.hasBroker = false) (ha : ∀ p n i, a ≠ .pausing p n i)
    (hpatience : a.stretch x.service ≤ patience) :
    ∃ r, (x.await a).2.deployment.task x.deployment.tasks.size = .activity (.finished r) := by
  obtain ⟨b, hheld⟩ := settle_held rfl (x.task_begin a) hpatience
  obtain ⟨c, ds, hc, hcourse⟩ := carries_of_reaches (settle_reaches (x.begin a)) (x.task_begin a)
  obtain rfl : b = c := Task.activity.inj (hheld.task.symm.trans hc)
  have hne := hcourse.ne_pausing Service.settled_steady hbroker ha
  cases b with
  | finished r =>
    refine ⟨r, ?_⟩
    rw [await_snd, runUntilOver_of_finished hheld.task]
    exact hheld.task
  | pausing p n i => exact absurd rfl (hne p n i)
  | _ => exact hheld.rests.elim

end Schedule

end Parley
