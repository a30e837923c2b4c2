import Parley.Proofs.Admission.Scheduled
import Parley.Proofs.Delivery.Deeds
import Parley.Proofs.Sessions.Step

/-!
# An activity among others

Nothing that goes on in a service gives it a broker or takes it away, and nothing changes how often a publish is
tried (`Steady`). So whatever happens between the steps of an activity, it is on a course of its own:
`carries_of_reaches`, and `await_carries` for an activity that is waited for.
-/

namespace Parley

open Hub

namespace Service

/-- There is a broker still, or still none, and the policy is the same. -/
structure Steady (s t : Service) : Prop where
  broker : t.hasBroker = s.hasBroker
  policy : t.policy = s.policy

theorem settled_steady : Activity.Settled Steady := fun _ _ h => ⟨h.broker, h.policy⟩

namespace Steady

variable {s : Service}

theorem refl (s : Service) : Steady s s := ⟨rfl, rfl⟩

theorem of_line {l : Broker.Line} (hl : s.line = some l) (l' : Broker.Line) : Steady s { s with line := some l' } :=
  ⟨by simp [hasBroker, hl], rfl⟩

end Steady

end Service

open Service

/-! ### Steps -/

section Steps

variable {s t : Service}

theorem Hub.Fanout.Step.steady {f f' : Fanout} (h : Fanout.Step s f f' t) : Steady s t := by
  cases h <;> exact ⟨rfl, rfl⟩

theorem Hub.Activity.Step.steady {a a' : Activity} (h : Activity.Step s a a' t) : Steady s t := by
  cases h with
  | record l hl | accepted l hl | exhausted l hl | again l hl | unending l hl => exact .of_line hl _
  | unrecorded | direct | unwritable | resume | delivered => exact .refl s
  | deliver f f' t r hf => exact hf.steady

theorem Hub.Session.Step.steady {x x' : Session} (h : Session.Step s x x' t) : Steady s t := by
  cases h with
  | work a a' here next hx t h => exact h.steady
  | handle hx frame rest hi a ha =>
    rcases route_service s x.hub x.room x.user (Text.Utf8.encode frame) with h | h <;> rw [h] <;> exact ⟨rfl, rfl⟩
  | register | rest | pass | leave | remove | close | stay | depart => exact ⟨rfl, rfl⟩

theorem Hub.Subscriber.Step.steady {x x' : Subscriber} (h : Subscriber.Step s x x' t) : Steady s t := by
  cases h with
  | subscribed l hl | refused l hl | message l hl | ended l hl | quit _ l hl => exact .of_line hl _
  | relay n f f' hx t hf => exact hf.steady
  | relayed | retry | stop => exact .refl s

theorem Task.Step.steady {k k' : Task} (h : Task.Step s k k' t) : Steady s t := by
  cases h with
  | writer | closer => exact ⟨rfl, rfl⟩
  | activity a a' t h => exact h.steady
  | session x x' t choice h => exact (Session.step_spec h).steady
  | subscriber x x' t h => exact h.steady

end Steps

/-! ### Turns -/

namespace Deployment

variable {y y' : Deployment} {n : TaskId} {a : Activity}

/-- An activity of a task goes on as the deployment does. -/
def Carries (n : TaskId) (y : Deployment) (a : Activity) (y' : Deployment) : Prop :=
  ∃ b ds, y'.task n = .activity b ∧ Activity.Course Steady y.service a ds b y'.service

/-- Something happens beside it. -/
theorem Carries.beside (hn : y.task n = .activity a) (htask : y'.task n = y.task n) (hs : Steady y.service y'.service) :
    Carries n y a y' := ⟨a, [], htask.trans hn, .other hs (.refl _ _)⟩

theorem Carries.of_step (hn : y.task n = .activity a) {m : TaskId} {choice : Choice} (h : y.step m choice = some y') :
    Carries n y a y' := by
  have hlt : n < y.tasks.size := y.lt_of_task_ne (by rw [hn]; nofun)
  by_cases hm : m = n
  · subst hm
    obtain ⟨⟨k, s⟩, hk, rfl⟩ := Option.map_eq_some_iff.1 h
    rw [hn] at hk
    obtain ⟨⟨b, s'⟩, hb, he⟩ := Option.map_eq_some_iff.1 hk
    cases he
    exact ⟨b, _, y.task_setTask _ hlt, .own choice hb (.refl _ _)⟩
  · obtain ⟨-, k, s, hk, rfl⟩ := step_spec h
    exact .beside hn (y.task_setTask_of_ne k (Ne.symm hm)) hk.steady

/-- A turn of the activity of a task is a step of it, or something beside it. -/
theorem Carries.of_turn (u : Turn) (hn : y.task n = .activity a) : Carries n y a (y.turn u) := by
  have hlt : n < y.tasks.size := y.lt_of_task_ne (by rw [hn]; nofun)
  cases u with
  | step m choice =>
    simp only [turn]
    cases h : y.step m choice with
    | none => exact .beside hn rfl (.refl _)
    | some y' => exact .of_step hn h
  | pass t => exact .beside hn rfl ⟨rfl, rfl⟩
  | listen hub =>
    simp only [turn, start]
    split
    · split
      · exact .beside hn ((y.task_spawn n _).trans (if_neg (Nat.ne_of_lt hlt))) ⟨rfl, rfl⟩
      · exact .beside hn rfl (.refl _)
    · exact .beside hn rfl (.refl _)
  | outage down | disconnect => exact .beside hn rfl ⟨by simp [turn, onBroker, hasBroker], rfl⟩

/-- **An activity among others is on its course.** -/
theorem carries_of_reaches (h : Reaches y y') (hn : y.task n = .activity a) : Carries n y a y' := by
  refine h.induct (motive := Carries n y a) (fun y₁ u h₁ => ?_) ⟨a, [], hn, .refl _ _⟩
  obtain ⟨b, ds, hb, hcourse⟩ := h₁
  obtain ⟨c, ds', hc, hcourse'⟩ := Carries.of_turn u hb
  exact ⟨c, ds ++ ds', hc, hcourse.trans hcourse'⟩

end Deployment

theorem Schedule.await_carries (x : Schedule) (a : Activity) :
    Deployment.Carries x.deployment.tasks.size x.deployment a (x.await a).2.deployment := by
  have htask : (x.deployment.spawn (.activity a)).2.task x.deployment.tasks.size = .activity a :=
    (x.deployment.task_spawn _ _).trans (if_pos rfl)
  have h := Deployment.carries_of_reaches (x.await_reaches a) htask
  exact h

end Parley
