import Parley.Proofs.Admission.Answers

/-!
What the gateway does with a request is one of the things that can happen: its own order of steps is one
order of turns. An upgrade begins a session exactly where the service grants it, and otherwise leaves
everything as it was.
-/

namespace Parley

open Hub Deployment Http

/-! ### Schedules -/

namespace Deployment

/-- By turns alone. -/
def Reaches (y y' : Deployment) : Prop := ∃ us : List Turn, us.foldl turn y = y'

theorem Reaches.refl (y : Deployment) : Reaches y y := ⟨[], rfl⟩

theorem Reaches.trans {y₁ y₂ y₃ : Deployment} (h : Reaches y₁ y₂) (h' : Reaches y₂ y₃) : Reaches y₁ y₃ := by
  obtain ⟨us, rfl⟩ := h
  obtain ⟨vs, rfl⟩ := h'
  exact ⟨us ++ vs, List.foldl_append⟩

theorem Reaches.of_turn (y : Deployment) (u : Turn) : Reaches y (y.turn u) := ⟨[u], rfl⟩

theorem Reaches.induct {motive : Deployment → Prop} (step : ∀ y u, motive y → motive (y.turn u)) {y y' : Deployment}
    (h : Reaches y y') (hy : motive y) : motive y' := by
  obtain ⟨us, rfl⟩ := h
  induction us generalizing y with
  | nil => exact hy
  | cons u us ih => exact ih (step y u hy)

end Deployment

namespace Schedule

theorem runTask_reaches (y : Deployment) (n : TaskId) (fuel : Nat) : Reaches y (runTask y n fuel) := by
  induction fuel generalizing y with
  | zero => exact .refl y
  | succ fuel ih =>
    unfold runTask
    split
    · rename_i y' hy'
      have ht : y.turn (.step n choice) = y' := by simp [turn, hy']
      have h := Reaches.of_turn y (.step n choice)
      rw [ht] at h
      exact h.trans (ih y')
    · exact .refl y

theorem drain_reaches (x : Schedule) (fuel : Nat) : Reaches x.deployment (x.drain fuel).deployment := by
  induction fuel generalizing x with
  | zero => exact .refl _
  | succ fuel ih =>
    unfold drain
    split
    · exact .refl _
    · rename_i n rest _
      exact (runTask_reaches x.deployment n patience).trans (ih ⟨_, _, _⟩)

theorem settle_reaches (x : Schedule) : Reaches x.deployment x.settle.deployment :=
  drain_reaches { x with queue := x.queue ++ woken x.deployment x.queue } patience

theorem passTo_reaches (x : Schedule) (t : Instant) : Reaches x.deployment (x.passTo t).deployment :=
  .of_turn _ (.pass t)

theorem runUntilOver_reaches (x : Schedule) (n : TaskId) (fuel : Nat) :
    Reaches x.deployment (x.runUntilOver n fuel).deployment := by
  induction fuel generalizing x with
  | zero => exact .refl _
  | succ fuel ih =>
    unfold runUntilOver
    split
    · exact .refl _
    · split
      · exact .refl _
      · rename_i t _
        refine (passTo_reaches x t).trans (Reaches.trans ?_ (ih _))
        split
        · exact settle_reaches { x.passTo t with queue := n :: (x.passTo t).queue.filter (· != n) }
        · exact settle_reaches (x.passTo t)

/-- The schedule when an activity has begun and is the next to go on. -/
def begin (x : Schedule) (a : Activity) : Schedule where
  deployment := (x.deployment.spawn (.activity a)).2
  queue := x.deployment.tasks.size :: x.queue
  timers := x.timers

theorem await_snd (x : Schedule) (a : Activity) :
    (x.await a).2 = (x.begin a).settle.runUntilOver x.deployment.tasks.size patience := by
  unfold await begin
  dsimp only [spawn]
  split <;> rfl

theorem await_reaches (x : Schedule) (a : Activity) :
    Reaches (x.deployment.spawn (.activity a)).2 (x.await a).2.deployment := by
  rw [await_snd]
  exact (settle_reaches (x.begin a)).trans (runUntilOver_reaches _ _ _)

end Schedule

/-! ### Requests -/

/-- Answers a request; what is published with the answer is left to tasks. -/
def Deployment.serve (y : Deployment) (hub : Nat) (r : Request) : Deployment :=
  let done := Route.answer y.service hub r
  let y : Deployment := { y with service := done.2 }
  let y := match done.1.apart with
    | some a => (y.spawn (.activity a)).2
    | none => y
  match done.1.before with
  | some a => (y.spawn (.activity a)).2
  | none => y

namespace Gateway

/-- **The gateway's order is one order of turns**: it answers a request, and then waits. -/
theorem request_reaches (x : Schedule) (hub : Nat) (r : Request) :
    Reaches (x.deployment.serve hub r) (request x hub r).2.deployment := by
  unfold request Deployment.serve
  rcases hd : Route.answer x.service hub r with ⟨reply, s⟩
  rw [show Route.answer x.deployment.service hub r = (reply, s) from hd]
  cases ha : reply.apart with
  | none =>
    cases hb : reply.before with
    | none => simp only [ha, hb]; exact .refl _
    | some b => simp only [ha, hb]; exact Schedule.await_reaches (x.onService fun _ => s) b
  | some a =>
    cases hb : reply.before with
    | none => simp only [ha, hb]; exact .refl _
    | some b =>
      simp only [ha, hb]
      exact Schedule.await_reaches ((x.onService fun _ => s).onDeployment fun y => (y.spawn (.activity a)).2) b

theorem request_fst (x : Schedule) (hub : Nat) (r : Request) :
    (request x hub r).1 = (Route.answer x.service hub r).1.response := rfl

/-- A request that is refused leaves everything as it was. -/
theorem request_of_refused {x : Schedule} {hub : Nat} {r : Request} {handling : Handling} {response : Response}
    (hanswer : Route.answer x.service hub r = Route.settled x.service handling) (h : handling = .error response) :
    request x hub r = (response, x) := by
  subst h
  unfold request
  rw [hanswer]
  rfl

/-! ### Upgrades -/

/-- A request is let in as a session: it has the form of an upgrade, and the service grants it. -/
def Admits (s : Service) (r : Request) (room user : String) : Prop :=
  Upgrade.notUpgrade? (arriving r) = none ∧ Upgrade.Grants s (arriving r) room user

/-- An upgrade that is let in begins one session and does nothing else; any other changes nothing at all. -/
theorem upgrade_spec (x : Schedule) (hub : Nat) {r : Request} (hp : Route.Path.ofText? r.path = some .upgrade) :
    (∃ room user conn n, Admits x.service r room user ∧ (upgrade x hub r).1 = .ok (conn, n) ∧
      (upgrade x hub r).2.deployment = (x.deployment.openSession hub room user openSink).2.2) ∨
    ((∃ response, upgrade x hub r = (.error response, x)) ∧ ∀ room user, ¬ Admits x.service r room user) := by
  have hpath : Route.Path.ofText? (arriving r).path = some .upgrade := hp
  unfold upgrade
  rw [if_pos hpath]
  cases hn : Upgrade.notUpgrade? (arriving r) with
  | some response =>
    refine .inr ⟨⟨response, rfl⟩, fun room user h => ?_⟩
    rw [h.1] at hn
    cases hn
  | none =>
    cases ha : Upgrade.authorize x.service (arriving r) with
    | error response =>
      refine .inr ⟨⟨response, rfl⟩, fun room user h => ?_⟩
      rw [Upgrade.authorize_ok_iff.2 h.2] at ha
      cases ha
    | ok p => exact .inl ⟨p.1, p.2, _, _, ⟨hn, Upgrade.authorize_ok_iff.1 ha⟩, rfl, rfl⟩

/-- A request for anything else is answered. -/
theorem upgrade_of_ne (x : Schedule) (hub : Nat) {r : Request} (hp : Route.Path.ofText? r.path ≠ some .upgrade) :
    (upgrade x hub r).2 = (request x hub (arriving r)).2 := by
  have hpath : Route.Path.ofText? (arriving r).path ≠ some .upgrade := hp
  unfold upgrade
  rw [if_neg hpath]

end Gateway

end Parley
