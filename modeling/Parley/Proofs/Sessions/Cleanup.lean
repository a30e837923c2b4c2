import Mathlib.Data.List.Nodup
import Parley.Proofs.Sessions.Course

/-!
Cleaning up. Whatever sessions there are, in whatever order they take their steps, and wherever they end or
are dropped: a connection that was registered is removed once, alone and for good, its transport is closed
once, and when every session is over there is no room left.
-/

namespace Parley

open Hub Deployment

namespace Deployment

/-- Something that happens to the sessions of a deployment. -/
inductive Occurrence where
  /-- A task takes a step, time passes, a hub begins to subscribe, the broker fails or disconnects. -/
  | turn (t : Turn)
  /-- A session begins on a hub, on a new connection. -/
  | enter (hub : Nat) (room user : String) (sink : Sink)
  /-- Something comes from the client of a session. -/
  | item (n : TaskId) (i : Item)
  /-- A session is dropped where it stands. -/
  | drop (n : TaskId)
  /-- An event is published from a hub. -/
  | publish (post : Post)

def after (y : Deployment) : Occurrence → Deployment
  | .turn t => y.turn t
  | .enter hub room user sink =>
    if hub < y.service.hubs.size then (y.openSession hub room user sink).2.2 else y
  | .item n i => y.feed n i
  | .drop n => y.abort n
  | .publish post => (y.spawn (.activity (.publish post.hub post.room post.category post.event))).2

def course (y : Deployment) (os : List Occurrence) (k : Nat) : Deployment := (os.take k).foldl after y

/-- So many hubs before anyone has come; everything else is as in `base`. -/
def vacant (base : Service) (hubs : Nat) : Deployment :=
  { service := { base with hubs := Array.replicate hubs {}, connections := #[] } }

def Serves (y : Deployment) (c : ConnId) : Prop := ∃ h r, c ∈ (y.service.registry h).snapshot r

end Deployment

/-- What becomes of the connections of sessions, `y k` being the deployment after `k` occurrences. -/
structure CleanedUp (y : Nat → Deployment) : Prop where
  /-- Who is listed is in the room of its own session, there once, and open. -/
  listed : ∀ k h r c, c ∈ ((y k).service.registry h).snapshot r →
    (∃ n x, (y k).task n = .session x ∧ x.conn = c ∧ x.hub = h ∧ x.room = r) ∧ ((y k).service.connection c).room = r ∧
      (((y k).service.registry h).snapshot r).count c = 1 ∧ ((y k).service.connection c).closed = false ∧
      ((y k).service.connection c).closes = 0
  /-- Who was removed does not come back. -/
  final : ∀ c i j k, i ≤ j → j ≤ k → (y i).Serves c → ¬ (y j).Serves c → ¬ (y k).Serves c
  removedOnce : ∀ c i k, i ≤ k → (y i).Serves c → ¬ (y k).Serves c → ∃! j, j < k ∧ (y j).Serves c ∧
    ¬ (y (j + 1)).Serves c
  /-- Who is removed goes alone. -/
  alone : ∀ c j, (y j).Serves c → ¬ (y (j + 1)).Serves c → ∀ h r e,
    e ∈ ((y (j + 1)).service.registry h).members r ↔ e ∈ ((y j).service.registry h).members r ∧ e.id ≠ c
  closedAtMostOnce : ∀ k c, ((y k).service.connection c).closes ≤ 1
  /-- When its session is over a connection that was listed is removed, and its transport closed, or for a
  dropped session left to a task to close. -/
  settled : ∀ c i k, i ≤ k → (y i).Serves c → ∃ n x, (y k).task n = .session x ∧ x.conn = c ∧
    (x.isOver = true → ¬ (y k).Serves c ∧
      (((y k).service.connection c).closes = 1 ∨ (x.stage = .dropped ∧ ∃ m, (y k).task m = .closer c)))
  /-- Between the end of its stream and the close of its transport nothing holds a session up. -/
  unstuck : ∀ k n x choice, (y k).task n = .session x → x.stage = .releasing ∨ x.stage = .closing →
    ((y k).step n choice).isSome = true
  /-- The task that a close is left to does it. -/
  closer : ∀ k m c choice, (y k).task m = .closer c → (((y k).turn (.step m choice)).service.connection c).closes = 1
  /-- When every session is over there is no room left. -/
  empty : ∀ k, (∀ n x, (y k).task n = .session x → x.isOver = true) → ∀ h, ((y k).service.registry h).roomCount = 0

theorem Hub.Session.isOver_iff {x : Session} : x.isOver = true ↔ x.stage = .over ∨ x.stage = .dropped := by
  unfold isOver
  split <;> simp_all

variable {y y' : Deployment}

/-! ### One change -/

theorem Tended.serves_iff (hy : Tended y) {c : ConnId} :
    y.Serves c ↔ ∃ n x, y.task n = .session x ∧ x.conn = c ∧ x.standing = .listed := by
  constructor
  · rintro ⟨h, r, hc⟩
    obtain ⟨e, he, rfl⟩ := Service.mem_snapshot.1 hc
    obtain ⟨n, x, hx, hs, -, -, rfl⟩ := (hy.members h r e).1 he
    exact ⟨n, x, hx, rfl, hs⟩
  · rintro ⟨n, x, hx, rfl, hs⟩
    exact ⟨x.hub, x.room, Service.mem_snapshot.2 ⟨x.member, (hy.members _ _ _).2 ⟨n, x, hx, hs, rfl, rfl, rfl⟩, rfl⟩⟩

/-- A connection is listed exactly while its session says so. -/
theorem Tended.serves_iff_of_task (hy : Tended y) {n : TaskId} {x : Session} (hx : y.task n = .session x) :
    y.Serves x.conn ↔ x.standing = .listed := by
  rw [hy.serves_iff]
  constructor
  · rintro ⟨m, z, hz, hc, hs⟩
    obtain rfl := hy.alone m n z x hz hx hc
    rw [hx] at hz
    cases hz
    exact hs
  · intro hs
    exact ⟨n, x, hx, rfl, hs⟩

/-- How a session goes on from one time to a later one. -/
structure Onward (y : Deployment) (x : Session) (y' : Deployment) (x' : Session) : Prop where
  self : x'.self = x.self
  rank : x.standing.rank ≤ x'.standing.rank
  attended : x.standing ≠ .awaited → Attended y x → Attended y' x'

theorem Shift.onward_of_ne {n m : TaskId} {x z : Session} (h : Shift y m z y') (hn : n ≠ m)
    (hx : y.task n = .session x) :
    Onward y x y' x := by
  have hc := h.apart n x hn hx
  refine ⟨rfl, Nat.le_refl _, fun _ ha hd => ?_⟩
  obtain ⟨-, -, hclosed, -⟩ := Connection.footing_eq_iff.1 (h.moves.footing x.conn hc)
  rw [hclosed, h.closers x.conn hc]
  exact ha hd

theorem Change.onward {new : Option Session} (h : Change y new y') {n : TaskId} {x : Session}
    (hx : y.task n = .session x) :
    ∃ x', y'.task n = .session x' ∧ Onward y x y' x' := by
  cases h with
  | still h =>
    refine ⟨x, (h.sessions n x).2 hx, rfl, Nat.le_refl _, fun _ hat hd => ?_⟩
    rw [h.quiet.closed]
    simp only [h.closers]
    exact hat hd
  | shift m z z' hz h hat =>
    by_cases hn : n = m
    · subst hn
      rw [hx] at hz
      cases hz
      exact ⟨z', h.after, (h.self x hx).symm, h.rank x hx, hat⟩
    · exact ⟨x, (h.others n x hn).2 hx, h.onward_of_ne hn hx⟩
  | opened m z hm hz h =>
    have hn : n ≠ m := by
      rintro rfl
      rw [hm] at hx
      cases hx
    exact ⟨x, (h.others n x hn).2 hx, h.onward_of_ne hn hx⟩

/-- Who is removed goes alone. -/
theorem Shift.members_of_removed {n : TaskId} {x : Session} (h : Shift y n x y') {c : ConnId} (hc : y.Serves c)
    (hc' : ¬ y'.Serves c) (g : Nat) (r : String) (e : Member) :
    e ∈ (y'.service.registry g).members r ↔ e ∈ (y.service.registry g).members r ∧ e.id ≠ c := by
  have hx : x.conn = c := by
    refine Classical.byContradiction fun hne => ?_
    obtain ⟨i, q, hq⟩ := hc
    obtain ⟨d, hd, rfl⟩ := Service.mem_snapshot.1 hq
    exact hc' ⟨i, q, Service.mem_snapshot.2 ⟨d, (h.moves.members i q d).2 (.inl ⟨hd, Ne.symm hne⟩), rfl⟩⟩
  have hs : x.standing ≠ .listed := by
    intro hs
    have hm : x.member ∈ (y'.service.registry x.hub).members x.room :=
      (h.moves.members _ _ _).2 (.inr ⟨hs, rfl, rfl, rfl⟩)
    exact hc' ⟨x.hub, x.room, Service.mem_snapshot.2 ⟨x.member, hm, hx⟩⟩
  rw [h.moves.members, hx]
  constructor
  · rintro (he | ⟨hl, -⟩)
    · exact he
    · exact absurd hl hs
  · exact .inl

theorem Change.members_of_removed {new : Option Session} (h : Change y new y') {c : ConnId} (hc : y.Serves c)
    (hc' : ¬ y'.Serves c) (g : Nat) (r : String) (e : Member) :
    e ∈ (y'.service.registry g).members r ↔ e ∈ (y.service.registry g).members r ∧ e.id ≠ c := by
  cases h with
  | still h =>
    refine absurd ?_ hc'
    unfold Deployment.Serves
    simp only [h.quiet.registry]
    exact hc
  | shift n x x' hx h hat => exact h.members_of_removed hc hc' g r e
  | opened n x hn hx h => exact h.members_of_removed hc hc' g r e

/-! ### A run of changes -/

section Run

variable {y : Nat → Deployment} (hy : Tended (y 0)) (hc : ∀ k, ∃ new, Change (y k) new (y (k + 1)))

include hy hc

theorem tended_of_changes (k : Nat) : Tended (y k) := by
  induction k with
  | zero => exact hy
  | succ k ih => exact ih.change (hc k).choose_spec

omit hy in
theorem onward_of_changes {n : TaskId} {x : Session} {i k : Nat} (hik : i ≤ k) (hx : (y i).task n = .session x) :
    ∃ x', (y k).task n = .session x' ∧ Onward (y i) x (y k) x' := by
  induction hik with
  | refl => exact ⟨x, hx, rfl, Nat.le_refl _, fun _ h => h⟩
  | @step k hik ih =>
    obtain ⟨x₁, hx₁, h₁⟩ := ih
    obtain ⟨x₂, hx₂, h₂⟩ := (hc k).choose_spec.onward hx₁
    refine ⟨x₂, hx₂, h₂.self.trans h₁.self, Nat.le_trans h₁.rank h₂.rank, fun ha hat =>
      h₂.attended ?_ (h₁.attended ha hat)⟩
    intro h₀
    have hr := h₁.rank
    rw [h₀] at hr
    cases hs : x.standing <;> rw [hs] at hr <;> first | exact ha hs | exact absurd hr (by decide)

theorem final_of_changes {c : ConnId} {i j k : Nat} (hij : i ≤ j) (hjk : j ≤ k) (hi : (y i).Serves c)
    (hj : ¬ (y j).Serves c) :
    ¬ (y k).Serves c := by
  obtain ⟨n, x, hx, rfl, hs⟩ := (tended_of_changes hy hc i).serves_iff.1 hi
  obtain ⟨x₁, hx₁, h₁⟩ := onward_of_changes hc hij hx
  obtain ⟨x₂, hx₂, h₂⟩ := onward_of_changes hc hjk hx₁
  have e₁ : x₁.conn = x.conn := Session.conn_of_self h₁.self
  have e₂ : x₂.conn = x.conn := (Session.conn_of_self h₂.self).trans e₁
  rw [← e₁, (tended_of_changes hy hc j).serves_iff_of_task hx₁] at hj
  rw [← e₂, (tended_of_changes hy hc k).serves_iff_of_task hx₂]
  intro h
  have r₁ := h₁.rank
  have r₂ := h₂.rank
  rw [hs] at r₁
  rw [h] at r₂
  cases hs₁ : x₁.standing <;> rw [hs₁] at r₁ r₂ <;>
    first | exact hj hs₁ | exact absurd r₁ (by decide) | exact absurd r₂ (by decide)

omit hy hc in
theorem exists_removal {c : ConnId} {i k : Nat} (hik : i ≤ k) (hi : (y i).Serves c) (hk : ¬ (y k).Serves c) :
    ∃ j, i ≤ j ∧ j < k ∧ (y j).Serves c ∧ ¬ (y (j + 1)).Serves c := by
  induction hik with
  | refl => exact absurd hi hk
  | @step k hik ih =>
    by_cases h : (y k).Serves c
    · exact ⟨k, hik, Nat.lt_succ_self k, h, hk⟩
    · obtain ⟨j, hij, hj, hl, hr⟩ := ih h
      exact ⟨j, hij, Nat.lt_succ_of_lt hj, hl, hr⟩

theorem removedOnce_of_changes {c : ConnId} {i k : Nat} (hik : i ≤ k) (hi : (y i).Serves c) (hk : ¬ (y k).Serves c) :
    ∃! j, j < k ∧ (y j).Serves c ∧ ¬ (y (j + 1)).Serves c := by
  obtain ⟨j, -, hj, hl, hr⟩ := exists_removal hik hi hk
  refine ⟨j, ⟨hj, hl, hr⟩, ?_⟩
  rintro m ⟨-, hml, hmr⟩
  rcases Nat.lt_trichotomy m j with h | h | h
  · exact absurd hl (final_of_changes hy hc (Nat.le_succ m) h hml hmr)
  · exact h
  · exact absurd hml (final_of_changes hy hc (Nat.le_succ j) h hl hr)

theorem settled_of_changes {c : ConnId} {i k : Nat} (hik : i ≤ k) (hi : (y i).Serves c) :
    ∃ n x, (y k).task n = .session x ∧ x.conn = c ∧ (x.isOver = true → ¬ (y k).Serves c ∧
      (((y k).service.connection c).closes = 1 ∨ (x.stage = .dropped ∧ ∃ m, (y k).task m = .closer c))) := by
  have hk := tended_of_changes hy hc k
  obtain ⟨n, x, hx, rfl, hs⟩ := (tended_of_changes hy hc i).serves_iff.1 hi
  obtain ⟨x', hx', ho⟩ := onward_of_changes hc hik hx
  have hconn : x'.conn = x.conn := Session.conn_of_self ho.self
  have hat : Attended (y k) x' := ho.attended (by rw [hs]; simp) fun hd => by rw [hs] at hd; cases hd
  refine ⟨n, x', hx', hconn, fun hover => ?_⟩
  have hcl := hk.closes x'.conn
  rw [← hconn, hk.serves_iff_of_task hx']
  rcases Session.isOver_iff.1 hover with hg | hg
  · have hstand : x'.standing = .closed := congrArg Stage.standing hg
    rw [(hk.agrees n x' hx').closed hstand] at hcl
    exact ⟨by rw [hstand]; simp, .inl hcl⟩
  · have hstand : x'.standing = .dropped := congrArg Stage.standing hg
    refine ⟨by rw [hstand]; simp, ?_⟩
    rcases hat hstand with h | h
    · rw [h] at hcl
      exact .inl hcl
    · exact .inr ⟨hg, h⟩

theorem cleanedUp_of_changes : CleanedUp y where
  listed k h r c hl := by
    have hk := tended_of_changes hy hc k
    obtain ⟨e, he, rfl⟩ := Service.mem_snapshot.1 hl
    obtain ⟨n, x, hx, hs, rfl, rfl, rfl⟩ := (hk.members h r e).1 he
    have ha := hk.agrees n x hx
    have hclosed := ha.unclosed (by rw [hs]; simp) (by rw [hs]; simp)
    have hcloses := hk.closes x.conn
    rw [hclosed] at hcloses
    exact ⟨⟨n, x, hx, rfl, rfl, rfl⟩, ha.room, List.count_eq_one_of_mem (hk.nodup _ _) hl, hclosed, hcloses⟩
  final c i j k hij hjk := final_of_changes hy hc hij hjk
  removedOnce c i k hik := removedOnce_of_changes hy hc hik
  alone c j := (hc j).choose_spec.members_of_removed
  closedAtMostOnce k c := by
    rw [(tended_of_changes hy hc k).closes c]
    split <;> decide
  settled c i k hik := settled_of_changes hy hc hik
  unstuck k n x choice hx hg := by
    rcases hg with hg | hg <;> simp [Deployment.step, hx, Task.step, Session.step, hg]
  closer k m c choice hm := by
    have hk := tended_of_changes hy hc k
    obtain ⟨n, x, hx, rfl, -⟩ := hk.closer m c hm
    have hstep : (y k).turn (.step m choice) =
        { (y k).setTask m .done with service := (y k).service.close x.conn } := by
      simp only [turn, Deployment.step, hm, Task.step, Option.map_some, Option.getD_some]
    have hconn : ((y k).service.close x.conn).connection x.conn = ((y k).service.connection x.conn).close :=
      Service.connection_updateConnection _ _ (hk.agrees n x hx).conn
    rw [hstep]
    exact (congrArg Connection.closes hconn).trans (Connection.closes_close (hk.closes x.conn))
  empty k hover h := by
    have hk := tended_of_changes hy hc k
    refine (hk.filled h).roomCount_eq_zero fun r => List.eq_nil_iff_forall_not_mem.2 fun e he => ?_
    obtain ⟨n, x, hx, hs, -⟩ := (hk.members h r e).1 he
    have ho := hover n x hx
    rcases Session.isOver_iff.1 ho with hg | hg <;> rw [Session.standing, hg] at hs <;> cases hs

end Run

/-! ### Every course -/

namespace Deployment

theorem tended_vacant (base : Service) (hubs : Nat) : Tended (vacant base hubs) := by
  have hhub : ∀ h, (vacant base hubs).service.hub h = {} := by
    intro h
    simp only [vacant, Service.hub, Array.getD_eq_getD_getElem?, Array.getElem?_replicate]
    split <;> rfl
  have hreg : ∀ h, (vacant base hubs).service.registry h = {} := fun h => by rw [Service.registry, hhub]
  have htask : ∀ n, (vacant base hubs).task n = .done := fun n => by simp [vacant, task]
  refine ⟨?_, ?_, ?_, ?_, ?_, ?_, fun _ => rfl⟩
  · intro n x hx
    rw [htask] at hx
    cases hx
  · intro n m x z hx
    rw [htask] at hx
    cases hx
  · intro h r e
    rw [hreg]
    constructor
    · intro he
      cases he
    · rintro ⟨n, x, hx, -⟩
      rw [htask] at hx
      cases hx
  · intro h r
    rw [hreg]
    exact List.nodup_nil
  · intro h
    rw [hreg]
    exact List.forall_mem_nil _
  · intro m c hm
    rw [htask] at hm
    cases hm

theorem change_after {y : Deployment} (hy : Tended y) (o : Occurrence) : ∃ new, Change y new (y.after o) := by
  cases o with
  | turn t => exact ⟨none, hy.change_turn t⟩
  | enter hub room user sink =>
    simp only [after]
    split
    · rename_i hh
      exact ⟨_, hy.change_openSession hh room user sink⟩
    · exact ⟨none, .refl y⟩
  | item n i => exact ⟨none, hy.change_feed n i⟩
  | drop n => exact ⟨none, hy.change_abort n⟩
  | publish post => exact ⟨none, .still (.spawn y (by simp) (by simp))⟩

theorem foldl_take_succ {α β : Type} (f : β → α → β) (b : β) (as : List α) (k : Nat) :
    (as.take (k + 1)).foldl f b = (as[k]?.map (f ((as.take k).foldl f b))).getD ((as.take k).foldl f b) := by
  rw [List.take_add_one]
  cases as[k]? with
  | none => simp
  | some a => simp

theorem course_succ (y : Deployment) (os : List Occurrence) (k : Nat) :
    y.course os (k + 1) = (os[k]?.map (y.course os k).after).getD (y.course os k) :=
  foldl_take_succ after y os k

theorem tended_course {y : Deployment} (hy : Tended y) (os : List Occurrence) (k : Nat) : Tended (y.course os k) := by
  induction k with
  | zero => exact hy
  | succ k ih =>
    rw [course_succ]
    cases os[k]? with
    | none => exact ih
    | some o => exact ih.change (change_after ih o).choose_spec

theorem change_course {y : Deployment} (hy : Tended y) (os : List Occurrence) (k : Nat) :
    ∃ new, Change (y.course os k) new (y.course os (k + 1)) := by
  rw [course_succ]
  cases os[k]? with
  | none => exact ⟨none, .refl _⟩
  | some o => exact change_after (tended_course hy os k) o

/-- **Everything is cleaned up, once**: on any number of hubs, whatever sessions there are, whatever comes
from their clients, in whatever order the tasks go on and wherever sessions end or are dropped. -/
theorem connections_cleaned_up (base : Service) (hubs : Nat) (os : List Occurrence) :
    CleanedUp ((vacant base hubs).course os) :=
  cleanedUp_of_changes (tended_vacant base hubs) (change_course (tended_vacant base hubs) os)

-- One session ends with its stream; another one in its room is dropped, and a task closes its transport.
example :
    let y := (vacant {} 1).course
        ([.enter 0 "r" "ann" fun _ => .taken, .enter 0 "r" "bob" fun _ => .taken, .turn (.step 1 {}),
      .turn (.step 3 {}), .drop 3, .item 1 .close, .turn (.step 4 {})] ++ List.replicate 15 (.turn (.step 1 {})))
    (((y 4).service.registry 0).snapshot "r", ((y 5).service.registry 0).snapshot "r") = ([0, 1], [0]) ∧
      (((y 22).service.connection 0).closes, ((y 22).service.connection 1).closes,
        ((y 22).service.registry 0).roomCount) = (1, 1, 0) := by
  decide +kernel

end Deployment

end Parley
