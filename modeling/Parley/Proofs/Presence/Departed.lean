import Parley.Proofs.Presence.Board

/-!
# After everybody has left

Each session decides alone whether to announce a departure, by looking at a registry that others are
changing. When all sessions of a person in a room have returned, `offline` has been told last all the
same, on every hub and in every order of steps.

What carries the proof is `Board.Accounted`: as long as `offline` is not what the board shows,
somebody owes an announcement (`Phase.Owes`), is there, or was dropped, unless nobody has come yet.
A session that returns without announcing anything has seen another one in the room, which is listed
and so owes the announcement.
-/

namespace Parley

open Hub Deployment

/-! ### The sessions of a deployment -/

def Task.session? : Task → Option Session
  | .session x => some x
  | _ => none

def Deployment.sessions (y : Deployment) : List Session := y.tasks.toList.filterMap Task.session?

/-- The session has come to its end and was not dropped. -/
def Hub.Session.returned (x : Session) : Bool :=
  match x.stage with
  | .over => true
  | _ => false

theorem Hub.Session.returned_iff {x : Session} : x.returned = true ↔ x.stage = .over := by
  unfold returned
  split <;> simp_all

theorem Deployment.mem_sessions {y : Deployment} {x : Session} : x ∈ y.sessions ↔ ∃ n, y.task n = .session x := by
  rw [sessions, List.mem_filterMap]
  constructor
  · rintro ⟨k, hk, hx⟩
    obtain ⟨n, hn, rfl⟩ := List.getElem_of_mem hk
    refine ⟨n, ?_⟩
    have hlt : n < y.tasks.size := by simpa using hn
    rw [task, Array.getD_eq_getD_getElem?, Array.getElem?_eq_getElem hlt, Option.getD_some, ← Array.getElem_toList]
    cases hk' : y.tasks.toList[n] <;> rw [hk'] at hx <;> cases hx
    rfl
  · rintro ⟨n, hn⟩
    have hlt : n < y.tasks.size := y.lt_of_task_ne (by rw [hn]; simp)
    rw [task, Array.getD_eq_getD_getElem?, Array.getElem?_eq_getElem hlt, Option.getD_some] at hn
    exact ⟨y.tasks[n], Array.getElem_mem_toList hlt, by rw [hn]; rfl⟩

/-! ### Everything is accounted for -/

/-- Something is still to be told, or will never be. -/
def Phase.Owes (p : Phase) : Prop := p ≠ .awaited ∧ p ≠ .gone

namespace Board

variable {B : Board} {P : String → Prop} {y y' : Deployment}

/-- Somebody owes an announcement, nobody has come yet, or `offline` is what the board shows. -/
inductive Accounted (B : Board) (y : Deployment) : Prop
  | owed (n : TaskId) (x : Session) (hx : y.task n = .session x) (habout : B.Has x) (howes : (B.phase x).Owes)
  | untouched (h : ∀ n x, y.task n = .session x → B.Has x → B.phase x = .awaited)
  | told (h : B.shows y.service offlineStatus)

/-- Where the sessions of a board keep their phases, and its status stays, everything is accounted for as before. -/
theorem Accounted.of_same (h : B.Accounted y) (hsame : B.Same y.service y'.service)
    (hkept : ∀ n x, y.task n = .session x → B.Has x →
      ∃ x', y'.task n = .session x' ∧ B.Has x' ∧ B.phase x' = B.phase x)
    (hback : ∀ n x', y'.task n = .session x' → B.Has x' →
      B.phase x' = .awaited ∨ ∃ x, y.task n = .session x ∧ B.Has x ∧ B.phase x' = B.phase x) : B.Accounted y' := by
  cases h with
  | owed n x hx habout howes =>
    obtain ⟨x', hx', habout', hphase⟩ := hkept n x hx habout
    exact .owed n x' hx' habout' (by rwa [hphase])
  | untouched h =>
    refine .untouched fun n x' hx' habout' => ?_
    rcases hback n x' hx' habout' with hphase | ⟨x, hx, habout, hphase⟩
    · exact hphase
    · exact hphase.trans (h n x hx habout)
  | told h => exact .told ((hsame _).mpr h)

theorem Accounted.change (h : B.Accounted y) (hchange : B.Change P y y') : B.Accounted y' := by
  cases hchange with
  | aside hsame hmine =>
    refine h.of_same hsame (fun n x hx habout => ⟨x, (hmine n x habout).mpr hx, habout, rfl⟩) fun n x hx habout => ?_
    exact .inr ⟨x, (hmine n x habout).mp hx, habout, rfl⟩
  | enters n x hn hx' hothers hphase hsame =>
    refine h.of_same hsame (fun m z hz habout => ?_) fun m z hz habout => ?_
    · have hm : m ≠ n := by
        rintro rfl
        rw [hn] at hz
        cases hz
      exact ⟨z, (hothers m z hm).mpr hz, habout, rfl⟩
    · by_cases hm : m = n
      · rw [hm, hx'] at hz
        cases hz
        exact .inl hphase
      · exact .inr ⟨z, (hothers m z hm).mp hz, habout, rfl⟩
  | turn n x x' hx hx' hothers habout habout' hturn =>
    have howed : (B.phase x').Owes → B.Accounted y' := fun howes => .owed n x' hx' habout' howes
    cases hturn with
    | still hsame hphase =>
      refine h.of_same hsame (fun m z hz hzabout => ?_) fun m z hz hzabout => ?_
      · by_cases hm : m = n
        · rw [hm, hx] at hz
          cases hz
          exact ⟨x', hm ▸ hx', habout', hphase⟩
        · exact ⟨z, (hothers m z hm).mpr hz, hzabout, rfl⟩
      · by_cases hm : m = n
        · rw [hm, hx'] at hz
          cases hz
          exact .inr ⟨x, hm ▸ hx, habout, hphase⟩
        · exact .inr ⟨z, (hothers m z hm).mp hz, hzabout, rfl⟩
    | arrives hsame h₀ h₁ => exact howed (by simp [h₁, Phase.Owes])
    | greets hsees h₀ h₁ => exact howed (by simp [h₁, Phase.Owes])
    | tells status hstatus hsees h₀ h₁ => exact howed (by simp [h₁, Phase.Owes])
    | leaves hsame h₀ h₁ => exact howed (by simp [h₁, Phase.Owes])
    | drops hsame h₁ => exact howed (by simp [h₁, Phase.Owes])
    | stays hsame h₀ h₁ m z hz hzabout hlisted =>
      -- the other session is listed, and so is not the one that returns
      have hzphase := B.phase_of_listed hlisted
      have hm : m ≠ n := by
        rintro rfl
        rw [hx] at hz
        cases hz
        rw [h₀] at hzphase
        simp at hzphase
      refine .owed m z ((hothers m z hm).mpr hz) hzabout ?_
      rcases hzphase with hp | hp <;> simp [hp, Phase.Owes]
    | parts a hstage hsees h₀ h₁ => exact .told ((hsees _).mpr rfl)

theorem Accounted.shows_offline (h : B.Accounted y) (hsome : ∃ x ∈ y.sessions, B.Has x)
    (hreturned : ∀ x ∈ y.sessions, B.Has x → x.returned = true) : B.shows y.service offlineStatus := by
  have hgone : ∀ n x, y.task n = .session x → B.Has x → B.phase x = .gone := fun n x hx habout =>
    B.phase_eq (Session.returned_iff.mp (hreturned x (mem_sessions.mpr ⟨n, hx⟩) habout))
  cases h with
  | owed n x hx habout howes => exact absurd (hgone n x hx habout) howes.2
  | untouched h =>
    obtain ⟨x, hx, habout⟩ := hsome
    obtain ⟨n, hn⟩ := mem_sessions.mp hx
    have hawaited := h n x hn habout
    rw [hgone n x hn habout] at hawaited
    cases hawaited
  | told h => exact h

end Board

/-! ### Every course -/

section Course

variable {P : String → Prop} {base : Service} {hubs : Nat} {os : List Occurrence} (hos : ∀ o ∈ os, o.Calm P)
include hos

theorem Board.change_course (B : Board) (k : Nat) :
    B.Change P ((linked base hubs).course os k) ((linked base hubs).course os (k + 1)) :=
  B.change_of_goes (tended_course (tended_vacant _ _) os k) (conducted_course (conducted_linked base hubs) hos k)
    (goes_course (conducted_linked base hubs) hos k)

theorem Board.accounted_course (B : Board) (k : Nat) : B.Accounted ((linked base hubs).course os k) := by
  induction k with
  | zero =>
    refine .untouched fun n x hx => ?_
    simp [linked, vacant, course, task] at hx
  | succ k ih => exact ih.change (B.change_course hos k)

end Course

/-- **Nothing stale is left.** Take any number of hubs on one broker that stays up, and anything that happens to
them: sessions that open and close in any order and step by step, any frames from their clients, and anything
published beside them that is not about presence. If a person has had a session in a room and all of them have
returned, the last presence event that the broker accepted about the person in the room tells `offline`. If
moreover no session is under way whose record has the same key, the record says `offline` or has expired. -/
theorem offline_after_everybody_left (base : Service) (hubs : Nat) (os : List Occurrence) (k : Nat)
    (room user : String) (hos : ∀ o ∈ os, o.Calm fun _ => True)
    (hsome : ∃ x ∈ ((linked base hubs).course os k).sessions, x.room = room ∧ x.user = user) :
    ((∀ x ∈ ((linked base hubs).course os k).sessions, x.room = room → x.user = user → x.returned = true) →
      Latest room user offlineStatus ((linked base hubs).course os k).service.broker.accepted) ∧
    ((∀ x ∈ ((linked base hubs).course os k).sessions, presenceKey x.room x.user = presenceKey room user →
        x.returned = true) →
      (readStatus ((linked base hubs).course os k).service room user).1 = none ∨
        (readStatus ((linked base hubs).course os k).service room user).1 = some offlineStatus) := by
  constructor
  · intro hreturned
    exact (Board.accounted_course hos (.ofEvents room user) k).shows_offline hsome
      fun x hx habout => hreturned x hx habout.1 habout.2
  · intro hreturned
    obtain ⟨z, hz, rfl, rfl⟩ := hsome
    obtain ⟨r, hpeek, hvalue⟩ := (Board.accounted_course hos (.ofRecord z.room z.user) k).shows_offline
      ⟨z, hz, rfl⟩ hreturned
    rw [Service.readStatus_fst (conducted_course (conducted_linked base hubs) hos k).ready, hpeek, Option.bind_some,
      MemoryBroker.Record.live?]
    split
    · rw [hvalue]
      exact .inr rfl
    · exact .inl rfl

/-- A person on two hubs at once: one session gives a status of its own and ends, then the other. -/
def twoDevices : List Occurrence :=
  [.enter 0 "r" "ann" fun _ => .taken, .enter 1 "r" "ann" fun _ => .taken,
    .item 1 (.text "\x7b\"type\":\"presence\",\"status\":\"away\"\x7d"), .item 1 .close, .item 3 .close] ++
  List.replicate 8 (.turn (.step 1 {})) ++ List.replicate 8 (.turn (.step 3 {})) ++
  List.replicate 8 (.turn (.step 1 {})) ++ List.replicate 8 (.turn (.step 3 {}))

theorem offline_after_everybody_left_twoDevices :
    Latest "r" "ann" offlineStatus ((linked {} 2).course twoDevices 37).service.broker.accepted ∧
      ((readStatus ((linked {} 2).course twoDevices 37).service "r" "ann").1 = none ∨
        (readStatus ((linked {} 2).course twoDevices 37).service "r" "ann").1 = some offlineStatus) :=
  have hcalm : ∀ o ∈ twoDevices, o.Calm fun _ => True := by
    simp [twoDevices, Occurrence.Calm, Item.Says, or_imp, forall_and]
  have h := offline_after_everybody_left {} 2 twoDevices 37 "r" "ann" hcalm (by decide +kernel)
  ⟨h.1 (by decide +kernel), h.2 (by decide +kernel)⟩

end Parley
