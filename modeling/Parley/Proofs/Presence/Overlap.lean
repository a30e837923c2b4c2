import Parley.Proofs.Presence.Departed

/-!
# Who is there is not offline, unless a departure overlaps

A session that is about to announce a departure has looked at the registry of its own hub, once, and
records and publishes `offline` some steps later. So a person who has a session on another hub, or who
comes back in between, is told to be offline while connected: `false_offline_other_hub` and
`false_offline_reconnect` are two such courses.

It takes such an overlap. `no_false_offline`: as long as no departure is being announced of somebody who
is in the room (`Deployment.Overlaps`), nobody who is in the room, and has been announced, is told to be
offline. Two people whose records share a key count as one here, as they do for the broker.
-/

namespace Parley

open Hub Deployment

namespace Hub.Session

def isLeaving (x : Session) : Bool :=
  match x.stage with
  | .leaving _ => true
  | _ => false

/-- The session is in the middle of telling of its person. -/
def isAnnouncing (x : Session) : Bool :=
  match x.stage with
  | .joining a | .handling a | .leaving a => a.result?.isNone
  | _ => false

theorem isLeaving_of_stage {x : Session} {a : Activity} (h : x.stage = .leaving a) : x.isLeaving = true := by
  simp [isLeaving, h]

end Hub.Session

/-- A departure is being announced under a key under which somebody is in a room, on whichever hub. -/
def Deployment.Overlaps (y : Deployment) : Prop :=
  ∃ x ∈ y.sessions, ∃ z ∈ y.sessions, x.isLeaving = true ∧ z.standing = .listed ∧
    presenceKey x.room x.user = presenceKey z.room z.user

instance (y : Deployment) : Decidable y.Overlaps := by
  unfold Overlaps
  infer_instance

namespace Board

variable {B : Board} {P : String → Prop} {y y' : Deployment}

/-- Who has told that its person is there is not contradicted. -/
def Truthful (B : Board) (y : Deployment) : Prop :=
  ∀ n x, y.task n = .session x → B.Has x → B.phase x = .present → ¬ B.shows y.service offlineStatus

/-- No departure that the board is about is announced of somebody who is in the room. -/
def Free (B : Board) (y : Deployment) : Prop :=
  ∀ n x m z, y.task n = .session x → y.task m = .session z → B.Has x → B.Has z → x.isLeaving = true →
    z.standing ≠ .listed

/-- A session is present on a board once it is listed and has announced its person. -/
theorem phase_of_announced {x : Session} (hlisted : x.standing = .listed) (h : x.isAnnouncing = false) :
    B.phase x = .present := by
  rw [Session.standing] at hlisted
  cases hg : x.stage with
  | joining a =>
    rw [Session.isAnnouncing, hg] at h
    cases a with
    | finished r => rw [phase_eq hg, Stage.phase, B.done_finished, if_pos rfl]
    | recording | attempting | pausing | delivering => cases h
  | reading | handling | releasing => exact phase_eq hg
  | opening | closing | checking | leaving | «over» | dropped =>
    rw [hg] at hlisted
    cases hlisted

theorem Truthful.change (h : B.Truthful y) (hP : ∀ status, P status → status ≠ offlineStatus) (hfree : B.Free y)
    (hchange : B.Change P y y') : B.Truthful y' := by
  intro m z hz hzabout hphase
  cases hchange with
  | aside hsame hmine =>
    rw [hsame offlineStatus]
    exact h m z ((hmine m z hzabout).mp hz) hzabout hphase
  | enters n x hn hx' hothers hawaited hsame =>
    rw [hsame offlineStatus]
    by_cases hm : m = n
    · rw [hm, hx'] at hz
      cases hz
      rw [hawaited] at hphase
      cases hphase
    · exact h m z ((hothers m z hm).mp hz) hzabout hphase
  | turn n x x' hx hx' hothers habout habout' hturn =>
    -- the session that goes on is not contradicted by a status that stays, unless it has just told its own
    have hstill : B.Same y.service y'.service → (m = n → B.phase x = .present) →
        ¬ B.shows y'.service offlineStatus := by
      intro hsame hbefore
      rw [hsame offlineStatus]
      by_cases hm : m = n
      · exact h n x hx habout (hbefore hm)
      · exact h m z ((hothers m z hm).mp hz) hzabout hphase
    have hphase' : m = n → B.phase x' = .present := by
      rintro rfl
      rw [hx'] at hz
      cases hz
      exact hphase
    have hnot : ∀ p, B.phase x' = p → p ≠ .present → m = n → B.phase x = .present :=
      fun p hp hne hm => absurd (hp.symm.trans (hphase' hm)) hne
    cases hturn with
    | still hsame hkept => exact hstill hsame fun hm => hkept ▸ hphase' hm
    | arrives hsame h₀ h₁ => exact hstill hsame (hnot _ h₁ (by simp))
    | leaves hsame h₀ h₁ => exact hstill hsame (hnot _ h₁ (by simp))
    | stays hsame h₀ h₁ => exact hstill hsame (hnot _ h₁ (by simp))
    | drops hsame h₁ => exact hstill hsame (hnot _ h₁ (by simp))
    | greets hsees h₀ h₁ =>
      rw [hsees offlineStatus]
      decide
    | tells status hstatus hsees h₀ h₁ =>
      rw [hsees offlineStatus]
      exact (hP status hstatus).symm
    | parts a hstage hsees h₀ h₁ =>
      -- whoever is present was so before, beside a departure
      have hm : m ≠ n := fun hm => absurd (h₁.symm.trans (hphase' hm)) (by simp)
      exact absurd (B.listed_of_present hphase)
        (hfree n x m z hx ((hothers m z hm).mp hz) habout hzabout (Session.isLeaving_of_stage hstage))

/-- A board whose people share one key is free where no departure overlaps. -/
theorem free_of_not_overlaps (h : ¬ y.Overlaps)
    (hkey : ∀ {x z : Session}, B.Has x → B.Has z → presenceKey x.room x.user = presenceKey z.room z.user) : B.Free y :=
  fun n x m z hx hz habout hzabout hleaving hlisted =>
    h ⟨x, mem_sessions.mpr ⟨n, hx⟩, z, mem_sessions.mpr ⟨m, hz⟩, hleaving, hlisted, hkey habout hzabout⟩

theorem truthful_course {base : Service} {hubs : Nat} {os : List Occurrence} (hos : ∀ o ∈ os, o.Calm P)
    (hP : ∀ status, P status → status ≠ offlineStatus) {k : Nat}
    (hfree : ∀ j < k, B.Free ((linked base hubs).course os j)) : B.Truthful ((linked base hubs).course os k) := by
  induction k with
  | zero =>
    intro n x hx
    simp [linked, vacant, course, task] at hx
  | succ k ih =>
    exact (ih fun j hj => hfree j (by omega)).change hP (hfree k (by omega)) (B.change_course hos k)

end Board

/-- **Nobody who is there is told to be offline, but for an overlap.** Take any number of hubs on one broker that
stays up, and anything that happens to them, with clients that do not call themselves `offline`, such that no
departure is being announced of somebody who is in the room. Of a person who has a session in a room that is not
in the middle of announcing, neither the record nor the last event says `offline`. -/
theorem no_false_offline (base : Service) (hubs : Nat) (os : List Occurrence) (k : Nat) (room user : String)
    (hos : ∀ o ∈ os, o.Calm (· ≠ offlineStatus))
    (hfree : ∀ j < k, ¬ ((linked base hubs).course os j).Overlaps)
    (hthere : ∃ x ∈ ((linked base hubs).course os k).sessions, x.room = room ∧ x.user = user ∧
      x.standing = .listed ∧ x.isAnnouncing = false) :
    (readStatus ((linked base hubs).course os k).service room user).1 ≠ some offlineStatus ∧
      ¬ Latest room user offlineStatus ((linked base hubs).course os k).service.broker.accepted := by
  obtain ⟨x, hx, rfl, rfl, hlisted, hannounced⟩ := hthere
  obtain ⟨n, hn⟩ := mem_sessions.mp hx
  have htruthful : ∀ B : Board, (∀ {x z : Session}, B.Has x → B.Has z →
      presenceKey x.room x.user = presenceKey z.room z.user) → B.Has x →
      ¬ B.shows ((linked base hubs).course os k).service offlineStatus := fun B hkey habout =>
    Board.truthful_course hos (fun _ h => h) (fun j hj => Board.free_of_not_overlaps (hfree j hj) hkey) n x hn habout
      (Board.phase_of_announced hlisted hannounced)
  constructor
  · rw [Service.readStatus_fst (conducted_course (conducted_linked base hubs) hos k).ready]
    intro hread
    obtain ⟨r, hpeek, hlive⟩ := Option.bind_eq_some_iff.mp hread
    refine htruthful (.ofRecord x.room x.user) (fun h h' => h.trans h'.symm) rfl ⟨r, hpeek, ?_⟩
    rw [MemoryBroker.Record.live?] at hlive
    split at hlive
    · exact Option.some.inj hlive
    · cases hlive
  · refine htruthful (.ofEvents x.room x.user) (fun h h' => ?_) ⟨rfl, rfl⟩
    rw [h.1, h.2, h'.1, h'.2]

/-! ### Courses -/

def stepsOf (n : TaskId) (count : Nat) : List Occurrence := List.replicate count (.turn (.step n {}))

/-- A person has a session, which ends, and then one on another hub. -/
def oneAfterTheOther : List Occurrence :=
  [.enter 0 "r" "ann" fun _ => .taken] ++ stepsOf 1 4 ++ [.item 1 .close] ++ stepsOf 1 7 ++
    [.enter 1 "r" "ann" fun _ => .taken] ++ stepsOf 3 4

theorem no_false_offline_oneAfterTheOther :
    (readStatus ((linked {} 2).course oneAfterTheOther 18).service "r" "ann").1 ≠ some offlineStatus ∧
      ¬ Latest "r" "ann" offlineStatus ((linked {} 2).course oneAfterTheOther 18).service.broker.accepted :=
  have hcalm : ∀ o ∈ oneAfterTheOther, o.Calm (· ≠ offlineStatus) := by
    simp [oneAfterTheOther, stepsOf, Occurrence.Calm, Item.Says, or_imp, forall_and]
  no_false_offline {} 2 oneAfterTheOther 18 "r" "ann" hcalm (by decide +kernel) (by decide +kernel)

/-- Nobody is in the middle of announcing, the person is in the room, and yet both the record and the last event
say `offline`. -/
structure Deployment.FalselyOffline (y : Deployment) (room user : String) : Prop where
  settled : ∀ x ∈ y.sessions, x.isAnnouncing = false
  there : ∃ x ∈ y.sessions, x.room = room ∧ x.user = user ∧ x.standing = .listed
  record : (readStatus y.service room user).1 = some offlineStatus
  event : Latest room user offlineStatus y.service.broker.accepted

/-- A person has sessions on two hubs, and one of them ends. -/
def otherHub : List Occurrence :=
  [.enter 0 "r" "ann" fun _ => .taken] ++ stepsOf 1 4 ++ [.enter 1 "r" "ann" fun _ => .taken] ++ stepsOf 3 4 ++
    [.item 1 .close] ++ stepsOf 1 7

/-- A session does not see those of other hubs. -/
theorem false_offline_other_hub :
    (∀ o ∈ otherHub, o.Calm fun _ => False) ∧ ((linked {} 2).course otherHub 18).FalselyOffline "r" "ann" := by
  refine ⟨by simp [otherHub, stepsOf, Occurrence.Calm, Item.Says, or_imp, forall_and], ?_⟩
  constructor
  case settled => decide +kernel
  case there => decide +kernel
  case record => decide +kernel
  case event => exact latest_of_getLast? (by decide +kernel) ⟨{ micros := 3 }, rfl⟩

/-- A person leaves, and is back before the departure has been announced. -/
def reconnect : List Occurrence :=
  [.enter 0 "r" "ann" fun _ => .taken] ++ stepsOf 1 4 ++ [.item 1 .close] ++ stepsOf 1 4 ++
    [.enter 0 "r" "ann" fun _ => .taken] ++ stepsOf 3 4 ++ stepsOf 1 3

/-- A session does not look again before it announces a departure. -/
theorem false_offline_reconnect :
    (∀ o ∈ reconnect, o.Calm fun _ => False) ∧ ((linked {} 1).course reconnect 18).FalselyOffline "r" "ann" := by
  refine ⟨by simp [reconnect, stepsOf, Occurrence.Calm, Item.Says, or_imp, forall_and], ?_⟩
  constructor
  case settled => decide +kernel
  case there => decide +kernel
  case record => decide +kernel
  case event => exact latest_of_getLast? (by decide +kernel) ⟨{ micros := 2 }, rfl⟩

end Parley
