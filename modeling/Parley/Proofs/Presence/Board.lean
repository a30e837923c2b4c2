import Parley.Proofs.Presence.Course

/-!
# Boards

A board shows the status that was told last of some people. The broker has two for a person in a
room: the events it accepted, and the record. They differ in when an activity has told its status,
and in nothing else that matters here, so what sessions do to a board is found out once.

* `Phase` is how far a session has come with what it tells: it is `arriving` until it has told that
  its person is there, `departing` from its removal until it has told that the person is `offline`.
* `Board.Turn` says what one step of a session does to a board, with its phase before and after.
* `Board.ofEvents` and `Board.ofRecord` are the two boards.
-/

namespace Parley

open Hub Deployment

/-- How far a session has come with what it tells on a board. -/
inductive Phase where
  | awaited
  | arriving
  | present
  | departing
  /-- The departure has been told, or was not the session's to tell. -/
  | gone
  | dropped
deriving DecidableEq

def Hub.Stage.phase (done : Activity → Bool) : Stage → Phase
  | .opening => .awaited
  | .joining a => if done a then .present else .arriving
  | .reading | .handling _ | .releasing => .present
  | .closing | .checking => .departing
  | .leaving a => if done a then .gone else .departing
  | .over => .gone
  | .dropped => .dropped

/-- A place where the status told last of some people is seen. -/
structure Board where
  /-- Whether it is about a person in a room. -/
  about : String → String → Prop
  /-- Whether an activity has told its status here. -/
  done : Activity → Bool
  shows : Service → String → Prop
  done_recording : ∀ post user status, done (.recording post user status) = false
  done_finished : ∀ r, done (.finished r) = true
  shows_of_mute : ∀ {s t}, s.Mute t → ∀ status, shows t status ↔ shows s status
  shows_of_plain : ∀ {s t m}, s.Accepts m t → (∀ room user status, ¬ m.Announces room user status) →
    ∀ status, shows t status ↔ shows s status
  shows_of_other : ∀ {s t room user P a a'}, ¬ about room user → Activity.Told s room user P a a' t →
    ∀ status, shows t status ↔ shows s status
  /-- An activity about the right people tells its status here in one of its steps. -/
  shows_of_told : ∀ {s t room user P a a'}, about room user → Activity.Told s room user P a a' t →
    (done a' = done a ∧ ∀ status, shows t status ↔ shows s status) ∨
    (done a = false ∧ done a' = true ∧ ∃ status, P status ∧ ∀ status', shows t status' ↔ status' = status)

namespace Board

variable {B : Board} {P : String → Prop} {y y' : Deployment} {s t : Service} {n : TaskId} {x x' : Session}

def Has (B : Board) (x : Session) : Prop := B.about x.room x.user

def phase (B : Board) (x : Session) : Phase := x.stage.phase B.done

def Same (B : Board) (s t : Service) : Prop := ∀ status, B.shows t status ↔ B.shows s status

def Sees (B : Board) (t : Service) (status : String) : Prop := ∀ status', B.shows t status' ↔ status' = status

/-- What becomes of a session that the board is about. -/
inductive Turn (B : Board) (P : String → Prop) (y : Deployment) (x x' : Session) (t : Service) : Prop
  | still (hsame : B.Same y.service t) (hphase : B.phase x' = B.phase x)
  | arrives (hsame : B.Same y.service t) (hx : B.phase x = .awaited) (hx' : B.phase x' = .arriving)
  | greets (hsees : B.Sees t defaultStatus) (hx : B.phase x = .arriving) (hx' : B.phase x' = .present)
  | tells (status : String) (hstatus : P status) (hsees : B.Sees t status) (hx : B.phase x = .present)
      (hx' : B.phase x' = .present)
  | leaves (hsame : B.Same y.service t) (hx : B.phase x = .present) (hx' : B.phase x' = .departing)
  /-- The person has another session in the room. -/
  | stays (hsame : B.Same y.service t) (hx : B.phase x = .departing) (hx' : B.phase x' = .gone)
      (m : TaskId) (z : Session) (hz : y.task m = .session z) (habout : B.Has z) (hlisted : z.standing = .listed)
  | parts (a : Activity) (hstage : x.stage = .leaving a) (hsees : B.Sees t offlineStatus)
      (hx : B.phase x = .departing) (hx' : B.phase x' = .gone)
  | drops (hsame : B.Same y.service t) (hx' : B.phase x' = .dropped)

theorem has_congr (h : x'.self = x.self) : B.Has x' ↔ B.Has x := by
  obtain ⟨-, -, hroom, huser⟩ := Session.self_eq_iff.1 h
  rw [Has, Has, hroom, huser]

theorem phase_eq {g : Stage} (h : x.stage = g) : B.phase x = g.phase B.done := congrArg (·.phase B.done) h

theorem phase_of_listed (h : x.standing = .listed) : B.phase x = .arriving ∨ B.phase x = .present := by
  rw [phase]
  rw [Session.standing] at h
  cases hg : x.stage with
  | joining a =>
    simp only [Stage.phase]
    split
    · exact .inr rfl
    · exact .inl rfl
  | reading | handling | releasing => exact .inr rfl
  | opening | closing | checking | leaving | «over» | dropped =>
    rw [hg] at h
    cases h

theorem listed_of_present (h : B.phase x = .present) : x.standing = .listed := by
  rw [phase] at h
  rw [Session.standing]
  cases hg : x.stage with
  | joining | reading | handling | releasing => rfl
  | leaving a =>
    rw [hg] at h
    simp only [Stage.phase] at h
    split at h <;> cases h
  | opening | closing | checking | «over» | dropped =>
    rw [hg] at h
    cases h

/-! ### A step of a session -/

theorem same_of_line (hs : s.Ready) (h : t.line = s.line) : B.Same s t := B.shows_of_mute (.of_line hs h)

section Step

variable (hs : y.service.Ready) (hx : x.Conduct P) (habout : B.Has x)
include hs hx habout

theorem turn_of_work {a a' : Activity} {here : Activity → Stage} {next : Stage} (hb : x.stage.Busy a here next)
    (ha : Activity.Step y.service a a' t) : B.Turn P y x { x with stage := here a' } t := by
  have hstage := hx.stage
  have hphase := B.phase_eq (x := x) rfl
  generalize hg : x.stage = g at hb hstage hphase
  cases hb with
  | joining =>
    rcases B.shows_of_told habout (ha.tells hs hstage) with ⟨hdone, hsame⟩ | ⟨hbefore, hafter, status, rfl, hsees⟩
    · refine .still hsame ?_
      rw [hphase]
      simp only [phase, Stage.phase, hdone]
    · exact .greets hsees (by simp [hphase, Stage.phase, hbefore]) (by simp [phase, Stage.phase, hafter])
  | handling =>
    rcases hstage with htells | hplain
    · rcases B.shows_of_told habout (ha.tells hs htells) with ⟨-, hsame⟩ | ⟨-, -, status, hstatus, hsees⟩
      · exact .still hsame hphase.symm
      · exact .tells status hstatus hsees hphase rfl
    · rcases (ha.plain hs hplain).2 with hmute | ⟨m, haccepts, hnone⟩
      · exact .still (B.shows_of_mute hmute) hphase.symm
      · exact .still (B.shows_of_plain haccepts hnone) hphase.symm
  | leaving =>
    rcases B.shows_of_told habout (ha.tells hs hstage) with ⟨hdone, hsame⟩ | ⟨hbefore, hafter, status, rfl, hsees⟩
    · refine .still hsame ?_
      rw [hphase]
      simp only [phase, Stage.phase, hdone]
    · exact .parts a hg hsees (by simp [hphase, Stage.phase, hbefore]) (by simp [phase, Stage.phase, hafter])

theorem turn_of_step (hy : Tended y) {choice : Choice} (h : x.step y.service choice = some (x', t)) :
    B.Turn P y x x' t := by
  have hstep := Session.step_spec h
  cases hstep with
  | register hg =>
    refine .arrives (same_of_line hs rfl) (phase_eq hg) ?_
    simp [phase, Stage.phase, Activity.announce, B.done_recording]
  | work a a' here next hb t ha => exact turn_of_work hs hx habout hb ha
  | rest r here next hb =>
    refine .still (same_of_line hs rfl) ?_
    generalize hg : x.stage = g at hb
    cases hb <;> simp [phase, hg, Stage.phase, B.done_finished]
  | handle hg frame rest hi a ha =>
    exact .still (same_of_line hs (line_route _ _ _ _ _)) (phase_eq hg).symm
  | pass hg rest => exact .still (same_of_line hs rfl) rfl
  | leave hg rest => exact .still (same_of_line hs rfl) (phase_eq hg).symm
  | remove hg => exact .leaves (same_of_line hs rfl) (phase_eq hg) rfl
  | close hg => exact .still (same_of_line hs rfl) (phase_eq hg).symm
  | stay hg =>
    have hconnected := Session.connected_of_over hg rfl h
    obtain ⟨e, he, huser⟩ := List.any_eq_true.mp hconnected
    obtain ⟨m, z, hz, hlisted, -, hroom, rfl⟩ := (hy.members _ _ _).1 he
    refine .stays (same_of_line hs rfl) (phase_eq hg) rfl m z hz ?_ hlisted
    rw [Has, hroom, show z.user = x.user from eq_of_beq huser]
    exact habout
  | depart hg =>
    refine .still (same_of_line hs rfl) ?_
    rw [phase_eq hg]
    simp [phase, Stage.phase, Activity.announce, B.done_recording]

end Step

/-- A step of a session that the board is not about. -/
theorem same_of_step (hs : s.Ready) (hx : x.Conduct P) (habout : ¬ B.Has x) (h : Session.Step s x x' t) :
    B.Same s t := by
  have hstage := hx.stage
  cases h with
  | work a a' here next hb t ha =>
    generalize x.stage = g at hb hstage
    cases hb with
    | joining | leaving => exact B.shows_of_other habout (ha.tells hs hstage)
    | handling =>
      rcases hstage with htells | hplain
      · exact B.shows_of_other habout (ha.tells hs htells)
      · rcases (ha.plain hs hplain).2 with hmute | ⟨m, haccepts, hnone⟩
        · exact B.shows_of_mute hmute
        · exact B.shows_of_plain haccepts hnone
  | handle hg frame rest hi a ha => exact same_of_line hs (line_route _ _ _ _ _)
  | register | rest | pass | leave | remove | close | stay | depart => exact same_of_line hs rfl

/-! ### One occurrence -/

/-- What one occurrence does to a board and to the sessions that it is about. -/
inductive Change (B : Board) (P : String → Prop) (y y' : Deployment) : Prop
  | aside (hsame : B.Same y.service y'.service)
      (hmine : ∀ n x, B.Has x → (y'.task n = .session x ↔ y.task n = .session x))
  | turn (n : TaskId) (x x' : Session) (hx : y.task n = .session x) (hx' : y'.task n = .session x')
      (hothers : y.Apart n y') (habout : B.Has x) (habout' : B.Has x') (h : B.Turn P y x x' y'.service)
  | enters (n : TaskId) (x : Session) (hn : y.task n = .done) (hx' : y'.task n = .session x)
      (hothers : y.Apart n y') (hphase : B.phase x = .awaited) (hsame : B.Same y.service y'.service)

/-- Where one session goes on: the board is about it or it is not. -/
theorem change_of_session (hx : y.task n = .session x) (hx' : y'.task n = .session x') (hothers : y.Apart n y')
    (hself : x'.self = x.self) (hturn : B.Has x → B.Turn P y x x' y'.service)
    (hsame : ¬ B.Has x → B.Same y.service y'.service) : B.Change P y y' := by
  by_cases habout : B.Has x
  · exact .turn n x x' hx hx' hothers habout ((has_congr hself).mpr habout) (hturn habout)
  · refine .aside (hsame habout) fun m z hz => ?_
    by_cases hm : m = n
    · rw [hm, hx, hx']
      constructor
      · rintro ⟨⟩
        exact absurd ((has_congr hself).mp hz) habout
      · rintro ⟨⟩
        exact absurd hz habout
    · exact hothers m z hm

theorem change_of_goes (hy : Tended y) (hc : Conducted P y) (h : Goes P y y') : B.Change P y y' := by
  cases h with
  | idle hsessions hs =>
    refine .aside ?_ fun n x _ => hsessions n x
    rcases hs with hmute | ⟨m, haccepts, hnone⟩
    · exact B.shows_of_mute hmute
    · exact B.shows_of_plain haccepts hnone
  | step n x x' hx hx' hothers choice h =>
    have hconduct := hc.sessions n x hx
    exact change_of_session hx hx' hothers (Session.step_spec h).onward.1
      (fun habout => turn_of_step hc.ready hconduct habout hy h)
      (fun habout => same_of_step hc.ready hconduct habout (Session.step_spec h))
  | dropped n x hx hx' hothers hs =>
    exact change_of_session hx hx' hothers rfl (fun _ => .drops (B.shows_of_mute hs) rfl) fun _ => B.shows_of_mute hs
  | fed n x i hi hx hx' hothers hs =>
    exact change_of_session hx hx' hothers rfl (fun _ => .still (B.shows_of_mute hs) rfl) fun _ => B.shows_of_mute hs
  | entered n x hn hx' hstage hinbox hothers hs =>
    exact .enters n x hn hx' hothers (phase_eq hstage) (B.shows_of_mute hs)

/-! ### The two boards -/

def ofEvents (room user : String) : Board where
  about r u := r = room ∧ u = user
  done
    | .finished _ => true
    | _ => false
  shows s status := Latest room user status s.broker.accepted
  done_recording _ _ _ := rfl
  done_finished _ := rfl
  shows_of_mute h status := by rw [h.accepted]
  shows_of_plain h hnone status := by
    rw [h.accepted]
    exact latest_append_of_not_announces (hnone room user)
  shows_of_other := by
    intro s t r u P a a' habout h status
    cases h with
    | record post st t hpost hst h => rw [h.accepted]
    | publish post n st t m hst hm h =>
      rw [h.accepted]
      refine latest_append_of_not_announces fun st' hm' => habout ?_
      obtain ⟨hr, hu, -⟩ := Broker.Message.announces_unique hm hm'
      exact ⟨hr, hu⟩
  shows_of_told := by
    rintro s t r u P a a' ⟨rfl, rfl⟩ h
    cases h with
    | record post st t hpost hst h => exact .inl ⟨rfl, fun status => by rw [h.accepted]⟩
    | publish post n st t m hst hm h =>
      refine .inr ⟨rfl, rfl, st, hst, fun status' => ?_⟩
      rw [h.accepted]
      exact latest_append_of_announces hm

def ofRecord (room user : String) : Board where
  about r u := presenceKey r u = presenceKey room user
  done
    | .recording .. => false
    | _ => true
  shows s status := ∃ r, s.broker.peek (presenceKey room user) = some r ∧ r.value = status
  done_recording _ _ _ := rfl
  done_finished _ := rfl
  shows_of_mute h status := by rw [MemoryBroker.peek_of_records h.records]
  shows_of_plain h _ status := by rw [MemoryBroker.peek_of_records h.records]
  shows_of_other := by
    intro s t r u P a a' habout h status
    cases h with
    | record post st t hpost hst h =>
      obtain ⟨r, -, hpeek⟩ := h.peek
      rw [hpeek, if_neg (Ne.symm habout)]
    | publish post n st t m hst hm h => rw [MemoryBroker.peek_of_records h.records]
  shows_of_told := by
    intro s t r u P a a' habout h
    cases h with
    | record post st t hpost hst h =>
      obtain ⟨r, hvalue, hpeek⟩ := h.peek
      refine .inr ⟨rfl, rfl, st, hst, fun status' => ?_⟩
      rw [hpeek, if_pos habout.symm]
      constructor
      · rintro ⟨r', heq, rfl⟩
        rw [← Option.some.inj heq, hvalue]
      · rintro rfl
        exact ⟨r, rfl, hvalue⟩
    | publish post n st t m hst hm h =>
      exact .inl ⟨rfl, fun status => by rw [MemoryBroker.peek_of_records h.records]⟩

end Board

end Parley
