import Parley.Proofs.Presence.Conduct

/-!
# A deployment whose broker stays up

What one occurrence does, as far as presence goes (`Deployment.Goes`): nothing, or one session takes
a step, is dropped, is handed something by its client, or comes in. Every activity fits the stage of
its session all along (`Deployment.Conducted`), and no other activity tells of anybody's presence.
-/

namespace Parley

open Hub Deployment

variable {s t : Service} {y y' : Deployment} {n m : TaskId} {x x' z : Session} {P : String → Prop}

/-! ### The broker -/

/-- A broker that stays up says nothing by it. -/
theorem Service.mute_available (hs : s.Ready) : s.Mute (s.onBroker fun b => { b with available := !false }) := by
  obtain ⟨line, hl, hp, -⟩ := hs.up
  have hline : (s.onBroker fun b => { b with available := !false }).line =
      some { line with broker := { line.broker with available := true } } := by
    simp [Service.onBroker, hl]
  have hfeeds := hs.feeds
  refine ⟨⟨⟨_, hline, hp, rfl⟩, ?_⟩, ?_, ?_⟩
  all_goals rw [Service.broker_of_line hline]
  all_goals rw [Service.broker_of_line hl] at *
  · exact hfeeds
  · rfl

theorem Service.mute_disconnect (hs : s.Ready) : s.Mute (s.onBroker (·.disconnect)) := by
  obtain ⟨line, hl, hp, ha⟩ := hs.up
  have hline : (s.onBroker (·.disconnect)).line = some { line with broker := line.broker.disconnect } := by
    simp [Service.onBroker, hl]
  refine ⟨⟨⟨_, hline, hp, ha⟩, ?_⟩, ?_, ?_⟩
  all_goals rw [Service.broker_of_line hline]
  · simp [MemoryBroker.disconnect]
  · rw [Service.broker_of_line hl]
    rfl
  · rw [Service.broker_of_line hl]
    exact MemoryBroker.accepted_disconnect _

/-! ### Subscriptions -/

theorem Hub.Subscriber.Step.mute {u u' : Subscriber} (hs : s.Ready) (h : Subscriber.Step s u u' t) : s.Mute t := by
  refine .of_staysUp hs (h.staysUp hs.up) ?_
  obtain ⟨line, hl, hp, -⟩ := hs.up
  have hsubscribe : (line.subscribe s.now Subscriber.patterns).2.broker.records = line.broker.records := by
    have hbroker : (line.subscribe s.now Subscriber.patterns).2.broker =
        (line.broker.subscribe Subscriber.patterns).2 :=
      (line.call_of_plans_nil s.now _ _ hp).2.1
    rw [hbroker]
    exact MemoryBroker.records_subscribe _ _
  have hreceive : ∀ {k d b}, line.broker.receive k = (d, b) → b.records = line.broker.records := by
    intro k d b hr
    rw [show b = (line.broker.receive k).2 by rw [hr]]
    exact MemoryBroker.records_receive _ _
  cases h with
  | subscribed l hl' | refused l hl' =>
    obtain rfl : l = line := by simpa [hl] using hl'.symm
    rw [Service.broker_of_line hl', Service.broker_of_line rfl]
    exact hsubscribe
  | message l hl' k received hx m b hr =>
    obtain rfl : l = line := by simpa [hl] using hl'.symm
    rw [Service.broker_of_line hl', Service.broker_of_line rfl]
    exact hreceive hr
  | ended l hl' k received hx b hr =>
    obtain rfl : l = line := by simpa [hl] using hl'.symm
    rw [Service.broker_of_line hl', Service.broker_of_line rfl, ← hreceive hr]
    rfl
  | quit hstop l hl' =>
    rw [Service.broker_of_line hl', Service.broker_of_line rfl]
    rfl
  | relay k f f' hx t hf => rw [Service.broker, Service.broker, hf.line]
  | relayed | retry | stop => rfl

/-! ### Sessions -/

theorem Hub.line_route (s : Service) (hub : Nat) (room user : String) (raw : Bytes) :
    (route s hub room user raw).2.2.line = s.line := by
  rcases route_service s hub room user raw with h | h
  · rw [h]
  · rw [h]
    rfl

namespace Hub.Session

theorem inbox_advance {choice : Choice} {a : Activity} {here : Activity → Stage} {next : Stage}
    (h : x.advance s choice a here next = some (x', t)) : x'.inbox = x.inbox := by
  unfold advance at h
  split at h
  · cases h
    rfl
  · obtain ⟨⟨a', t'⟩, -, he⟩ := Option.map_eq_some_iff.1 h
    cases he
    rfl

theorem inbox_read (h : x.read s = some (x', t)) : x'.inbox <:+ x.inbox := by
  have hread : ∀ {i rest}, x.inbox = i :: rest → rest <:+ x.inbox := fun hi => hi ▸ List.suffix_cons _ _
  unfold read at h
  split at h
  · cases h
  · rename_i hi
    split at h <;> (cases h; exact hread hi)
  all_goals
    rename_i hi
    cases h
    exact hread hi

theorem inbox_step {choice : Choice} (h : x.step s choice = some (x', t)) : x'.inbox <:+ x.inbox := by
  have hsame : x'.inbox = x.inbox → x'.inbox <:+ x.inbox := fun h => h ▸ List.suffix_refl _
  unfold step at h
  split at h
  · cases h; exact hsame rfl
  · exact hsame (inbox_advance h)
  · exact inbox_read h
  · exact hsame (inbox_advance h)
  · cases h; exact hsame rfl
  · cases h; exact hsame rfl
  · split at h <;> (cases h; exact hsame rfl)
  · exact hsame (inbox_advance h)
  all_goals cases h

/-- Dropping a session says nothing. One that is over stays what it is. -/
theorem abort_spec {closing : Bool} (h : x.abort s = some (closing, x', t)) :
    t.line = s.line ∧ (x' = { x with stage := .dropped } ∨ x' = x) := by
  unfold abort at h
  split at h <;> cases h
  all_goals exact ⟨rfl, by simp⟩

/-- A session that does not announce its departure has seen its person in the room. -/
theorem connected_of_over {choice : Choice} (hx : x.stage = .checking) (hx' : x'.stage = .over)
    (h : x.step s choice = some (x', t)) : (s.registry x.hub).userConnected x.room x.user = true := by
  simp only [step, hx] at h
  split at h
  · assumption
  · cases h
    cases hx'

/-- The activity of a session fits the stage that a step leads to. -/
theorem Step.stage_conduct (hs : s.Ready) (hx : x.Conduct P) (h : Session.Step s x x' t) :
    x'.stage.Conduct x'.room x'.user P ∧ t.Ready := by
  have hstage := hx.stage
  cases h with
  | register hg =>
    have htells : (Activity.announce (s.register x.hub x.conn) x.hub x.room x.user none).1.Tells x.room x.user
        (· = defaultStatus) := Activity.tells_announce _ _ none rfl
    exact ⟨htells, hs.of_line rfl⟩
  | work a a' here next hb t ha =>
    generalize x.stage = g at hb hstage
    cases hb with
    | joining | leaving =>
      have htold := ha.tells hs hstage
      exact ⟨htold.tells, htold.ready⟩
    | handling =>
      rcases hstage with htells | hplain
      · have htold := ha.tells hs htells
        exact ⟨.inl htold.tells, htold.ready⟩
      · obtain ⟨hplain', hmute | ⟨m, haccepts, -⟩⟩ := ha.plain hs hplain
        · exact ⟨.inr hplain', hmute.ready⟩
        · exact ⟨.inr hplain', haccepts.ready⟩
  | rest r here next hb =>
    generalize x.stage = g at hb
    cases hb <;> exact ⟨trivial, hs⟩
  | handle hg frame rest hi a ha =>
    have hsays : Item.Says P (.text frame) := hx.inbox _ (by rw [hi]; exact List.mem_cons_self)
    exact ⟨tells_route hsays ha, hs.of_line (line_route _ _ _ _ _)⟩
  | pass hg rest => exact ⟨hstage, hs⟩
  | leave | remove | close | stay => exact ⟨trivial, hs.of_line rfl⟩
  | depart hg =>
    have htells : (Activity.announce s x.hub x.room x.user (some offlineStatus)).1.Tells x.room x.user
        (· = offlineStatus) := Activity.tells_announce _ _ _ rfl
    exact ⟨htells, hs.of_line rfl⟩

end Hub.Session

/-! ### One occurrence -/

namespace Deployment

/-- The other sessions are what they were. -/
def Apart (y : Deployment) (n : TaskId) (y' : Deployment) : Prop :=
  ∀ m z, m ≠ n → (y'.task m = .session z ↔ y.task m = .session z)

/-- What one occurrence does to the sessions and says to the broker. -/
inductive Goes (P : String → Prop) (y y' : Deployment) : Prop
  | idle (hsessions : ∀ n x, y'.task n = .session x ↔ y.task n = .session x)
      (hs : y.service.Mute y'.service ∨
        ∃ m, y.service.Accepts m y'.service ∧ ∀ room user status, ¬ m.Announces room user status)
  | step (n : TaskId) (x x' : Session) (hx : y.task n = .session x) (hx' : y'.task n = .session x')
      (hothers : y.Apart n y') (choice : Choice) (h : x.step y.service choice = some (x', y'.service))
  | dropped (n : TaskId) (x : Session) (hx : y.task n = .session x)
      (hx' : y'.task n = .session { x with stage := .dropped }) (hothers : y.Apart n y')
      (hs : y.service.Mute y'.service)
  | fed (n : TaskId) (x : Session) (i : Item) (hi : i.Says P) (hx : y.task n = .session x)
      (hx' : y'.task n = .session (x.feed i)) (hothers : y.Apart n y') (hs : y.service.Mute y'.service)
  | entered (n : TaskId) (x : Session) (hn : y.task n = .done) (hx' : y'.task n = .session x)
      (hstage : x.stage = .opening) (hinbox : x.inbox = []) (hothers : y.Apart n y')
      (hs : y.service.Mute y'.service)

/-- Every session does what fits its stage, and no other activity tells of presence. -/
structure Conducted (P : String → Prop) (y : Deployment) : Prop where
  ready : y.service.Ready
  sessions : ∀ n x, y.task n = .session x → x.Conduct P
  activities : ∀ n a, y.task n = .activity a → a.Plain

/-- The broker stays up, nothing is published about presence beside the sessions, and clients say only what
they may. -/
def Occurrence.Calm (P : String → Prop) : Occurrence → Prop
  | .turn (.outage down) => down = false
  | .publish post => post.category ≠ .presence
  | .item _ i => i.Says P
  | _ => True

theorem Goes.refl (hs : y.service.Ready) : Goes P y y :=
  .idle (fun _ _ => Iff.rfl) (.inl (.of_line hs rfl))

/-! ### A task that is put in place -/

theorem task_put_of_ne (hm : m ≠ n) (k : Task) (t : Service) :
    ({ y.setTask n k with service := t } : Deployment).task m = y.task m :=
  y.task_setTask_of_ne k hm

theorem task_put_cases (y : Deployment) (n : TaskId) (k : Task) (t : Service) (m : TaskId) :
    ({ y.setTask n k with service := t } : Deployment).task m = y.task m ∨
      m = n ∧ ({ y.setTask n k with service := t } : Deployment).task m = k := by
  by_cases hm : m = n
  · subst hm
    by_cases hlt : m < y.tasks.size
    · exact .inr ⟨rfl, y.task_setTask k hlt⟩
    · have hle : y.tasks.size ≤ m := Nat.le_of_not_lt hlt
      refine .inl (Eq.trans ?_ (y.task_of_size_le hle).symm)
      exact (y.setTask m k).task_of_size_le (by rwa [size_setTask])
  · exact .inl (task_put_of_ne hm k t)

theorem sessions_put {k : Task} (hold : ∀ x, y.task n ≠ .session x) (hk : ∀ x, k ≠ .session x) (m : TaskId)
    (z : Session) :
    ({ y.setTask n k with service := t } : Deployment).task m = .session z ↔ y.task m = .session z := by
  rcases y.task_put_cases n k t m with hsame | ⟨rfl, hnew⟩
  · rw [hsame]
  · rw [hnew]
    exact iff_of_false (hk z) (hold z)

theorem apart_put (y : Deployment) (n : TaskId) (k : Task) (t : Service) :
    y.Apart n { y.setTask n k with service := t } := fun m z hm => by
  rw [task_put_of_ne hm]

theorem task_put_of_session (hx : y.task n = .session x) (k : Task) (t : Service) :
    ({ y.setTask n k with service := t } : Deployment).task n = k :=
  y.task_setTask k (y.lt_of_task_ne (by rw [hx]; simp))

theorem sessions_spawn {k : Task} (hk : ∀ x, k ≠ .session x) (m : TaskId) (z : Session) :
    (y.spawn k).2.task m = .session z ↔ y.task m = .session z := by
  rw [task_spawn]
  split
  · rename_i hm
    rw [hm, y.task_of_size_le (Nat.le_refl _)]
    exact iff_of_false (hk z) (by simp)
  · exact Iff.rfl

theorem Goes.spawn (h : Goes P y y') {k : Task} (hk : ∀ x, k ≠ .session x) : Goes P y (y'.spawn k).2 := by
  have hsame := fun m z => sessions_spawn (y := y') hk m z
  have hapart : ∀ {n}, y.Apart n y' → y.Apart n (y'.spawn k).2 := fun h m z hm => (hsame m z).trans (h m z hm)
  cases h with
  | idle hsessions hs => exact .idle (fun m z => (hsame m z).trans (hsessions m z)) hs
  | step n x x' hx hx' hothers choice h => exact .step n x x' hx ((hsame n _).mpr hx') (hapart hothers) choice h
  | dropped n x hx hx' hothers hs => exact .dropped n x hx ((hsame n _).mpr hx') (hapart hothers) hs
  | fed n x i hi hx hx' hothers hs => exact .fed n x i hi hx ((hsame n _).mpr hx') (hapart hothers) hs
  | entered n x hn hx' hstage hinbox hothers hs =>
    exact .entered n x hn ((hsame n _).mpr hx') hstage hinbox (hapart hothers) hs

/-! ### Every occurrence -/

section Occurrences

variable (hy : Conducted P y)
include hy

theorem Conducted.goes_step {choice : Choice} (h : y.step n choice = some y') : Goes P y y' := by
  obtain ⟨hn, k, s, hk, rfl⟩ := step_spec h
  have hready := hy.ready
  generalize hold : y.task n = old at hk
  cases hk with
  | writer c conn now stopFirst hc =>
    exact .idle (sessions_put (by simp [hold]) (by simp)) (.inl (.of_line hready rfl))
  | closer c => exact .idle (sessions_put (by simp [hold]) (by simp)) (.inl (.of_line hready rfl))
  | activity a a' s h =>
    exact .idle (sessions_put (by simp [hold]) (by simp)) (h.plain hready (hy.activities n a hold)).2
  | session x x' s choice h =>
    exact .step n x x' hold (task_put_of_session hold _ _) (apart_put _ _ _ _) choice h
  | subscriber x x' s h => exact .idle (sessions_put (by simp [hold]) (by simp)) (.inl (h.mute hready))

theorem Conducted.goes_turn {u : Turn} (hu : (Occurrence.turn u).Calm P) : Goes P y (y.turn u) := by
  have hready := hy.ready
  cases u with
  | step n choice =>
    simp only [turn]
    cases h : y.step n choice with
    | none => exact .refl hready
    | some y' => exact hy.goes_step h
  | pass t => exact .idle (fun _ _ => Iff.rfl) (.inl (.of_line hready rfl))
  | listen hub =>
    simp only [turn, start]
    split
    · split
      · exact .idle (sessions_spawn (by simp)) (.inl (.of_line hready rfl))
      · exact .refl hready
    · exact .refl hready
  | outage down =>
    obtain rfl : down = false := hu
    exact .idle (fun _ _ => Iff.rfl) (.inl (Service.mute_available hready))
  | disconnect => exact .idle (fun _ _ => Iff.rfl) (.inl (Service.mute_disconnect hready))

theorem Conducted.goes_openSession (hub : Nat) (room user : String) (sink : Sink) :
    Goes P y (y.openSession hub room user sink).2.2 := by
  have htask := y.task_openSession hub room user sink
  refine .entered (y.tasks.size + 1) { hub, conn := y.service.connections.size, room, user }
    (y.task_of_size_le (Nat.le_succ _)) (by rw [htask, if_pos rfl]) rfl rfl (fun m z hm => ?_) (.of_line hy.ready rfl)
  rw [htask, if_neg hm]
  split
  · rename_i hm
    rw [hm, y.task_of_size_le (Nat.le_refl _)]
    simp
  · exact Iff.rfl

theorem Conducted.goes_feed {i : Item} (hi : i.Says P) (n : TaskId) : Goes P y (y.feed n i) := by
  unfold feed
  split
  · rename_i x hx
    exact .fed n x i hi hx (task_put_of_session hx _ y.service) (apart_put _ _ _ y.service) (.of_line hy.ready rfl)
  · exact .refl hy.ready

theorem Conducted.goes_abort (n : TaskId) : Goes P y (y.abort n) := by
  unfold abort
  split
  · rename_i x hx
    split
    · exact .refl hy.ready
    · rename_i closing x' t habort
      have hput : Goes P y { y.setTask n (.session x') with service := t } := by
        obtain ⟨hline, rfl | rfl⟩ := Session.abort_spec habort
        · exact .dropped n x hx (task_put_of_session hx _ t) (apart_put _ _ _ t) (.of_line hy.ready hline)
        · refine .idle (fun m z => ?_) (.inl (.of_line hy.ready hline))
          by_cases hm : m = n
          · rw [hm, task_put_of_session hx, hx]
          · exact apart_put y n _ t m z hm
      dsimp only
      split
      · exact hput.spawn (by simp)
      · exact hput
  · exact .refl hy.ready

theorem Conducted.goes_after {o : Occurrence} (ho : o.Calm P) : Goes P y (y.after o) := by
  cases o with
  | turn u => exact hy.goes_turn ho
  | enter hub room user sink =>
    simp only [after]
    split
    · exact hy.goes_openSession hub room user sink
    · exact .refl hy.ready
  | item n i => exact hy.goes_feed ho n
  | drop n => exact hy.goes_abort n
  | publish post => exact .idle (sessions_spawn (by simp)) (.inl (.of_line hy.ready rfl))

/-! ### Everybody stays within their conduct -/

theorem Conducted.plain_step {choice : Choice} (h : y.step n choice = some y') {a : Activity}
    (ha : y'.task m = .activity a) : a.Plain := by
  obtain ⟨hn, k, s, hk, rfl⟩ := step_spec h
  rcases y.task_put_cases n k s m with hsame | ⟨rfl, hnew⟩
  · rw [hsame] at ha
    exact hy.activities m a ha
  · rw [hnew] at ha
    subst ha
    generalize hold : y.task m = old at hk
    cases hk with
    | activity a₀ a s h => exact (h.plain hy.ready (hy.activities m a₀ hold)).1

theorem Conducted.plain_put {k : Task} (hk : ∀ a, k ≠ .activity a) {a : Activity}
    (ha : ({ y.setTask n k with service := t } : Deployment).task m = .activity a) : a.Plain := by
  rcases y.task_put_cases n k t m with hsame | ⟨-, hnew⟩
  · exact hy.activities m a (hsame ▸ ha)
  · exact absurd (hnew ▸ ha) (hk a)

omit hy in
theorem plain_spawn (hy : ∀ m a, y.task m = .activity a → a.Plain) {k : Task} (hk : ∀ a, k = .activity a → a.Plain)
    {a : Activity} (ha : (y.spawn k).2.task m = .activity a) : a.Plain := by
  rw [task_spawn] at ha
  split at ha
  · exact hk a ha
  · exact hy m a ha

theorem Conducted.plain_after {o : Occurrence} (ho : o.Calm P) {a : Activity} (ha : (y.after o).task m = .activity a) :
    a.Plain := by
  cases o with
  | turn u =>
    cases u with
    | step n choice =>
      simp only [after, turn] at ha
      cases h : y.step n choice with
      | none => exact hy.activities m a (by simpa [h] using ha)
      | some y' => exact hy.plain_step h (by simpa [h] using ha)
    | listen hub =>
      simp only [after, turn, start] at ha
      split at ha
      · split at ha
        · exact plain_spawn hy.activities (by simp) ha
        · exact hy.activities m a ha
      · exact hy.activities m a ha
    | pass | outage | disconnect => exact hy.activities m a ha
  | enter hub room user sink =>
    simp only [after] at ha
    split at ha
    · rw [y.task_openSession] at ha
      split at ha
      · cases ha
      · split at ha
        · cases ha
        · exact hy.activities m a ha
    · exact hy.activities m a ha
  | item n i =>
    simp only [after, feed] at ha
    split at ha
    · exact hy.plain_put (by simp) ha
    · exact hy.activities m a ha
  | drop n =>
    simp only [after, abort] at ha
    split at ha
    · split at ha
      · exact hy.activities m a ha
      · rename_i closing x' t habort
        have hput := fun m a => hy.plain_put (t := t) (n := n) (m := m) (k := .session x') (a := a) (by simp)
        split at ha
        · exact plain_spawn hput (by simp) ha
        · exact hput m a ha
    · exact hy.activities m a ha
  | publish post => exact plain_spawn hy.activities (by rintro a' ⟨⟩; exact ho) ha

end Occurrences

theorem Goes.conducted (hy : Conducted P y) (h : Goes P y y') (hplain : ∀ n a, y'.task n = .activity a → a.Plain) :
    Conducted P y' := by
  -- a session that is there afterwards is the one concerned, or was there before
  have hall : ∀ n x', y'.task n = .session x' → y.Apart n y' → x'.Conduct P →
      ∀ m z, y'.task m = .session z → z.Conduct P := by
    intro n x' hx' hothers hconduct m z hz
    by_cases hm : m = n
    · rw [hm, hx'] at hz
      cases hz
      exact hconduct
    · exact hy.sessions m z ((hothers m z hm).mp hz)
  cases h with
  | idle hsessions hs =>
    refine ⟨?_, fun n x hx => hy.sessions n x ((hsessions n x).mp hx), hplain⟩
    rcases hs with hmute | ⟨m, haccepts, -⟩
    · exact hmute.ready
    · exact haccepts.ready
  | step n x x' hx hx' hothers choice h =>
    have hconduct := hy.sessions n x hx
    have hinbox : ∀ i ∈ x'.inbox, i.Says P := fun i hi => hconduct.inbox i ((Session.inbox_step h).subset hi)
    obtain ⟨hstage, hready⟩ := Session.Step.stage_conduct hy.ready hconduct (Session.step_spec h)
    exact ⟨hready, hall n x' hx' hothers ⟨hinbox, hstage⟩, hplain⟩
  | dropped n x hx hx' hothers hs =>
    exact ⟨hs.ready, hall n _ hx' hothers ⟨(hy.sessions n x hx).inbox, trivial⟩, hplain⟩
  | fed n x i hi hx hx' hothers hs =>
    have hconduct := hy.sessions n x hx
    refine ⟨hs.ready, hall n _ hx' hothers ⟨fun j hj => ?_, hconduct.stage⟩, hplain⟩
    rcases List.mem_append.mp hj with hj | hj
    · exact hconduct.inbox j hj
    · rw [List.mem_singleton.mp hj]
      exact hi
  | entered n x hn hx' hstage hinbox hothers hs =>
    refine ⟨hs.ready, hall n x hx' hothers ⟨by simp [hinbox], ?_⟩, hplain⟩
    rw [hstage]
    trivial

/-! ### The course of a deployment -/

/-- So many hubs on one broker, before anyone has come. -/
def linked (base : Service) (hubs : Nat) : Deployment := vacant { base with line := some {} } hubs

theorem conducted_linked (base : Service) (hubs : Nat) : Conducted P (linked base hubs) := by
  have htask : ∀ n, (linked base hubs).task n = .done := fun n => by simp [linked, vacant, task]
  refine ⟨⟨⟨{}, rfl, rfl, rfl⟩, Nat.one_pos⟩, fun n x hx => ?_, fun n a ha => ?_⟩
  · rw [htask] at hx
    cases hx
  · rw [htask] at ha
    cases ha

theorem conducted_course {os : List Occurrence} (hy : Conducted P y) (hos : ∀ o ∈ os, o.Calm P) (k : Nat) :
    Conducted P (y.course os k) := by
  induction k with
  | zero => exact hy
  | succ k ih =>
    rw [course_succ]
    cases ho : os[k]? with
    | none => exact ih
    | some o =>
      have hcalm := hos o (List.mem_of_getElem? ho)
      exact (ih.goes_after hcalm).conducted ih fun n a ha => ih.plain_after hcalm ha

theorem goes_course {os : List Occurrence} (hy : Conducted P y) (hos : ∀ o ∈ os, o.Calm P) (k : Nat) :
    Goes P (y.course os k) (y.course os (k + 1)) := by
  have ih := conducted_course hy hos k
  rw [course_succ]
  cases ho : os[k]? with
  | none => exact .refl ih.ready
  | some o => exact ih.goes_after (hos o (List.mem_of_getElem? ho))

end Deployment

end Parley
