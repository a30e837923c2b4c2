import Parley.Proofs.Sessions.Tended

/-!
Everything that happens to a deployment with sessions is one change that keeps them in order: steps of
tasks, new sessions, what comes from clients, and drops.
-/

namespace Parley

open Hub Deployment

variable {y y' : Deployment} {n : TaskId} {x x' : Session} {t : Service}

/-! ### The service under a session that goes on -/

namespace Tended

theorem moves_of_quiet (hy : Tended y) (hx : y.task n = .session x) (hself : x'.self = x.self)
    (hs : x'.standing = x.standing) (hq : Quiet y.service t) : Moves y.service x' t where
  hubs := by rw [hq.hubs]
  size := Nat.le_of_eq hq.size.symm
  footing c _ := hq.footing c
  agrees := (hy.agrees n x hx).congr hself hs (by rw [hq.hubs]) (Nat.le_of_eq hq.size.symm) (hq.footing x.conn)
  members h r e := by
    obtain ⟨hhub, hconn, hroom, huser⟩ := Session.self_eq_iff.1 hself
    have hmem : x'.member = x.member := by simp [Session.member, hconn, huser]
    rw [hq.registry, hs, hhub, hroom, hmem, hconn]
    constructor
    · intro he
      by_cases hc : e.id = x.conn
      · exact .inr (hy.of_mem hx he hc)
      · exact .inl ⟨he, hc⟩
    · rintro (⟨he, -⟩ | ⟨hl, hh, hr, he⟩)
      · exact he
      · exact (hy.members h r e).2 ⟨n, x, hx, hl, hh, hr, he⟩
  nodup h r := by rw [hq.registry]; exact hy.nodup h r
  filled h := by rw [hq.registry]; exact hy.filled h
  closes := by rw [hq.closes, hq.closed]; exact hy.closes x'.conn

theorem moves_register (hy : Tended y) (hx : y.task n = .session x) (hs : x.standing = .awaited) {g : Stage}
    (hg : g.standing = .listed) (hq : Quiet (y.service.register x.hub x.conn) t) :
    Moves y.service { x with stage := g } t where
  hubs := by rw [hq.hubs]; exact y.service.size_register x.hub x.conn
  size := Nat.le_of_eq hq.size.symm
  footing c _ := hq.footing c
  agrees := by
    have ha := hy.agrees n x hx
    have hc := ha.unclosed (by rw [hs]; simp) (by rw [hs]; simp)
    refine ⟨?_, ?_, ?_, ?_, fun _ _ => ?_, fun hc => ?_⟩
    · rw [hq.hubs, Service.size_register]
      exact ha.hub
    · rw [hq.size]
      exact ha.conn
    · rw [hq.room]
      exact ha.room
    · rw [hq.user]
      exact ha.user
    · rw [hq.closed]
      exact hc
    · rw [Session.standing, hg] at hc
      cases hc
  members h r e := by
    have ha := hy.agrees n x hx
    have hnot : ∀ {g q}, e ∈ (y.service.registry g).members q → e.id ≠ x.conn := by
      intro g q he hc
      have hl := (hy.of_mem hx he hc).1
      rw [hs] at hl
      cases hl
    rw [hq.registry, Service.mem_members_register _ _ _ _ _ ha.hub, ha.room, ha.user]
    constructor
    · rintro (⟨hh, hr, he⟩ | ⟨he, -⟩)
      · exact .inr ⟨hg, hh.symm, hr.symm, he.symm⟩
      · exact .inl ⟨he, hnot he⟩
    · rintro (⟨he, hc⟩ | ⟨-, hh, hr, he⟩)
      · exact .inr ⟨he, fun hn => hc hn.2.2⟩
      · exact .inl ⟨hh.symm, hr.symm, he.symm⟩
  nodup h r := by rw [hq.registry]; exact Service.nodup_snapshot_register _ _ _ _ _ hy.nodup
  filled h := by rw [hq.registry]; exact Service.filled_register _ _ _ _ hy.filled
  closes := by rw [hq.closes, hq.closed]; exact hy.closes x.conn

theorem moves_deregister (hy : Tended y) (hx : y.task n = .session x) (hs : x.standing = .listed) {g : Stage}
    (hg : g.standing = .removed ∨ g.standing = .dropped) :
    Moves y.service { x with stage := g } (y.service.deregister x.hub x.conn) where
  hubs := y.service.size_deregister x.hub x.conn
  size := Nat.le_refl _
  footing c _ := rfl
  agrees := by
    have ha := hy.agrees n x hx
    have hc := ha.unclosed (by rw [hs]; simp) (by rw [hs]; simp)
    refine ⟨?_, ha.conn, ha.room, ha.user, fun _ _ => hc, fun hc => ?_⟩
    · rw [Service.size_deregister]
      exact ha.hub
    · have hc : g.standing = .closed := hc
      rcases hg with h | h <;> rw [h] at hc <;> cases hc
  members h r e := by
    have hl : g.standing ≠ .listed := by rcases hg with h | h <;> rw [h] <;> simp
    rw [Service.mem_members_deregister, (hy.agrees n x hx).room]
    constructor
    · rintro ⟨he, hn⟩
      refine .inl ⟨he, fun hc => hn ?_⟩
      obtain ⟨-, hh, hr, -⟩ := hy.of_mem hx he hc
      exact ⟨hh.symm, hr.symm, hc⟩
    · rintro (⟨he, hc⟩ | ⟨h, -⟩)
      · exact ⟨he, fun hn => hc hn.2.2⟩
      · exact absurd h hl
  nodup h r := Service.nodup_snapshot_deregister _ _ _ _ _ hy.nodup
  filled h := Service.filled_deregister _ _ _ _ hy.filled
  closes := hy.closes x.conn

/-- The members of the rooms are the same, where the connection of the session was in none and is in none. -/
theorem members_of_unlisted (hy : Tended y) (hx : y.task n = .session x) (hs : x.standing ≠ .listed) {g : Stage}
    (hg : g.standing ≠ .listed) (h : Nat) (r : String) (e : Member) :
    e ∈ (y.service.registry h).members r ↔ (e ∈ (y.service.registry h).members r ∧ e.id ≠ x.conn) ∨
      (g.standing = .listed ∧ x.hub = h ∧ x.room = r ∧ x.member = e) := by
  constructor
  · intro he
    exact .inl ⟨he, fun hc => hs (hy.of_mem hx he hc).1⟩
  · rintro (⟨he, -⟩ | ⟨hl, -⟩)
    · exact he
    · exact absurd hl hg

theorem moves_close (hy : Tended y) (hx : y.task n = .session x) (hs : x.standing ≠ .listed) {g : Stage}
    (hg : g.standing = .closed ∨ g.standing = .dropped) :
    Moves y.service { x with stage := g } (y.service.close x.conn) := by
  have ha := hy.agrees n x hx
  have hc : (y.service.close x.conn).connection x.conn = (y.service.connection x.conn).close :=
    Service.connection_updateConnection _ _ ha.conn
  have hg' : g.standing ≠ .listed := by rcases hg with h | h <;> rw [h] <;> simp
  refine ⟨rfl, by simp, fun c hne => ?_, ?_, hy.members_of_unlisted hx hs hg', hy.nodup, hy.filled, ?_⟩
  · rw [Service.close, Service.connection_updateConnection_of_ne _ _ hne]
  · refine ⟨ha.hub, by simpa using ha.conn, ?_, ?_, fun h h' => ?_, fun _ => ?_⟩
    · rw [hc, Connection.room_close]
      exact ha.room
    · rw [hc, Connection.user_close]
      exact ha.user
    · rcases hg with hg | hg <;> contradiction
    · rw [hc]
      exact Connection.closed_close _
  · rw [hc, Connection.closes_close (hy.closes x.conn), Connection.closed_close]
    rfl

theorem conn_ne_size (hy : Tended y) {m : TaskId} {z : Session} (hz : y.task m = .session z) :
    z.conn ≠ y.service.connections.size :=
  Nat.ne_of_lt (hy.agrees m z hz).conn

/-- A connection comes, for a session that is to register it. -/
theorem moves_connect (hy : Tended y) {hub : Nat} (hh : hub < y.service.hubs.size) (room user : String) (sink : Sink) :
    Moves y.service { hub, conn := y.service.connections.size, room, user } (y.service.connect room user sink).2 := by
  obtain ⟨croom, cuser, -, cclosed, csights⟩ := y.service.connection_connect room user sink
  have hsize : y.service.connections.size < (y.service.connect room user sink).2.connections.size :=
    Nat.lt_of_lt_of_eq (Nat.lt_succ_self _) (Array.size_push _).symm
  refine ⟨rfl, Nat.le_of_lt hsize, fun c hc => ?_, ⟨hh, hsize, croom, cuser, fun _ _ => cclosed, fun h => by cases h⟩,
    fun h r e => ?_, hy.nodup, hy.filled, ?_⟩
  · exact congrArg Connection.footing (y.service.connection_connect_of_ne room user sink hc)
  · constructor
    · intro he
      refine .inl ⟨he, ?_⟩
      obtain ⟨m, z, hz, -, -, -, rfl⟩ := (hy.members h r e).1 he
      exact hy.conn_ne_size hz
    · rintro (⟨he, -⟩ | ⟨hl, -⟩)
      · exact he
      · cases hl
  · have hcloses : ((y.service.connect room user sink).2.connection y.service.connections.size).closes = 0 := by
      rw [Connection.closes, csights]
      rfl
    exact hcloses.trans (by rw [if_neg]; exact Bool.eq_false_iff.1 cclosed)

theorem moves_drop (hy : Tended y) (hx : y.task n = .session x) (hs : x.standing ≠ .listed) :
    Moves y.service { x with stage := .dropped } y.service := by
  have ha := hy.agrees n x hx
  exact ⟨rfl, Nat.le_refl _, fun _ _ => rfl,
    ⟨ha.hub, ha.conn, ha.room, ha.user, fun _ h => absurd rfl h, fun h => by cases h⟩,
    hy.members_of_unlisted hx hs (by simp [Stage.standing]), hy.nodup, hy.filled, hy.closes x.conn⟩

end Tended

/-- What a step makes of a session: it is the same session, no less far, and not dropped. -/
theorem Hub.Session.Step.onward {s : Service} (h : Session.Step s x x' t) :
    x'.self = x.self ∧ x.standing.rank ≤ x'.standing.rank ∧ x'.standing ≠ .dropped := by
  have hst : ∀ {g}, x.stage = g → x.standing = g.standing := fun h => congrArg Stage.standing h
  have busy : ∀ {g a here next}, Stage.Busy g a here next → g.standing ≠ .dropped := by
    intro g a here next hb
    cases hb <;> simp [Stage.standing]
  cases h with
  | work a a' here next hb t ha =>
    exact ⟨rfl, Nat.le_of_eq
      (congrArg _ (hb.standing.1 a').symm), by rw [Session.standing, hb.standing.1]; exact busy hb⟩
  | rest r here next hb =>
    exact ⟨rfl, Nat.le_of_eq (congrArg _ hb.standing.2.symm), by rw [Session.standing, hb.standing.2]; exact busy hb⟩
  | _ => refine ⟨rfl, ?_, ?_⟩ <;> simp [Session.standing, Stage.standing, Standing.rank, *]

/-- **A step of a session** moves it, and nothing but it. -/
theorem Tended.moves_step (hy : Tended y) (hx : y.task n = .session x) (h : Session.Step y.service x x' t) :
    Moves y.service x' t := by
  have hst : ∀ {g}, x.stage = g → x.standing = g.standing := fun h => congrArg Stage.standing h
  cases h with
  | register hg => exact hy.moves_register hx (hst hg) rfl (quiet_announce _ _ _ _ _)
  | work a a' here next hb t ha => exact hy.moves_of_quiet hx rfl (hb.standing.1 a') ha.quiet
  | rest r here next hb => exact hy.moves_of_quiet hx rfl hb.standing.2 (.refl _)
  | handle hg frame rest hi a ha => exact hy.moves_of_quiet hx rfl (hst hg).symm (quiet_route _ _ _ _ _)
  | pass hg rest => exact hy.moves_of_quiet hx rfl rfl (.refl _)
  | leave hg rest => exact hy.moves_of_quiet hx rfl (hst hg).symm (.refl _)
  | remove hg => exact hy.moves_deregister hx (hst hg) (.inl rfl)
  | close hg => exact hy.moves_close hx (by rw [hst hg]; simp [Stage.standing]) (.inl rfl)
  | stay hg => exact hy.moves_of_quiet hx rfl (hst hg).symm (.refl _)
  | depart hg => exact hy.moves_of_quiet hx rfl (hst hg).symm (quiet_announce _ _ _ _ _)

/-! ### Where a task is concerned -/

theorem Still.refl (y : Deployment) : Still y y := ⟨.refl _, fun _ _ => Iff.rfl, fun _ _ => Iff.rfl⟩

theorem Still.service (y : Deployment) (hq : Quiet y.service t) : Still y { y with service := t } :=
  ⟨hq, fun _ _ => Iff.rfl, fun _ _ => Iff.rfl⟩

section Tasks

variable {k : Task}

theorem Still.put (hn : n < y.tasks.size) (hq : Quiet y.service t) (hold : ∀ x, y.task n ≠ .session x)
    (hold' : ∀ c, y.task n ≠ .closer c) (hk : ∀ x, k ≠ .session x) (hk' : ∀ c, k ≠ .closer c) :
    Still y { y.setTask n k with service := t } := by
  have hself : ({ y.setTask n k with service := t } : Deployment).task n = k := y.task_setTask k hn
  have hother : ∀ m, m ≠ n → ({ y.setTask n k with service := t } : Deployment).task m = y.task m :=
    fun m hm => y.task_setTask_of_ne k hm
  refine ⟨hq, fun m x => ?_, fun m c => ?_⟩
  · by_cases hm : m = n
    · subst hm
      rw [hself]
      exact iff_of_false (hk x) (hold x)
    · rw [hother m hm]
  · by_cases hm : m = n
    · subst hm
      rw [hself]
      exact iff_of_false (hk' c) (hold' c)
    · rw [hother m hm]

theorem Still.spawn (y : Deployment) (hk : ∀ x, k ≠ .session x) (hk' : ∀ c, k ≠ .closer c) : Still y (y.spawn k).2 := by
  have hnew := y.task_of_size_le (Nat.le_refl y.tasks.size)
  refine ⟨.refl _, fun m x => ?_, fun m c => ?_⟩ <;> rw [task_spawn] <;> split
  · rename_i hm
    rw [hm, hnew]
    exact iff_of_false (hk x) (by simp)
  · exact Iff.rfl
  · rename_i hm
    rw [hm, hnew]
    exact iff_of_false (hk' c) (by simp)
  · exact Iff.rfl

end Tasks

/-- A session goes on; every other task stays where it is. -/
theorem Tended.shift_put (hy : Tended y) (hx : y.task n = .session x) (hself : x'.self = x.self)
    (hr : x.standing.rank ≤ x'.standing.rank) (hm : Moves y.service x' t) :
    Shift y n x' { y.setTask n (.session x') with service := t } := by
  have hn : n < y.tasks.size := y.lt_of_task_ne (by rw [hx]; simp)
  have hconn : x'.conn = x.conn := Session.conn_of_self hself
  have hold : ∀ z, y.task n = .session z → z = x := by
    intro z hz
    rw [hx] at hz
    cases hz
    rfl
  have hnew : ({ y.setTask n (.session x') with service := t } : Deployment).task n = .session x' := y.task_setTask _ hn
  have hother : ∀ m, m ≠ n → ({ y.setTask n (.session x') with service := t } : Deployment).task m = y.task m :=
    fun m hm => y.task_setTask_of_ne _ hm
  have hcl : ∀ m c, ({ y.setTask n (.session x') with service := t } : Deployment).task m = .closer c ↔
      y.task m = .closer c := by
    intro m c
    by_cases hm : m = n
    · rw [hm, hnew, hx]
      simp
    · rw [hother m hm]
  refine ⟨hnew, hm, ?_, ?_, fun m z hm => by rw [hother m hm], ?_, fun c _ => by simp only [hcl], ?_⟩
  · intro z hz
    rw [hold z hz]
    exact hself.symm
  · intro z hz
    rw [hold z hz]
    exact hr
  · intro m z hm hz hc
    exact hm (hy.alone m n z x hz hx (hc.trans hconn))
  · rintro ⟨m, hm⟩
    obtain ⟨k, z, hz, hzc, hd⟩ := hy.closer m _ ((hcl m _).1 hm)
    obtain rfl := hy.alone k n z x hz hx (hzc.trans hconn)
    rw [hold z hz] at hd
    rw [hd] at hr
    cases h : x'.standing <;> rw [h] at hr <;> first | rfl | exact absurd hr (by decide)

/-- The close of the connection of a dropped session is left to a new task. -/
theorem Shift.spawn_closer (h : Shift y n x y') (hd : x.standing = .dropped) :
    Shift y n x (y'.spawn (.closer x.conn)).2 := by
  have hnew := y'.task_of_size_le (Nat.le_refl y'.tasks.size)
  have hse : ∀ m z, (y'.spawn (.closer x.conn)).2.task m = .session z ↔ y'.task m = .session z := by
    intro m z
    rw [task_spawn]
    split
    · rename_i hm
      rw [hm, hnew]
      simp
    · exact Iff.rfl
  refine ⟨(hse n x).2 h.after, h.moves, h.self, h.rank, fun m z hm => (hse m z).trans (h.others m z hm), h.apart,
    fun c hc => ?_, fun _ => hd⟩
  rw [← h.closers c hc]
  constructor
  · rintro ⟨m, hm⟩
    rw [task_spawn] at hm
    split at hm
    · cases hm
      exact absurd rfl hc
    · exact ⟨m, hm⟩
  · rintro ⟨m, hm⟩
    refine ⟨m, ?_⟩
    rw [task_spawn, if_neg]
    · exact hm
    · rintro rfl
      rw [hnew] at hm
      cases hm

/-- The connection of a dropped session is closed by the task that it was left to. -/
theorem Tended.shift_close (hy : Tended y) {m : TaskId} {c : ConnId} (hm : y.task m = .closer c) :
    ∃ n x, y.task n = .session x ∧ Shift y n x { y.setTask m .done with service := y.service.close c } ∧
      ((y.service.close c).connection x.conn).closed = true := by
  obtain ⟨n, x, hx, rfl, hd⟩ := hy.closer m c hm
  have hold : ∀ z, y.task n = .session z → z = x := by
    intro z hz
    rw [hx] at hz
    cases hz
    rfl
  have hnew : ({ y.setTask m .done with service := y.service.close x.conn } : Deployment).task m = .done :=
    y.task_setTask _ (y.lt_of_task_ne (by rw [hm]; simp))
  have hother : ∀ i, i ≠ m →
      ({ y.setTask m .done with service := y.service.close x.conn } : Deployment).task i = y.task i :=
    fun i hi => y.task_setTask_of_ne _ hi
  have hnm : n ≠ m := by
    rintro rfl
    rw [hm] at hx
    cases hx
  have hmoves : Moves y.service x (y.service.close x.conn) :=
    hy.moves_close hx (by rw [hd]; simp) (g := x.stage) (.inr hd)
  have hclosed : ((y.service.close x.conn).connection x.conn).closed = true := by
    rw [Service.close, Service.connection_updateConnection _ _ (hy.agrees n x hx).conn]
    exact Connection.closed_close _
  refine ⟨n, x, hx, ⟨by rw [hother n hnm]; exact hx, hmoves, fun z hz => by rw [hold z hz],
    fun z hz => Nat.le_of_eq (by rw [hold z hz]), fun i z hi => ?_, ?_, fun d hd => ?_, fun _ => hd⟩, hclosed⟩
  · by_cases him : i = m
    · rw [him, hnew, hm]
      simp
    · rw [hother i him]
  · intro i z hi hz hc
    exact hi (hy.alone i n z x hz hx hc)
  · constructor
    · rintro ⟨i, hi⟩
      by_cases him : i = m
      · rw [him, hnew] at hi
        cases hi
      · exact ⟨i, by rwa [hother i him] at hi⟩
    · rintro ⟨i, hi⟩
      have him : i ≠ m := by
        rintro rfl
        rw [hm] at hi
        cases hi
        exact hd rfl
      exact ⟨i, by rwa [hother i him]⟩

/-! ### Every operation is one change -/

/-- Sessions stay as they are, or one of them is concerned: it goes on, or it is begun. -/
inductive Change (y : Deployment) : Option Session → Deployment → Prop
  | still {y' : Deployment} (h : Still y y') : Change y none y'
  | shift {y' : Deployment} (n : TaskId) (x x' : Session) (hx : y.task n = .session x) (h : Shift y n x' y')
      (hat : x.standing ≠ .awaited → Attended y x → Attended y' x') : Change y none y'
  | opened {y' : Deployment} (n : TaskId) (x : Session) (hn : y.task n = .done) (hx : x.standing = .awaited)
      (h : Shift y n x y') : Change y (some x) y'

theorem Tended.change (hy : Tended y) {new : Option Session} (h : Change y new y') : Tended y' := by
  cases h with
  | still h => exact hy.still h
  | shift n x x' hx h hat => exact hy.shift h
  | opened n x hn hx h => exact hy.shift h

theorem Change.refl (y : Deployment) : Change y none y := .still (.refl y)

namespace Tended

theorem change_step (hy : Tended y) {choice : Choice} (h : y.step n choice = some y') : Change y none y' := by
  obtain ⟨hn, k, s, hk, rfl⟩ := step_spec h
  generalize hold : y.task n = old at hk
  cases hk with
  | writer c conn now stopFirst hc =>
    exact .still (.put hn (.write _ _ (Connection.step_kept hc)) (by simp [hold]) (by simp [hold]) (by simp) (by simp))
  | closer c =>
    obtain ⟨m, x, hx, h, hc⟩ := hy.shift_close hold
    exact .shift m x x hx h fun _ _ _ => .inl hc
  | activity a a' s h => exact .still (.put hn h.quiet (by simp [hold]) (by simp [hold]) (by simp) (by simp))
  | session x x' s choice h =>
    have hs := Session.step_spec h
    obtain ⟨hself, hr, hd⟩ := hs.onward
    exact .shift n x x' hold (hy.shift_put hold hself hr (hy.moves_step hold hs)) fun _ _ hd' => absurd hd' hd
  | subscriber x x' s h => exact .still (.put hn h.quiet (by simp [hold]) (by simp [hold]) (by simp) (by simp))

theorem change_turn (hy : Tended y) (u : Turn) : Change y none (y.turn u) := by
  cases u with
  | step n choice =>
    simp only [turn]
    cases h : y.step n choice with
    | none => exact .refl y
    | some y' => exact hy.change_step h
  | pass t => exact .still (.service y ⟨rfl, rfl, fun _ => rfl⟩)
  | listen hub =>
    simp only [turn, start]
    split
    · split
      · exact .still (.spawn y (by simp) (by simp))
      · exact .refl y
    · exact .refl y
  | outage down => exact .still (.service y (.line _ _))
  | disconnect => exact .still (.service y (.line _ _))

theorem change_openSession (hy : Tended y) {hub : Nat} (hh : hub < y.service.hubs.size) (room user : String)
    (sink : Sink) :
    Change y (some { hub, conn := y.service.connections.size, room, user }) (y.openSession hub room user sink).2.2 := by
  have hnew := y.task_of_size_le (Nat.le_refl y.tasks.size)
  have hnext := y.task_of_size_le (Nat.le_succ y.tasks.size)
  have htask := y.task_openSession hub room user sink
  have hcl : ∀ m c, (y.openSession hub room user sink).2.2.task m = .closer c ↔ y.task m = .closer c := by
    intro m c
    rw [htask]
    split
    · rename_i hm
      rw [hm, hnext]
      simp
    · split
      · rename_i hm
        rw [hm, hnew]
        simp
      · exact Iff.rfl
  refine .opened (y.tasks.size + 1) _ hnext rfl ⟨?_, hy.moves_connect hh room user sink, ?_, ?_, ?_, ?_, ?_, ?_⟩
  · rw [htask, if_pos rfl]
  · intro z hz
    rw [hnext] at hz
    cases hz
  · intro z hz
    rw [hnext] at hz
    cases hz
  · intro m z hm
    rw [htask, if_neg hm]
    split
    · rename_i hm
      rw [hm, hnew]
      simp
    · exact Iff.rfl
  · intro m z _ hz
    exact hy.conn_ne_size hz
  · intro c _
    simp only [hcl]
  · rintro ⟨m, hm⟩
    obtain ⟨k, z, hz, hzc, -⟩ := hy.closer m _ ((hcl m _).1 hm)
    exact absurd hzc (hy.conn_ne_size hz)

theorem change_again (hy : Tended y) (hx : y.task n = .session x) (hself : x'.self = x.self)
    (hs : x'.standing = x.standing) :
    Change y none { y.setTask n (.session x') with service := y.service } := by
  have hm : Moves y.service x' y.service := hy.moves_of_quiet hx hself hs (.refl _)
  have hconn : x'.conn = x.conn := Session.conn_of_self hself
  refine .shift n x x' hx (hy.shift_put hx hself (Nat.le_of_eq (by rw [hs])) hm) fun _ hat hd => ?_
  rw [hconn]
  rcases hat (hs.symm.trans hd) with h | ⟨m, h⟩
  · exact .inl h
  · refine .inr ⟨m, ?_⟩
    have hmn : m ≠ n := by
      rintro rfl
      rw [hx] at h
      cases h
    exact (y.task_setTask_of_ne _ hmn).trans h

theorem change_feed (hy : Tended y) (n : TaskId) (i : Item) : Change y none (y.feed n i) := by
  unfold Deployment.feed
  split
  · rename_i x hx
    exact hy.change_again hx rfl rfl
  · exact .refl y

theorem change_abort (hy : Tended y) (n : TaskId) : Change y none (y.abort n) := by
  unfold Deployment.abort
  split
  · rename_i x hx
    have hst : ∀ {g}, x.stage = g → x.standing = g.standing := fun h => congrArg Stage.standing h
    have hrank : x.standing.rank ≤ Standing.rank .dropped := by cases x.standing <;> decide
    have hput : ∀ {t}, Moves y.service { x with stage := .dropped } t →
        Shift y n { x with stage := .dropped }
          { y.setTask n (.session { x with stage := .dropped }) with service := t } :=
      fun hm => hy.shift_put hx rfl hrank hm
    have gone : x.standing = .listed → Change y none ((({ y.setTask n (.session { x with stage := .dropped }) with
        service := y.service.deregister x.hub x.conn } : Deployment).spawn (.closer x.conn)).2) := by
      intro hl
      refine .shift n x _ hx ((hput (hy.moves_deregister hx hl (.inr rfl))).spawn_closer rfl) fun _ _ _ =>
        .inr ⟨y.tasks.size, ?_⟩
      rw [task_spawn, if_pos (y.size_setTask n _).symm]
    have quit : x.standing = .closed ∨ x.standing = .awaited →
        Change y none { y.setTask n (.session { x with stage := .dropped }) with service := y.service } := by
      intro hs
      have hl : x.standing ≠ .listed := by rcases hs with h | h <;> rw [h] <;> simp
      refine .shift n x _ hx (hput (hy.moves_drop hx hl)) fun ha _ _ => ?_
      rcases hs with hs | hs
      · exact .inl ((hy.agrees n x hx).closed hs)
      · exact absurd hs ha
    unfold Session.abort
    cases hg : x.stage with
    | joining a => exact gone (hst hg)
    | reading => exact gone (hst hg)
    | handling a => exact gone (hst hg)
    | releasing => exact .refl y
    | closing => exact .refl y
    | opening => exact quit (.inr (hst hg))
    | checking => exact quit (.inl (hst hg))
    | leaving a => exact quit (.inl (hst hg))
    | _ => exact hy.change_again hx rfl rfl
  · exact .refl y

end Tended

end Parley
