import Mathlib.Data.List.Induction
import Mathlib.Data.List.Perm.Subperm
import Parley.Proofs.Presence.Course

/-!
# Statuses that are given at the same time

Nothing holds the two steps of an announcement together: a call stores its record, and some time later the
broker accepts its event. Here any number of calls, from any hubs that share a broker which stays up, give
statuses of one person in one room, and their steps come in any order.

* `Play` is a deployment together with what its calls have done so far: which were made (`calls`), which have
  stored their record, and whose events were accepted, both in their order.
* `Sound` ties the two to the broker: the record is that of the call that stored it last, and the latest
  status that was told is that of the call whose event was accepted last. `Sound.move` is the step and
  `sound_after` the run.
* `record_and_events_agree`: where one call was last in both, the record and the events agree. So it is when
  the last call is made after all others are over. Calls that overlap can leave the two different
  (`record_and_events_differ`).
-/

namespace Parley

open Hub Deployment

namespace Updates

/-- Something that happens while statuses of one person in one room are given. -/
inductive Move where
  /-- A hub is called with a status. -/
  | call (hub : Nat) (status : Option String)
  /-- Something that happens of its own accord. -/
  | turn (u : Turn)

/-- A deployment with what the calls in it have done; a call goes by the number of its task. -/
structure Play where
  deployment : Deployment
  /-- The calls that were made, each with the status that it gives. -/
  calls : List (TaskId × String) := []
  /-- Those that have stored their record, in the order in which they did. -/
  recorded : List TaskId := []
  /-- Those whose events were accepted, in the order in which they were. -/
  told : List TaskId := []

/-- The task is a call that has stored its record. -/
def hasRecorded : Task → Bool
  | .activity (.recording ..) => false
  | .activity _ => true
  | _ => false

/-- The task is a call whose event was accepted. -/
def hasTold : Task → Bool
  | .activity (.finished (.ok _)) => true
  | _ => false

/-- The task that comes as far as this by a turn. -/
def reaching (far : Task → Bool) (y : Deployment) : Turn → List TaskId
  | .step n choice => if !far (y.task n) && far ((y.turn (.step n choice)).task n) then [n] else []
  | _ => []

/-- The status that a call gives; an empty one is the default. -/
def given (status : Option String) : String := (status.filter (· != "")).getD defaultStatus

namespace Play

variable (room user : String)

def move (p : Play) : Move → Play
  | .call hub status =>
    let (a, s) := Activity.announce p.deployment.service hub room user status
    let (n, y) := { p.deployment with service := s }.spawn (.activity a)
    { p with deployment := y, calls := p.calls ++ [(n, given status)] }
  | .turn u =>
    { p with
      deployment := p.deployment.turn u
      recorded := p.recorded ++ reaching hasRecorded p.deployment u
      told := p.told ++ reaching hasTold p.deployment u }

def after (p : Play) (ms : List Move) : Play := ms.foldl (move room user) p

def Returned (p : Play) : Prop := ∀ c ∈ p.calls, p.deployment.isOver c.1 = true

instance (p : Play) : Decidable p.Returned := by
  unfold Returned
  infer_instance

theorem after_concat (p : Play) (ms : List Move) (m : Move) :
    p.after room user (ms ++ [m]) = (p.after room user ms).move room user m :=
  List.foldl_append

end Play

/-! ### Who has come how far -/

/-- The tasks that have come as far as this, each once. -/
structure Marked (far : Task → Bool) (y : Deployment) (ns : List TaskId) : Prop where
  nodup : ns.Nodup
  mem_iff : ∀ n, n ∈ ns ↔ far (y.task n) = true

namespace Marked

variable {far : Task → Bool} {y y' : Deployment} {ns : List TaskId} {n : TaskId} {k : Task} {t : Service}

theorem congr (h : Marked far y ns) (hy : ∀ n, far (y'.task n) = far (y.task n)) : Marked far y' ns :=
  ⟨h.nodup, fun n => by rw [h.mem_iff, hy]⟩

theorem put (h : Marked far y ns) (hn : n < y.tasks.size) (hk : far (y.task n) = true → far k = true) :
    Marked far { y.setTask n k with service := t } (ns ++ if !far (y.task n) && far k then [n] else []) := by
  have hself : ({ y.setTask n k with service := t } : Deployment).task n = k := y.task_setTask k hn
  have hothers : ∀ m, m ≠ n → ({ y.setTask n k with service := t } : Deployment).task m = y.task m :=
    fun m hm => task_put_of_ne hm k t
  have hmem := h.mem_iff n
  constructor
  · split
    · rename_i hnew
      refine List.nodup_append.mpr ⟨h.nodup, List.nodup_singleton n, fun m hm j hj e => ?_⟩
      obtain rfl := List.mem_singleton.mp hj
      rw [e, hmem] at hm
      simp [hm] at hnew
    · simpa using h.nodup
  · intro m
    rw [List.mem_append]
    by_cases hm : m = n
    · subst hm
      rw [hself, hmem]
      cases hold : far (y.task m) with
      | true => simp [hk hold]
      | false => cases hnew : far k <;> simp
    · rw [hothers m hm, h.mem_iff]
      split <;> simp [hm]

end Marked

/-! ### What ties a play to its broker -/

/-- A call that gives a status stands at one of its two steps, or it went well. -/
def Calling (room user status : String) (a : Activity) : Prop :=
  a.Tells room user (· = status) ∧ ∀ r, a = .finished r → r = .ok ()

/-- What a play says is so. -/
structure Sound (room user : String) (p : Play) : Prop where
  ready : p.deployment.service.Ready
  calling : ∀ c ∈ p.calls, ∃ a, p.deployment.task c.1 = .activity a ∧ Calling room user c.2 a
  /-- There are no activities but the calls, and besides them only subscriptions. -/
  only : ∀ n, p.deployment.task n = .done ∨ (∃ x, p.deployment.task n = .subscriber x) ∨ ∃ status, (n, status) ∈ p.calls
  distinct : (p.calls.map (·.1)).Nodup
  recorded : Marked hasRecorded p.deployment p.recorded
  told : Marked hasTold p.deployment p.told
  /-- The record is that of the call that stored it last. -/
  record : ∀ n, p.recorded.getLast? = some n → ∃ r : Broker.Record,
    p.deployment.service.broker.peek (presenceKey room user) = some r ∧ (n, r.value) ∈ p.calls
  unrecorded : p.recorded = [] → p.deployment.service.broker.peek (presenceKey room user) = none
  /-- The latest status that was told is that of the call whose event was accepted last. -/
  event : ∀ n, p.told.getLast? = some n → ∃ status, (n, status) ∈ p.calls ∧
    Latest room user status p.deployment.service.broker.accepted

namespace Sound

variable {room user : String} {p : Play}

theorem status_unique (hp : Sound room user p) {n : TaskId} {status status' : String} (h : (n, status) ∈ p.calls)
    (h' : (n, status') ∈ p.calls) : status = status' :=
  (Prod.mk.inj (List.inj_on_of_nodup_map hp.distinct h h' rfl)).2

theorem exists_call (hp : Sound room user p) {n : TaskId} {a : Activity} (ha : p.deployment.task n = .activity a) :
    ∃ status, (n, status) ∈ p.calls ∧ Calling room user status a := by
  obtain ⟨status, hmem⟩ : ∃ status, (n, status) ∈ p.calls := by
    rcases hp.only n with hd | ⟨x, hx⟩ | hc
    · rw [ha] at hd
      cases hd
    · rw [ha] at hx
      cases hx
    · exact hc
  obtain ⟨a₁, ha₁, hc⟩ := hp.calling _ hmem
  rw [ha] at ha₁
  cases ha₁
  exact ⟨status, hmem, hc⟩

/-! ### One move -/

/-- Nothing is said, and no call goes on. -/
theorem idle (hp : Sound room user p) {y : Deployment} (hs : p.deployment.service.Mute y.service)
    (hy : ∀ n, y.task n = p.deployment.task n ∨
      (∀ a, p.deployment.task n ≠ .activity a) ∧ ∃ x, y.task n = .subscriber x) :
    Sound room user { p with deployment := y } where
  ready := hs.ready
  calling c hc := by
    obtain ⟨a, ha, hcalling⟩ := hp.calling c hc
    rcases hy c.1 with h | ⟨hno, -⟩
    · exact ⟨a, h.trans ha, hcalling⟩
    · exact absurd ha (hno a)
  only n := by
    rcases hy n with h | ⟨-, hx⟩
    · rw [h]
      exact hp.only n
    · exact .inr (.inl hx)
  distinct := hp.distinct
  recorded := hp.recorded.congr fun n => by
    rcases hy n with h | ⟨hno, x, hx⟩
    · rw [h]
    · rw [hx]
      cases hk : p.deployment.task n <;> first | rfl | exact absurd hk (hno _)
  told := hp.told.congr fun n => by
    rcases hy n with h | ⟨hno, x, hx⟩
    · rw [h]
    · rw [hx]
      cases hk : p.deployment.task n <;> first | rfl | exact absurd hk (hno _)
  record n hn := by
    obtain ⟨r, hr, hmem⟩ := hp.record n hn
    exact ⟨r, (MemoryBroker.peek_of_records hs.records).trans hr, hmem⟩
  unrecorded hn := (MemoryBroker.peek_of_records hs.records).trans (hp.unrecorded hn)
  event n hn := by
    obtain ⟨status, hmem, hl⟩ := hp.event n hn
    exact ⟨status, hmem, hs.accepted ▸ hl⟩

theorem act (hp : Sound room user p) {n : TaskId} {a a' : Activity} {t : Service}
    (ha : p.deployment.task n = .activity a) (h : Activity.Step p.deployment.service a a' t) :
    Sound room user
      { deployment := { p.deployment.setTask n (.activity a') with service := t }
        calls := p.calls
        recorded := p.recorded ++ if !hasRecorded (.activity a) && hasRecorded (.activity a') then [n] else []
        told := p.told ++ if !hasTold (.activity a) && hasTold (.activity a') then [n] else [] } := by
  obtain ⟨status, hmem, hcalling⟩ := hp.exists_call ha
  have hlt : n < p.deployment.tasks.size := p.deployment.lt_of_task_ne (by rw [ha]; simp)
  have hself : ({ p.deployment.setTask n (.activity a') with service := t } : Deployment).task n = .activity a' :=
    p.deployment.task_setTask _ hlt
  have hothers : ∀ m, m ≠ n →
      ({ p.deployment.setTask n (.activity a') with service := t } : Deployment).task m = p.deployment.task m :=
    fun m hm => task_put_of_ne hm _ t
  have htold := h.tells hp.ready hcalling.1
  have hfar : (hasRecorded (.activity a) = true → hasRecorded (.activity a') = true) ∧
      (hasTold (.activity a) = true → hasTold (.activity a') = true) := by
    cases htold <;> simp [hasRecorded, hasTold]
  have hnext : Calling room user status a' := by
    refine ⟨htold.tells, ?_⟩
    cases htold with
    | record => rintro r ⟨⟩
    | publish => rintro r ⟨⟩; rfl
  have hrecorded := hp.recorded.put (t := t) hlt (ha ▸ hfar.1)
  have hmarked := hp.told.put (t := t) hlt (ha ▸ hfar.2)
  rw [ha] at hrecorded hmarked
  refine ⟨htold.ready, fun c hc => ?_, fun m => ?_, hp.distinct, hrecorded, hmarked, fun m hm => ?_, fun hm => ?_,
    fun m hm => ?_⟩
  · by_cases hn : c.1 = n
    · obtain rfl : c.2 = status := hp.status_unique (n := n) (hn ▸ hc) hmem
      exact ⟨a', hn ▸ hself, hnext⟩
    · rw [hothers c.1 hn]
      exact hp.calling c hc
  · by_cases hm : m = n
    · subst hm
      exact .inr (.inr ⟨status, hmem⟩)
    · rw [hothers m hm]
      exact hp.only m
  · cases htold with
    | record post st t hpost hst hputs =>
      obtain rfl : st = status := hst
      obtain ⟨r, hr, hpeek⟩ := hputs.peek
      obtain rfl : n = m := by simpa [hasRecorded] using hm
      exact ⟨r, by rw [hpeek, if_pos rfl], hr ▸ hmem⟩
    | publish post k st t e hst he haccepts =>
      obtain ⟨r, hr, hmem⟩ := hp.record m (by simpa [hasRecorded] using hm)
      exact ⟨r, (MemoryBroker.peek_of_records haccepts.records).trans hr, hmem⟩
  · cases htold with
    | record => simp [hasRecorded] at hm
    | publish post k st t e hst he haccepts =>
      exact (MemoryBroker.peek_of_records haccepts.records).trans (hp.unrecorded (by simpa [hasRecorded] using hm))
  · cases htold with
    | record post st t hpost hst hputs =>
      obtain ⟨status, hmem, hl⟩ := hp.event m (by simpa [hasTold] using hm)
      exact ⟨status, hmem, hputs.accepted ▸ hl⟩
    | publish post k st t e hst he haccepts =>
      obtain rfl : st = status := hst
      obtain rfl : n = m := by simpa [hasTold] using hm
      refine ⟨st, hmem, ?_⟩
      rw [haccepts.accepted]
      exact (latest_append_of_announces he).mpr rfl

theorem enter (hp : Sound room user p) {s : Service} (hs : p.deployment.service.Mute s) {status : String} {a : Activity}
    (ha : Calling room user status a) (hrec : hasRecorded (.activity a) = false)
    (htold : hasTold (.activity a) = false) :
    Sound room user { p with
      deployment := ({ p.deployment with service := s }.spawn (.activity a)).2
      calls := p.calls ++ [(p.deployment.tasks.size, status)] } := by
  have htask : ∀ n, ({ p.deployment with service := s }.spawn (.activity a)).2.task n =
      if n = p.deployment.tasks.size then .activity a else p.deployment.task n :=
    fun n => ({ p.deployment with service := s } : Deployment).task_spawn n (.activity a)
  have hnew : p.deployment.task p.deployment.tasks.size = .done := p.deployment.task_of_size_le (Nat.le_refl _)
  have hold : ∀ c ∈ p.calls, c.1 ≠ p.deployment.tasks.size := fun c hc e => by
    obtain ⟨a, ha, -⟩ := hp.calling c hc
    rw [e, hnew] at ha
    cases ha
  refine ⟨hs.ready, fun c hc => ?_, fun n => ?_, ?_, hp.recorded.congr fun n => ?_, hp.told.congr fun n => ?_,
    fun n hn => ?_, fun hn => (MemoryBroker.peek_of_records hs.records).trans (hp.unrecorded hn), fun n hn => ?_⟩
  · rw [htask]
    rcases List.mem_append.mp hc with hc | hc
    · rw [if_neg (hold c hc)]
      exact hp.calling c hc
    · obtain rfl := List.mem_singleton.mp hc
      exact ⟨a, if_pos rfl, ha⟩
  · rw [htask]
    by_cases hn : n = p.deployment.tasks.size
    · exact .inr (.inr ⟨status, by simp [hn]⟩)
    · rw [if_neg hn]
      exact (hp.only n).imp_right (Or.imp_right fun ⟨status, h⟩ => ⟨status, List.mem_append_left _ h⟩)
  · rw [List.map_append]
    refine List.nodup_append.mpr ⟨hp.distinct, List.nodup_singleton _, fun n hn m hm e => ?_⟩
    obtain ⟨c, hc, rfl⟩ := List.mem_map.mp hn
    exact hold c hc (e.trans (List.mem_singleton.mp hm))
  · rw [htask]
    split
    · rename_i hn
      rw [hn, hnew, hrec]
      rfl
    · rfl
  · rw [htask]
    split
    · rename_i hn
      rw [hn, hnew, htold]
      rfl
    · rfl
  · obtain ⟨r, hr, hmem⟩ := hp.record n hn
    exact ⟨r, (MemoryBroker.peek_of_records hs.records).trans hr, List.mem_append_left _ hmem⟩
  · obtain ⟨status, hmem, hl⟩ := hp.event n hn
    exact ⟨status, List.mem_append_left _ hmem, hs.accepted ▸ hl⟩

theorem reaching_self {far : Task → Bool} {y : Deployment} {n : TaskId} {choice : Choice}
    (h : (y.turn (.step n choice)).task n = y.task n) : reaching far y (.step n choice) = [] := by
  rw [reaching, h]
  simp

theorem idle_turn (hp : Sound room user p) {u : Turn} (hr : reaching hasRecorded p.deployment u = [])
    (ht : reaching hasTold p.deployment u = []) (hs : p.deployment.service.Mute (p.deployment.turn u).service)
    (hy : ∀ n, (p.deployment.turn u).task n = p.deployment.task n ∨
      (∀ a, p.deployment.task n ≠ .activity a) ∧ ∃ x, (p.deployment.turn u).task n = .subscriber x) :
    Sound room user (p.move room user (.turn u)) := by
  have := hp.idle hs hy
  simpa only [Play.move, hr, ht, List.append_nil] using this

theorem task_put_of_task {y : Deployment} {n : TaskId} {k : Task} {t : Service} (hn : n < y.tasks.size) :
    ({ y.setTask n k with service := t } : Deployment).task n = k :=
  y.task_setTask k hn

theorem turn_listen (y : Deployment) (hub : Nat) :
    y.turn (.listen hub) = y ∨ y.turn (.listen hub) = (y.spawn (.subscriber { hub })).2 := by
  simp only [Deployment.turn, start]
  split
  · split
    · exact .inr rfl
    · exact .inl rfl
  · exact .inl rfl

/-- One turn. -/
theorem turn (hp : Sound room user p) {u : Turn} (hu : u ≠ .outage true) :
    Sound room user (p.move room user (.turn u)) := by
  have hready := hp.ready
  cases u with
  | step n choice =>
    cases h : p.deployment.step n choice with
    | none =>
      have hturn : p.deployment.turn (.step n choice) = p.deployment := by rw [Deployment.turn, h]; rfl
      refine hp.idle_turn ?_ ?_ ?_ fun m => .inl (by rw [hturn])
      · exact reaching_self (by rw [hturn])
      · exact reaching_self (by rw [hturn])
      · rw [hturn]
        exact .of_line hready rfl
    | some y =>
      have hturn : p.deployment.turn (.step n choice) = y := by rw [Deployment.turn, h]; rfl
      obtain ⟨hlt, k, s, hk, rfl⟩ := step_spec h
      generalize hold : p.deployment.task n = old at hk
      cases hk with
      | activity a a' s ha =>
        have hact := hp.act hold ha
        simp only [Play.move, hturn, reaching, hold, task_put_of_task hlt]
        exact hact
      | subscriber x x' s hx =>
        have hput := task_put_of_task (y := p.deployment) (k := .subscriber x') (t := s) hlt
        refine hp.idle_turn ?_ ?_ (hturn ▸ hx.mute hready) fun m => ?_
        · simp only [reaching, hturn, hput, hold, hasRecorded]
          rfl
        · simp only [reaching, hturn, hput, hold, hasTold]
          rfl
        · rw [hturn]
          by_cases hm : m = n
          · subst hm
            exact .inr ⟨by simp [hold], x', hput⟩
          · exact .inl (task_put_of_ne hm _ s)
      | writer | closer | session =>
        rcases hp.only n with hd | ⟨x, hx⟩ | ⟨status, hc⟩
        · rw [hold] at hd
          cases hd
        · rw [hold] at hx
          cases hx
        · obtain ⟨a, ha, -⟩ := hp.calling _ hc
          rw [hold] at ha
          cases ha
  | pass t =>
    exact hp.idle_turn rfl rfl (.of_line hready rfl) fun m => .inl rfl
  | listen hub =>
    simp only [Play.move, reaching, List.append_nil]
    rcases turn_listen p.deployment hub with h | h
    · rw [h]
      exact hp
    · rw [h]
      refine hp.idle (.of_line hready rfl) fun m => ?_
      rw [task_spawn]
      split
      · rename_i hm
        exact .inr ⟨by simp [hm, p.deployment.task_of_size_le (Nat.le_refl _)], _, rfl⟩
      · exact .inl rfl
  | outage down =>
    obtain rfl : down = false := by
      cases down with
      | true => exact absurd rfl hu
      | false => rfl
    exact hp.idle_turn rfl rfl (Service.mute_available hready) fun m => .inl rfl
  | disconnect => exact hp.idle_turn rfl rfl (Service.mute_disconnect hready) fun m => .inl rfl

/-- **One step.** Whatever happens, what the play says stays so. -/
theorem move (hp : Sound room user p) {m : Move} (hm : m ≠ .turn (.outage true)) :
    Sound room user (p.move room user m) := by
  cases m with
  | call hub status =>
    have hmute : p.deployment.service.Mute (Activity.announce p.deployment.service hub room user status).2 :=
      .of_line hp.ready rfl
    exact hp.enter hmute ⟨Activity.tells_announce _ hub status rfl, fun r hr => by cases hr⟩ rfl rfl
  | turn u => exact hp.turn fun hu => hm (congrArg _ hu)

end Sound

/-! ### Every run -/

/-- So many hubs on one broker, before any call. -/
def start (base : Service) (hubs : Nat) : Play := { deployment := linked base hubs }

section Runs

variable (base : Service) (hubs : Nat) (room user : String) {ms : List Move}

theorem sound_start : Sound room user (start base hubs) where
  ready := (conducted_linked (P := fun _ => True) base hubs).ready
  calling := nofun
  only n := .inl (by simp [start, linked, vacant, task])
  distinct := .nil
  recorded := ⟨.nil, fun n => by simp [start, linked, vacant, task, hasRecorded]⟩
  told := ⟨.nil, fun n => by simp [start, linked, vacant, task, hasTold]⟩
  record := nofun
  unrecorded _ := rfl
  event := nofun

theorem sound_after (hup : ∀ m ∈ ms, m ≠ .turn (.outage true)) :
    Sound room user ((start base hubs).after room user ms) := by
  induction ms using List.reverseRecOn with
  | nil => exact sound_start base hubs room user
  | append_singleton ms m ih =>
    rw [Play.after_concat]
    exact (ih fun k hk => hup k (List.mem_append_left _ hk)).move (hup m (by simp))

end Runs

section Last

variable {room user : String} {p : Play}

/-- Where every call is over, each has come as far as a call that went well. -/
theorem Sound.perm (hp : Sound room user p) (hover : p.Returned) {far : Task → Bool} {ns : List TaskId}
    (hns : Marked far p.deployment ns) (hfar : ∀ k, far k = true → ∃ a, k = .activity a)
    (hok : far (.activity (.finished (.ok ()))) = true) : ns.Perm (p.calls.map (·.1)) := by
  refine (List.perm_ext_iff_of_nodup hns.nodup hp.distinct).mpr fun n => ?_
  rw [hns.mem_iff]
  constructor
  · intro h
    obtain ⟨a, ha⟩ := hfar _ h
    obtain ⟨status, hmem, -⟩ := hp.exists_call ha
    exact List.mem_map.mpr ⟨_, hmem, rfl⟩
  · intro h
    obtain ⟨c, hc, rfl⟩ := List.mem_map.mp h
    obtain ⟨a, ha, -, hfin⟩ := hp.calling c hc
    have hisOver := hover c hc
    rw [isOver, ha] at hisOver
    cases a with
    | finished r => rw [ha, hfin r rfl, hok]
    | _ => cases hisOver

theorem Sound.recorded_perm (hp : Sound room user p) (hover : p.Returned) : p.recorded.Perm (p.calls.map (·.1)) := by
  refine hp.perm hover hp.recorded (fun k hk => ?_) rfl
  cases k <;> first | exact ⟨_, rfl⟩ | cases hk

theorem Sound.told_perm (hp : Sound room user p) (hover : p.Returned) : p.told.Perm (p.calls.map (·.1)) := by
  refine hp.perm hover hp.told (fun k hk => ?_) rfl
  cases k <;> first | exact ⟨_, rfl⟩ | cases hk

/-- What happens without a further call only adds to who has come how far. -/
theorem after_of_no_call (room user : String) (p : Play) {ms : List Move}
    (h : ∀ m ∈ ms, ∀ hub status, m ≠ .call hub status) :
    (p.after room user ms).calls = p.calls ∧ p.recorded <+: (p.after room user ms).recorded ∧
      p.told <+: (p.after room user ms).told := by
  induction ms using List.reverseRecOn with
  | nil => exact ⟨rfl, List.prefix_refl _, List.prefix_refl _⟩
  | append_singleton ms m ih =>
    obtain ⟨hcalls, hrecorded, htold⟩ := ih fun k hk => h k (List.mem_append_left _ hk)
    rw [Play.after_concat]
    cases m with
    | call hub status => exact absurd rfl (h _ (by simp) hub status)
    | turn u =>
      exact ⟨hcalls, hrecorded.trans (List.prefix_append _ _), htold.trans (List.prefix_append _ _)⟩

theorem getLast?_of_perm {ns ms ks : List TaskId} {n : TaskId} (hp : ns <+: ms) (hns : ns.Perm ks)
    (hms : ms.Perm (ks ++ [n])) :
    ms.getLast? = some n := by
  obtain ⟨rest, rfl⟩ := hp
  have hrest : (ns ++ rest).Perm (ns ++ [n]) := hms.trans (hns.symm.append_right [n])
  rw [List.perm_append_left_iff, List.perm_singleton] at hrest
  rw [hrest]
  simp

end Last

/-- What is to be seen of a person's presence: the record is that of the call that stored it last, and reads so until it
expires, the latest event is that of the call that told it last, and where these are one call the two agree. -/
structure Agreement (room user : String) (p : Play) : Prop where
  /-- Every call stored its record once, and its event was accepted once. -/
  once : p.recorded.Perm (p.calls.map (·.1)) ∧ p.told.Perm (p.calls.map (·.1))
  record : ∀ n status, p.recorded.getLast? = some n → (n, status) ∈ p.calls → ∃ r : Broker.Record,
    p.deployment.service.broker.peek (presenceKey room user) = some r ∧ r.value = status ∧
      (readStatus p.deployment.service room user).1 = MemoryBroker.Record.live? r p.deployment.service.now
  event : ∀ n status, p.told.getLast? = some n → (n, status) ∈ p.calls →
    Latest room user status p.deployment.service.broker.accepted
  agree : p.recorded.getLast? = p.told.getLast? → ∀ status, (readStatus p.deployment.service room user).1 =
    some status →
    Latest room user status p.deployment.service.broker.accepted

/-- **The record and the events.** When any number of calls from any hubs on a broker that stays up are over, whatever
the order of their steps, the record and the latest event are those of the calls that came last in each, and agree where
one call was last in both. That is so if the last call was made after the others were over. -/
theorem record_and_events_agree (base : Service) (hubs : Nat) (room user : String) (ms : List Move)
    (hup : ∀ m ∈ ms, m ≠ .turn (.outage true)) (hover : ((start base hubs).after room user ms).Returned) :
    Agreement room user ((start base hubs).after room user ms) ∧
      ∀ before hub status later, ms = before ++ .call hub status :: later →
        (∀ m ∈ later, ∀ hub status, m ≠ .call hub status) → ((start base hubs).after room user before).Returned →
        ((start base hubs).after room user ms).recorded.getLast? =
          ((start base hubs).after room user ms).told.getLast? := by
  have hp := sound_after base hubs room user hup
  refine ⟨⟨⟨hp.recorded_perm hover, hp.told_perm hover⟩, fun n status hn hmem => ?_, fun n status hn hmem => ?_,
    fun hlast status hread => ?_⟩, ?_⟩
  · obtain ⟨r, hr, hmem'⟩ := hp.record n hn
    refine ⟨r, hr, hp.status_unique hmem' hmem, ?_⟩
    rw [Service.readStatus_fst hp.ready, hr]
    rfl
  · obtain ⟨status', hmem', hl⟩ := hp.event n hn
    exact hp.status_unique hmem' hmem ▸ hl
  · rw [Service.readStatus_fst hp.ready] at hread
    cases hn : ((start base hubs).after room user ms).recorded.getLast? with
    | none =>
      rw [hp.unrecorded (List.getLast?_eq_none_iff.mp hn)] at hread
      cases hread
    | some n =>
      obtain ⟨r, hr, hmem⟩ := hp.record n hn
      obtain ⟨status', hmem', hl⟩ := hp.event n (hlast ▸ hn)
      rw [hr, Option.bind_some, MemoryBroker.Record.live?] at hread
      split at hread
      · cases hread
        exact hp.status_unique hmem' hmem ▸ hl
      · cases hread
  · rintro before hub status later rfl hlater hbefore
    have hq : Sound room user ((start base hubs).after room user before) :=
      sound_after base hubs room user fun m hm => hup m (List.mem_append_left _ hm)
    have hafter : (start base hubs).after room user (before ++ .call hub status :: later) =
        (((start base hubs).after room user before).move room user (.call hub status)).after room user later := by
      simp [Play.after]
    obtain ⟨hcalls, hrecorded, htold⟩ := after_of_no_call room user
      (((start base hubs).after room user before).move room user (.call hub status)) hlater
    rw [← hafter] at hcalls hrecorded htold
    have hmap : (((start base hubs).after room user (before ++ .call hub status :: later)).calls.map (·.1)) =
        ((start base hubs).after room user before).calls.map (·.1) ++
          [((start base hubs).after room user before).deployment.tasks.size] := by
      rw [hcalls]
      simp [Play.move, spawn]
    have hrecordedPerm := hp.recorded_perm hover
    have htoldPerm := hp.told_perm hover
    rw [hmap] at hrecordedPerm htoldPerm
    rw [getLast?_of_perm hrecorded (hq.recorded_perm hbefore) hrecordedPerm,
      getLast?_of_perm htold (hq.told_perm hbefore) htoldPerm]

def stepsOf (n : TaskId) (count : Nat) : List Move := List.replicate count (.turn (.step n {}))

/-- Two hubs are called one after the other. -/
def inTurn : List Move := [.call 0 (some "away")] ++ stepsOf 0 2 ++ [.call 1 (some "busy")] ++ stepsOf 1 2

theorem record_and_events_agree_inTurn :
    (readStatus ((start {} 2).after "r" "ann" inTurn).deployment.service "r" "ann").1 = some "busy" ∧
      Latest "r" "ann" "busy" ((start {} 2).after "r" "ann" inTurn).deployment.service.broker.accepted := by
  have hread : (readStatus ((start {} 2).after "r" "ann" inTurn).deployment.service "r" "ann").1 = some "busy" := by
    decide +kernel
  obtain ⟨h, hlast⟩ := record_and_events_agree {} 2 "r" "ann" inTurn (by simp [inTurn, stepsOf]) (by decide +kernel)
  refine ⟨hread,
    h.agree (hlast ([.call 0 (some "away")] ++ stepsOf 0 2) 1 (some "busy") (stepsOf 1 2) rfl ?_ ?_) _ hread⟩
  · simp [stepsOf]
  · decide +kernel

/-- Two hubs are called at the same time, and the call that stores its record first tells of it last. -/
def crossed : List Move :=
  [.call 0 (some "away"), .call 1 (some "busy")] ++ stepsOf 0 1 ++ stepsOf 1 2 ++ stepsOf 0 1

/-- Both calls are over, the record says one thing and the latest event another. -/
theorem record_and_events_differ :
    (∀ m ∈ crossed, m ≠ .turn (.outage true)) ∧ ((start {} 2).after "r" "ann" crossed).Returned ∧
      (readStatus ((start {} 2).after "r" "ann" crossed).deployment.service "r" "ann").1 = some "busy" ∧
      Latest "r" "ann" "away" ((start {} 2).after "r" "ann" crossed).deployment.service.broker.accepted ∧
      ¬ Latest "r" "ann" "busy" ((start {} 2).after "r" "ann" crossed).deployment.service.broker.accepted := by
  have haway : Latest "r" "ann" "away" ((start {} 2).after "r" "ann" crossed).deployment.service.broker.accepted :=
    latest_of_getLast? (by decide +kernel) ⟨{ micros := 1 }, rfl⟩
  refine ⟨by simp [crossed, stepsOf], by decide +kernel, by decide +kernel, haway, fun hbusy => ?_⟩
  exact absurd (latest_unique haway hbusy) (by decide)

end Updates

end Parley
