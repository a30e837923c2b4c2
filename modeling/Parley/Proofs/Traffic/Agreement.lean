import Mathlib.Data.List.Nodup
import Parley.Proofs.Traffic.Abreast
import Parley.Proofs.Traffic.Calm

/-!
Agreement without faults: when every hub subscribes before the first call and nobody lags, all
connections of a room, on whichever hub, end with the same frames in the same order, that in which the
broker took the events.
-/

namespace Parley

open Hub Deployment

theorem Traffic.Filed.nodup {v : Traffic} (hv : v.Filed) (f : Nat) : (v.origins f).Nodup := by
  rw [List.nodup_iff_getElem?_ne_getElem?]
  intro i j hij hj h
  have hi := List.getElem?_eq_getElem (l := v.origins f) hj
  exact absurd (hv.once f i f j _ (h.trans hi) hi).2 (Nat.ne_of_lt hij)

theorem MemoryBroker.hasNext_eq_false {b : MemoryBroker} {n : Nat} {s : Broker.Subscription}
    (hs : b.subscriptions[n]? = some s)
    (hd : s.dropped = false) (h : b.hasNext n = false) (i : Nat) (hi : i < (b.feed s.feed).size)
    (hle : max s.position (oldest (b.feed s.feed).size) ≤ i) :
    s.patterns.any (·.accepts (b.feed s.feed)[i].channel) = false := by
  refine (seek_spec (b.feed s.feed) s.patterns _).2 i hi hle ?_
  unfold hasNext receive at h
  rw [hs] at h
  simp only [hd, Bool.false_eq_true, if_false] at h
  split at h
  · rename_i h'
    split at h'
    · cases h'
    · rename_i hnone
      exact Nat.lt_of_lt_of_le hi (Array.getElem?_eq_none_iff.1 hnone)
  · cases h

/-- The subscriber of a hub that reads its subscription. -/
def Task.reads (hub : Nat) : Task → Bool
  | .subscriber { hub := h, state := .listening .., .. } => h == hub
  | _ => false

def Task.hasReturned : Task → Bool
  | .activity a => a.result?.isSome
  | _ => true

/-- A subscriber that has nothing to read. -/
def Task.hasDrained (b : MemoryBroker) : Task → Bool
  | .subscriber x =>
    match x.state with
    | .listening k _ => !b.hasNext k
    | _ => false
  | _ => true

theorem Task.reads_iff {t : Task} {hub : Nat} :
    t.reads hub = true ↔ ∃ x k r, t = .subscriber x ∧ x.hub = hub ∧ x.state = .listening k r := by
  constructor
  · intro h
    unfold reads at h
    split at h
    · exact ⟨_, _, _, rfl, by simpa using h, rfl⟩
    · cases h
  · rintro ⟨⟨h, delay, state⟩, k, r, rfl, rfl, rfl⟩
    simp [reads]

theorem Task.listening_of_hasDrained {x : Subscriber} {b : MemoryBroker} (h : (Task.subscriber x).hasDrained b = true) :
    ∃ k r, x.state = .listening k r ∧ b.hasNext k = false := by
  obtain ⟨hub, delay, state⟩ := x
  cases state with
  | listening k r => exact ⟨k, r, rfl, by simpa [hasDrained] using h⟩
  | _ => cases h

theorem Deployment.mem_tasks {y : Deployment} {t : Task} : t ∈ y.tasks → ∃ n, y.task n = t := by
  intro h
  obtain ⟨n, hn, rfl⟩ := Array.getElem_of_mem h
  exact ⟨n, by simp [Deployment.task, hn]⟩

theorem Deployment.task_mem {y : Deployment} {n : TaskId} (h : y.task n ≠ .done) : y.task n ∈ y.tasks := by
  have hn := y.lt_of_task_ne h
  simp [Deployment.task, hn]

namespace Ledger

variable {l : Ledger}

/-- Some task is the subscriber of a hub and reads its subscription. -/
def Subscribed (l : Ledger) (hub : Nat) : Prop := ∃ t ∈ l.deployment.tasks, t.reads hub = true

/-- No subscription has more messages before it than are kept for it. -/
def KeepsUp (l : Ledger) : Prop :=
  ∀ s ∈ l.service.broker.subscriptions, (l.service.broker.feed s.feed).size ≤ s.position + Broker.capacity

/-- A hub lists a connection in a room, and the queue of the connection is not full. -/
def Attends (l : Ledger) (c : ConnId) (hub : Nat) (room : String) : Prop :=
  c ∈ (l.service.registry hub).snapshot room ∧ (l.service.connection c).queue.length < Connection.capacity

def Returned (l : Ledger) : Prop := ∀ t ∈ l.deployment.tasks, t.hasReturned = true

def Drained (l : Ledger) : Prop := ∀ t ∈ l.deployment.tasks, t.hasDrained l.service.broker = true

instance (hub : Nat) : Decidable (l.Subscribed hub) := by unfold Subscribed; infer_instance
instance : Decidable l.KeepsUp := by unfold KeepsUp; infer_instance
instance (c : ConnId) (hub : Nat) (room : String) : Decidable (l.Attends c hub room) := by
  unfold Attends; infer_instance
instance : Decidable l.Returned := by unfold Returned; infer_instance
instance : Decidable l.Drained := by unfold Drained; infer_instance

/-! ### Runs -/

theorem run_append (l : Ledger) (ms ns : List Move) : l.run (ms ++ ns) = (l.run ms).run ns := List.foldl_append

theorem posts_apply {m : Move} {p : TaskId} {q : Post} (h : (l.apply m).posts p = some q) :
    l.posts p = some q ∨ m = .publish q := by
  cases m with
  | publish post =>
    by_cases hp : p = l.deployment.tasks.size
    · subst hp
      cases (Function.update_self ..).symm.trans h
      exact .inr rfl
    · exact .inl ((Function.update_of_ne hp ..).symm.trans h)
  | turn t => cases t <;> exact .inl h
  | connect => exact .inl h
  | register => rw [apply] at h; split at h <;> exact .inl h
  | deregister => exact .inl h
  | close => rw [apply] at h; split at h <;> exact .inl h

theorem posts_run {ms : List Move} {p : TaskId} {q : Post} (h : (l.run ms).posts p = some q) :
    l.posts p = some q ∨ .publish q ∈ ms := by
  induction ms generalizing l with
  | nil => exact .inl h
  | cons m ms ih =>
    rcases ih h with h | h
    · rcases posts_apply h with h | rfl
      · exact .inl h
      · exact .inr List.mem_cons_self
    · exact .inr (List.mem_cons_of_mem _ h)

theorem calm_run (hl : Sound l) (hc : Calm l) {ms : List Move} (h : ∀ m ∈ ms, m.isCalm = true) : Calm (l.run ms) := by
  induction ms generalizing l with
  | nil => exact hc
  | cons m ms ih =>
    exact ih (hl.of_follows (follows_apply hl m)) (hc.apply hl (h m List.mem_cons_self)) fun m' hm' =>
      h m' (List.mem_cons_of_mem _ hm')

/-- A connection that attends a room takes every frame there. -/
theorem Attends.takes (hl : Sound l) {c : ConnId} {hub : Nat} {room : String} (h : l.Attends c hub room) :
    l.view.room c = room ∧ c ∈ l.view.members (l.view.home c) (l.view.room c) ∧ l.service.Takes c := by
  obtain ⟨hc, hq⟩ := h
  obtain ⟨-, rfl, rfl⟩ := hl.delivered.member hub room c hc
  exact ⟨rfl, hc, hl.listed _ _ c hc, hq⟩

/-- Before the first call a connection of a hub that has subscribed is abreast. -/
theorem abreast_of_subscribed (hl : Sound l) (hc : Calm l) (hposts : ∀ p, l.posts p = none) {c : ConnId}
    (hs : l.Subscribed (l.home c)) : l.view.Abreast c := by
  obtain ⟨t, hmem, hreads⟩ := hs
  obtain ⟨x, k, r, rfl, hub, hx⟩ := Task.reads_iff.1 hreads
  obtain ⟨n, ht⟩ := mem_tasks hmem
  have hk : x.held? = some k := by rw [Subscriber.held?, hx]
  have htask : l.view.task n = .subscriber x := view_task ht
  obtain ⟨s, hsub, -, hfeed, -⟩ := hl.filed.reads n x k htask hk
  have hor : l.view.origins l.view.current = [] := by
    refine List.eq_nil_iff_forall_not_mem.2 fun p hp => ?_
    obtain ⟨i, hi⟩ := List.getElem?_of_mem hp
    obtain ⟨-, -, q, text, hq, -⟩ := hl.filed.placed _ i p hi
    rw [show l.view.posts p = none from hposts p] at hq
    cases hq
  have hacc : l.view.accepted c = [] :=
    List.eq_nil_iff_forall_not_mem.2 fun p hp => hl.delivered.known c p hp (hposts p)
  refine ⟨n, x, k, s, htask, hub, hk, hsub, ?_, ?_⟩
  · rw [hc.current] at hfeed ⊢
    exact Nat.le_zero.1 hfeed
  · rw [hacc, hor, hx, List.take_nil]
    rfl

/-- One move keeps a connection abreast that attends its room. -/
theorem abreast_apply (hl : Sound l) (hc : Calm l) {m : Move} (hm : m.isCalm = true)
    (hrooms : ∀ p q, l.posts p = some q → q.room ≠ "")
    (hkeeps : l.KeepsUp) {c : ConnId} {hub : Nat} {room : String} (ha : l.Attends c hub room) (hab : l.view.Abreast c) :
    (l.apply m).view.Abreast c := by
  obtain ⟨-, hmem, htakes⟩ := ha.takes hl
  refine hab.change hl.filed hl.delivered ⟨hc.brokered hl, hrooms, fun k s hs => ?_⟩
    (follows_apply hl m).change ?_ hmem htakes
  · rw [show (l.view.origins s.feed).length = (l.service.broker.feed s.feed).size from (size_feed hl s.feed).symm]
    exact hkeeps s (Array.mem_of_getElem? hs)
  · rw [hc.current, (hc.apply hl hm).current]

/-- A connection that is abreast when everyone has read everything has the frames of all calls for its room. -/
theorem accepted_of_drained (hl : Sound l) (hc : Calm l) (hkeeps : l.KeepsUp) (hd : l.Drained) {c : ConnId}
    (ha : l.view.Abreast c) :
    l.accepted c = l.view.forRoom c (l.origins 0) := by
  obtain ⟨n, x, k, s, hr⟩ := ha
  have htask : l.deployment.task n = .subscriber x := by
    have h : (l.deployment.task n).carrier = .subscriber x := hr.task
    cases ht : l.deployment.task n <;> rw [ht] at h <;> cases h
    rfl
  have hdrained : (Task.subscriber x).hasDrained l.service.broker = true :=
    htask ▸ hd _ (task_mem (by rw [htask]; simp))
  obtain ⟨k', r, hx, hnext⟩ := Task.listening_of_hasDrained hdrained
  have hk := hr.held
  rw [Subscriber.held?, hx] at hk
  cases hk
  obtain ⟨q, hq, ⟨hlive, hpat⟩, -⟩ := hl.filed.reads n x k hr.task hr.held
  have hsub : l.service.broker.subscriptions[k]? = some s := hr.subscription
  rw [show l.view.subscription k = some s from hsub] at hq
  cases hq
  have hfeed : s.feed = 0 := hr.feed.trans hc.current
  -- a message behind the place would be asked for
  have hall : (l.origins 0).length ≤ s.position := by
    by_contra hlt
    have hsize : s.position < (l.service.broker.feed s.feed).size := by rw [size_feed hl, hfeed]; omega
    have hle : max s.position (MemoryBroker.oldest (l.service.broker.feed s.feed).size) ≤ s.position := by
      have := hkeeps s (Array.mem_of_getElem? hsub)
      unfold MemoryBroker.oldest
      omega
    have hno := MemoryBroker.hasNext_eq_false hsub hlive hnext s.position hsize hle
    obtain ⟨p, hp, hmsg⟩ := (getElem?_feed hl).1 (Array.getElem?_eq_getElem hsize)
    obtain ⟨-, -, post, text, hpost, -⟩ := hl.filed.placed _ _ p hp
    obtain ⟨globs, hglobs, hcover⟩ := Subscriber.patterns_spec
    rw [hpat] at hglobs
    cases hglobs
    have hchan : (l.view.message p).channel = post.category.channel post.room := by
      simp [Traffic.message, hpost, Post.message]
    rw [← hmsg, hchan, hcover] at hno
    cases hno
  have hacc := hr.accepted
  rw [hx, hc.current, show l.view.origins 0 = l.origins 0 from rfl, List.take_of_length_le hall] at hacc
  exact (List.append_nil _).symm.trans hacc

/-! ### One order -/

/-- Along a run without faults a connection that attends its room stays abreast. -/
theorem abreast_run (hl : Sound l) (hc : Calm l) {ms : List Move} (hcalm : ∀ m ∈ ms, m.isCalm = true)
    (hposts : ∀ p, l.posts p = none)
    (hrooms : ∀ post, .publish post ∈ ms → post.room ≠ "") {c : ConnId} {hub : Nat} {room : String}
    (hkeeps : ∀ i ≤ ms.length, (l.run (ms.take i)).KeepsUp)
    (ha : ∀ i ≤ ms.length, (l.run (ms.take i)).Attends c hub room)
    (hab : l.view.Abreast c) (i : Nat) (hi : i ≤ ms.length) : (l.run (ms.take i)).view.Abreast c := by
  induction i with
  | zero => exact hab
  | succ i ih =>
    have htake : ms.take (i + 1) = ms.take i ++ [ms[i]] := by
      rw [List.take_add_one, List.getElem?_eq_getElem hi]
      rfl
    have hmem : ∀ m ∈ ms.take i, m ∈ ms := fun m hm => List.mem_of_mem_take hm
    rw [htake, run_append]
    refine abreast_apply (sound_run hl _) (calm_run hl hc fun m hm => hcalm m (hmem m hm))
      (hcalm _ (List.getElem_mem hi)) ?_
      (hkeeps i (Nat.le_of_succ_le hi)) (ha i (Nat.le_of_succ_le hi)) (ih (Nat.le_of_succ_le hi))
    intro p q hq
    rcases posts_run hq with h | h
    · rw [hposts] at h; cases h
    · exact hrooms q (hmem _ h)

/-- **Agreement without faults.** There is one order of all calls whose events have a text, that in
which the broker took them: every connection that was in a room throughout, on whichever hub, and whose
queue never filled has accepted the texts of the calls for its room in this order, and nothing else. -/
theorem accepted_in_one_order (base : Service) (hubs : Nat) (before after : List Move)
    (calm : ∀ m ∈ before ++ after, m.isCalm = true)
    (first : ∀ post, .publish post ∉ before)
    (rooms : ∀ post, .publish post ∈ after → post.room ≠ "")
    (subscribed : ∀ hub < ((start base hubs).run before).service.hubs.size,
      ((start base hubs).run before).Subscribed hub)
    (keepsUp : ∀ i ≤ after.length, ((start base hubs).run (before ++ after.take i)).KeepsUp)
    (returned : ((start base hubs).run (before ++ after)).Returned)
    (drained : ((start base hubs).run (before ++ after)).Drained) :
    let l := (start base hubs).run (before ++ after)
    ∃ order : List TaskId, order.Nodup ∧ (l.service.broker.feed 0).toList = order.map l.view.message ∧
      (∀ p, p ∈ order ↔ ∃ post text, l.posts p = some post ∧ post.event = .ok text) ∧
      ∀ c hub room, (∀ i ≤ after.length, ((start base hubs).run (before ++ after.take i)).Attends c hub room) →
        (l.service.connection c).accepted = (order.filter fun p => l.view.roomOf p = room).map l.view.text := by
  intro l
  have hl₀ : Sound ((start base hubs).run before) := sound_run (sound_start base hubs) before
  have hc₀ : Calm ((start base hubs).run before) :=
    calm_run (sound_start base hubs) (calm_start base hubs) fun m hm => calm m (List.mem_append_left _ hm)
  have hl : Sound l := sound_run (sound_start base hubs) _
  have hc : Calm l := calm_run (sound_start base hubs) (calm_start base hubs) calm
  have hnone : ∀ p, ((start base hubs).run before).posts p = none := by
    intro p
    cases hp : ((start base hubs).run before).posts p with
    | none => rfl
    | some q =>
      rcases posts_run hp with h | h
      · cases h
      · exact absurd h (first q)
  have hlast : l = ((start base hubs).run before).run (after.take after.length) := by
    rw [List.take_length, ← run_append]
  refine ⟨l.origins 0, hl.filed.nodup 0, hl.feed 0, fun p => ⟨fun hp => ?_, ?_⟩, fun c hub room ha => ?_⟩
  · obtain ⟨i, hi⟩ := List.getElem?_of_mem hp
    exact (hl.filed.placed 0 i p hi).2.2
  · rintro ⟨post, text, hpost, he⟩
    rcases hc.settled p post hpost with ⟨i, h⟩ | ⟨-, h⟩
    · have hret := returned _ (task_mem (y := l.deployment) (n := p) (by rw [h]; simp))
      rw [h] at hret
      cases hret
    · exact h text he
  · simp only [run_append] at ha keepsUp
    obtain ⟨hmem, -⟩ := ha 0 (Nat.zero_le _)
    have hhome := (hl₀.delivered.member hub room c hmem).2.1
    -- a hub that lists someone is there, and has subscribed
    have hlt : hub < ((start base hubs).run before).service.hubs.size := by
      by_contra h
      have hreg := Service.registry_of_size_le _ (Nat.le_of_not_lt h)
      have hmem : c ∈ (((start base hubs).run before).service.registry hub).snapshot room := hmem
      rw [hreg] at hmem
      cases hmem
    have hsubs : ((start base hubs).run before).Subscribed (((start base hubs).run before).home c) := by
      rw [show ((start base hubs).run before).home c = hub from hhome]
      exact subscribed hub hlt
    have hab := abreast_of_subscribed hl₀ hc₀ hnone hsubs
    have hend := abreast_run hl₀ hc₀ (fun m hm => calm m (List.mem_append_right _ hm)) hnone rooms keepsUp ha hab
        after.length (Nat.le_refl _)
    have hkeeps := keepsUp after.length (Nat.le_refl _)
    have hattends := ha after.length (Nat.le_refl _)
    rw [← hlast] at hend hkeeps hattends
    have hframes := hl.delivered.frames c
    rw [show l.view.accepted c = _ from accepted_of_drained hl hc hkeeps drained hend, Traffic.forRoom,
      (hattends.takes hl).1] at hframes
    exact hframes

/-- Two hubs with one connection each in the same room, both subscribed. -/
def twoHubs : List Move :=
  [.connect 0 "r" "ann" fun _ => .taken, .connect 1 "r" "bob" fun _ => .taken, .register 0, .register 1,
    .turn (.listen 0), .turn (.listen 1), .turn (.step 2 {}), .turn (.step 3 {})]

/-- Three calls, the second taken first and the last for another room, which both hubs then pass on. -/
def threeCalls : List Move :=
  [.publish ⟨0, "r", .messages, .ok "first"⟩, .publish ⟨1, "r", .events, .ok "second"⟩,
    .publish ⟨1, "s", .presence, .ok "third"⟩, .turn (.step 5 {}), .turn (.step 4 {}), .turn (.step 6 {})] ++
    (List.replicate 14 [.turn (.step 2 {}), .turn (.step 3 {})]).flatten

/-- Two connections on two hubs accept the same two frames in the broker's order. -/
theorem accepted_in_one_order_of_twoHubs :
    let l := (start {} 2).run (twoHubs ++ threeCalls)
    ∃ order : List TaskId, order.Nodup ∧ (∀ c < 2, (l.service.connection c).accepted = ["second", "first"]) ∧
      ∀ c < 2, (l.service.connection c).accepted = (order.filter fun p => l.view.roomOf p = "r").map l.view.text := by
  intro l
  obtain ⟨order, hnodup, -, -, hacc⟩ := accepted_in_one_order {} 2 twoHubs threeCalls (by decide +kernel)
    (by intro post h; simp [twoHubs] at h)
    (by intro post h; simp [threeCalls] at h; rcases h with rfl | rfl | rfl <;> decide)
    (by decide +kernel) (by decide +kernel) (by decide +kernel) (by decide +kernel)
  refine ⟨order, hnodup, by decide +kernel, fun c hc => hacc c c "r" ?_⟩
  have hattends : ∀ c < 2, ∀ i ≤ threeCalls.length,
      ((start {} 2).run (twoHubs ++ threeCalls.take i)).Attends c c "r" := by decide +kernel
  exact hattends c hc

end Ledger

end Parley
