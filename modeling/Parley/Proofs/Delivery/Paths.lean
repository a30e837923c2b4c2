import Parley.Proofs.Delivery.Relayed
import Parley.Proofs.Policy

/-!
# Three ways to the same connections

An event for a room reaches the connections of a hub directly, where there is no broker; as the last resort of a
publish of which every attempt failed; or through the broker and the hub's own subscription.

* `directly`, `at_last` and `accepted_only` are about every course of a publish, by what the broker makes of it.
* `exists_directly`, `exists_at_last` and `exists_accepted` show that there are such courses.
* `paths_agree` puts them together with what is known of the subscription.
-/

namespace Parley

open Hub

namespace Service

/-- Something happens beside an activity, perhaps to the broker, but the hubs and the connections stay. -/
structure Aside (s t : Service) : Prop where
  same : s.SameHubs t
  broker : t.hasBroker = s.hasBroker
  policy : t.policy = s.policy

theorem settled_aside : Activity.Settled Aside := fun _ _ h => ⟨h.broker, h.policy⟩

theorem Passes.aside {s t : Service} (h : s.Passes t) : s.Aside t := by
  obtain ⟨now, rfl⟩ := h
  exact ⟨⟨rfl, rfl⟩, rfl, rfl⟩

end Service

namespace Hub.Activity

open Service

variable {s t u : Service} {hub : Nat} {room text : String} {category : Category} {ds : List Deed}
  {r : Except PublishError Unit}

/-! ### The ways of a publish -/

theorem publish_deeds (h : Course Aside s (publish hub room category (.ok text)) ds (.finished r) t) :
    if s.hasBroker then Published s.policy ⟨hub, room, category, .ok text⟩ text 1 ds r
    else ds = [.broadcast hub room (some text)] ∧ r = .ok () := by
  have he : (⟨hub, room, category, .ok text⟩ : Post).event = .ok text := rfl
  exact course_deeds settled_aside he h rfl

theorem publish_effect (h : Course Aside s (publish hub room category (.ok text)) ds (.finished r) t) :
    (ds.foldl Deed.apply s).SameHubs t :=
  course_effect (fun _ _ h => h.same) h

theorem directly (hs : s.Listing hub room) (hb : s.hasBroker = false)
    (h : Course Aside s (publish hub room category (.ok text)) ds (.finished r) t) :
    r = .ok () ∧ s.Heard hub room text t := by
  have hdeeds := publish_deeds h
  rw [hb] at hdeeds
  obtain ⟨rfl, hr⟩ := hdeeds
  exact ⟨hr, (broadcast_heard hs).2.of_sameHubs (publish_effect h)⟩

def Refused (ds : List Deed) : Prop := ∀ c o, .call c o ∈ ds → o ≠ .ok ()

theorem refused_cons {c : Broker.Call} {e : Broker.Error} (h : Refused ds) : Refused (.call c (.error e) :: ds) := by
  intro c' o hmem
  rcases List.mem_cons.mp hmem with heq | hmem
  · cases heq
    nofun
  · exact h c' o hmem

theorem refused_begins (a : Activity) : Refused a.begins := by
  unfold begins
  split <;> simp [Refused]

/-- Where every attempt fails the last deed is a delivery, unless a delay cannot be waited for. -/
theorem Published.failing {p : RetryPolicy} {post : Post} {n : UInt32} (h : Published p post text n ds r)
    (hds : Refused ds) (s : Service) :
    (∃ e, r = .error (.exhausted p.maxAttempts e) ∧
      ds.foldl Deed.apply s = (s.broadcast post.hub post.room (some text)).2) ∨
      r = .error .unending ∧ ds.foldl Deed.apply s = s ∧ ¬ p.Waits := by
  induction h with
  | accepted n => exact absurd rfl (hds _ _ List.mem_cons_self)
  | exhausted n e hn => exact .inl ⟨e, rfl, rfl⟩
  | again n e hn rest ih => exact ih fun c o h => hds c o (List.mem_cons_of_mem _ h)
  | unending n e hn draw hd => exact .inr ⟨rfl, rfl, fun hw => hw n draw hn hd⟩

/-- With a broker of which every attempt fails the event goes to the connections at last. -/
theorem at_last (hs : s.Listing hub room) (hb : s.hasBroker = true)
    (h : Course Aside s (publish hub room category (.ok text)) ds (.finished r) t) (hds : Refused ds) :
    (∃ e, r = .error (.exhausted s.policy.maxAttempts e)) ∧ s.Heard hub room text t ∨
      r = .error .unending ∧ s.SameHubs t ∧ ¬ s.policy.Waits := by
  have hdeeds := publish_deeds h
  have heffect := publish_effect h
  rw [hb] at hdeeds
  rcases Published.failing hdeeds hds s with ⟨e, hr, heq⟩ | ⟨hr, heq, hw⟩ <;> rw [heq] at heffect
  · exact .inl ⟨⟨e, hr⟩, (broadcast_heard hs).2.of_sameHubs heffect⟩
  · exact .inr ⟨hr, heffect, hw⟩

theorem Published.of_ok {p : RetryPolicy} {post : Post} {n : UInt32} (h : Published p post text n ds (.ok ()))
    (s : Service) :
    ds.foldl Deed.apply s = s := by
  generalize hr : Except.ok () = r at h
  induction h with
  | accepted n => rfl
  | again n e hn rest ih => exact ih hr
  | exhausted | unending => cases hr

theorem accepted_only (hb : s.hasBroker = true)
    (h : Course Aside s (publish hub room category (.ok text)) ds (.finished (.ok ())) t) : s.SameHubs t := by
  have hdeeds := publish_deeds h
  rw [hb] at hdeeds
  have heffect := publish_effect h
  rwa [Published.of_ok hdeeds s] at heffect

/-! ### Every way comes to an end -/

section Ends

variable {E : Service → Service → Prop} {a a' b : Activity}

/-- A step that makes no call. -/
theorem Course.quietly {choice : Choice} (h : a.step s choice = some (a', t)) (hl : t.line = s.line)
    (rest : Course E t a' ds b u) : Course E s a (a.begins ++ ds) b u := by
  have hown := Course.own choice h rest
  rwa [calls_of_line hl, List.append_nil] at hown

theorem begins_of_step {f f' : Fanout} (h : Fanout.Step s f f' t) (r : Except PublishError Unit) :
    begins (.delivering f' r) = [] := by
  cases h <;> rfl

theorem exists_delivered (E : Service → Service → Prop) (s : Service) (f : Fanout) (r : Except PublishError Unit) :
    ∃ t, Course E s (.delivering f r) (begins (.delivering f r)) (.finished r) t := by
  refine Fanout.induct_step
    (P := fun s f => ∃ t, Course E s (.delivering f r) (begins (.delivering f r)) (.finished r) t)
    (fun s k => ?_) (fun s f hf ih => ?_) s f
  · refine ⟨s, ?_⟩
    have hdo : (Activity.delivering (.done k) r).step s {} = some (.finished r, s) := rfl
    exact Course.quietly hdo rfl (.refl s (.finished r))
  · obtain ⟨t, ht⟩ := ih
    have hstep := Fanout.step_spec s f hf
    have hdo : (Activity.delivering f r).step s {} = some (.delivering (f.step s).1 r, (f.step s).2) := by
      cases f with
      | done k => exact absurd rfl (hf k)
      | _ => rfl
    have hcourse := Course.quietly hdo hstep.line ht
    rw [begins_of_step hstep, List.append_nil] at hcourse
    exact ⟨t, hcourse⟩

theorem exists_directly (E : Service → Service → Prop) (hb : s.hasBroker = false) :
    ∃ ds t, Course E s (publish hub room category (.ok text)) ds (.finished (.ok ())) t := by
  have hl : s.line = none := Option.isSome_eq_false_iff.mp hb |> Option.isNone_iff_eq_none.mp
  obtain ⟨t, ht⟩ := exists_delivered E s (.listing hub room (some text)) (.ok ())
  refine ⟨_, t, .own {} ?_ ht⟩
  simp [publish, step, attempt, hl, Post.fanout, Except.toOption]

/-- Every call on the broker reaches it, and it is there or not. -/
structure Reaches (s : Service) (up : Bool) : Prop where
  line : ∃ l, s.line = some l ∧ l.plans = [] ∧ l.broker.available = up

/-- An attempt on a line that nothing disturbs is accepted where the broker is there, and fails where it is not. -/
theorem step_of_reaches (post : Post) (he : post.event = .ok text) {up : Bool} (h : Reaches s up) (n : UInt32) :
    ∃ t, Reaches t up ∧ t.policy = s.policy ∧
      step s {} (.attempting post n) =
        some (afterAttempt s post n 0 (if up then .ok () else .error Broker.unavailable), t) ∧
      calls s t = [.call (.publish (post.message text)) (if up then .ok () else .error Broker.unavailable)] := by
  obtain ⟨l, hl, hp, ha⟩ := h.line
  obtain ⟨hfst, hbroker, hplans⟩ :=
    l.call_of_plans_nil s.now (.publish (post.message text)) (·.publish (post.message text)) hp
  have ho : (l.publish s.now (post.message text)).1 = if up then .ok () else .error Broker.unavailable := by
    refine hfst.trans ?_
    cases up <;> simp [MemoryBroker.publish, ha]
  refine ⟨{ s with line := some (l.publish s.now (post.message text)).2 }, ⟨_, rfl, hplans, ?_⟩, rfl, ?_, ?_⟩
  · exact (congrArg (·.available) hbroker).trans ((MemoryBroker.publish_available _).trans ha)
  · rw [step, attempt_eq hl he, ho]
  · rw [calls_publish hl, ho]

/-- With a broker that is there the first attempt is accepted. -/
theorem exists_accepted (E : Service → Service → Prop) (hub : Nat) (room : String) (category : Category) (text : String)
    (h : Reaches s true) :
    ∃ ds t, Course E s (publish hub room category (.ok text)) ds (.finished (.ok ())) t ∧ Reaches t true := by
  obtain ⟨t, ht, -, hstep, -⟩ := step_of_reaches ⟨hub, room, category, .ok text⟩ rfl h 1
  exact ⟨_, t, .own {} hstep (.refl _ _), ht⟩

theorem Course.refused {post : Post} (he : post.event = .ok text) {n : UInt32} {a : Activity}
    {r : Except PublishError Unit}
    (h : Reaches s false) (ha : afterAttempt s post n 0 (.error Broker.unavailable) = a)
    (rest : ∀ t, Reaches t false → t.policy = s.policy → ∃ ds u, Course E t a ds (.finished r) u ∧ Refused ds) :
    ∃ ds u, Course E s (.attempting post n) ds (.finished r) u ∧ Refused ds := by
  obtain ⟨t, hreaches, hpolicy, hstep, hcalls⟩ := step_of_reaches post he h n
  obtain ⟨ds, u, hcourse, hds⟩ := rest t hreaches hpolicy
  have hown := Course.own {} (hstep.trans (congrArg (fun a => some (a, t)) ha)) hcourse
  rw [hcalls] at hown
  exact ⟨_, u, hown, refused_cons hds⟩

/-- After a failed attempt comes a delivery or, where the delay can be waited for, another attempt. -/
theorem afterAttempt_waits {s : Service} (hw : s.policy.Waits) (post : Post) (n : UInt32) (e : Broker.Error) :
    if s.policy.maxAttempts ≤ n
      then afterAttempt s post n 0 (.error e) = .delivering post.fanout (.error (.exhausted s.policy.maxAttempts e))
      else ∃ instant, afterAttempt s post n 0 (.error e) = .pausing post (n + 1) instant := by
  unfold afterAttempt
  rw [next_error]
  by_cases hn : s.policy.maxAttempts ≤ n
  · rw [if_pos hn, if_pos hn]
  · obtain ⟨delay, hdelay⟩ := Option.ne_none_iff_exists'.mp (hw n 0 hn)
    rw [if_neg hn, if_neg hn, hdelay]
    exact ⟨_, rfl⟩

theorem left_succ {p : RetryPolicy} {n : UInt32} (hn : ¬ p.maxAttempts ≤ n) :
    p.maxAttempts.toNat - (n + 1).toNat + 1 = p.maxAttempts.toNat - n.toNat := by
  have hlt : n.toNat < p.maxAttempts.toNat := Nat.lt_of_not_le fun h => hn (UInt32.le_iff_toNat_le.mpr h)
  have hnext := RetryPolicy.toNat_succ hn
  omega

/-- A pause is over in time. -/
theorem Course.resumed {post : Post} {n : UInt32} {instant : Instant}
    (rest : Course Passes { t with now := instant } (.attempting post n) ds b u) :
    Course Passes t (.pausing post n instant) ds b u :=
  have hresume : step { t with now := instant } {} (.pausing post n instant) =
      some (.attempting post n, { t with now := instant }) := by simp [step]
  .other (passes_to t instant) (.quietly hresume rfl rest)

/-- With one that is not there every attempt fails, and the last is followed by a delivery. -/
theorem exists_at_last (post : Post) (he : post.event = .ok text) (hw : s.policy.Waits) (n : UInt32)
    (h : Reaches s false) :
    ∃ ds t, Course Passes s (.attempting post n) ds
      (.finished (.error (.exhausted s.policy.maxAttempts Broker.unavailable))) t ∧ Refused ds := by
  generalize hk : s.policy.maxAttempts.toNat - n.toNat = k
  induction k generalizing s n with
  | zero =>
    have hafter := afterAttempt_waits hw post n Broker.unavailable
    rw [if_pos (UInt32.le_iff_toNat_le.mpr (Nat.le_of_sub_eq_zero hk))] at hafter
    refine Course.refused he h hafter fun t _ _ => ?_
    obtain ⟨u, hu⟩ := exists_delivered Passes t post.fanout
        (.error (.exhausted s.policy.maxAttempts Broker.unavailable))
    exact ⟨_, u, hu, refused_begins _⟩
  | succ k ih =>
    have hn : ¬ s.policy.maxAttempts ≤ n := fun hn => by
      have := UInt32.le_iff_toNat_le.mp hn
      omega
    have hafter := afterAttempt_waits hw post n Broker.unavailable
    rw [if_neg hn] at hafter
    obtain ⟨instant, hafter⟩ := hafter
    refine Course.refused he h hafter fun t hreaches hpolicy => ?_
    obtain ⟨ds, u, hcourse, hds⟩ :=
      ih (s := { t with now := instant }) (by rw [hpolicy]; exact hw) (n + 1) ⟨hreaches.line⟩
      (by have := left_succ hn; rw [hpolicy]; omega)
    rw [← hpolicy]
    exact ⟨ds, u, .resumed hcourse, hds⟩

/-- Every publish comes to an end, whatever becomes of its attempts. -/
theorem exists_finished (hw : s.policy.Waits) (post : Post) (n : UInt32) :
    ∃ ds r t, Course Passes s (.attempting post n) ds (.finished r) t := by
  generalize hk : s.policy.maxAttempts.toNat - n.toNat = k
  induction k using Nat.strongRecOn generalizing s n with
  | ind k ih =>
    cases hl : s.line with
    | none =>
      obtain ⟨t, ht⟩ := exists_delivered Passes s post.fanout (.ok ())
      exact ⟨_, _, t, .own {} (by simp [step, attempt, hl]) ht⟩
    | some l =>
      cases he : post.event with
      | error reason =>
        exact ⟨_, .error (.unwritable reason), s, .own {} (by simp [step, attempt, hl, he]) (.refl _ _)⟩
      | ok text =>
        let t : Service := { s with line := some (l.publish s.now (post.message text)).2 }
        have hstep : step s {} (.attempting post n) =
            some (afterAttempt s post n 0 (l.publish s.now (post.message text)).1, t) := by rw [step, attempt_eq hl he]
        cases ho : (l.publish s.now (post.message text)).1 with
        | ok _ =>
          rw [ho] at hstep
          exact ⟨_, _, t, .own {} hstep (.refl _ _)⟩
        | error e =>
          have hafter := afterAttempt_waits hw post n e
          rw [ho] at hstep
          by_cases hn : s.policy.maxAttempts ≤ n
          · rw [if_pos hn] at hafter
            rw [hafter] at hstep
            obtain ⟨u, hu⟩ := exists_delivered Passes t post.fanout (.error (.exhausted s.policy.maxAttempts e))
            exact ⟨_, _, u, .own {} hstep hu⟩
          · rw [if_neg hn] at hafter
            obtain ⟨instant, hafter⟩ := hafter
            rw [hafter] at hstep
            have hless : s.policy.maxAttempts.toNat - (n + 1).toNat < k := by
              have := left_succ hn
              omega
            obtain ⟨ds, r, u, hcourse⟩ := ih _ hless (s := { t with now := instant }) hw (n + 1) rfl
            exact ⟨_, r, u, .own {} hstep (.resumed hcourse)⟩

end Ends

end Hub.Activity

/-! ### Over the broker -/

namespace Hub.Subscriber

open Service

variable {s t u : Service} {hub : Nat} {room text : String} {category : Category} {ds : List Deed} {x y : Subscriber}
  {k n : Nat} {received : Bool}

structure Rests (x : Subscriber) (hub k : Nat) (s : Service) : Prop where
  hub : x.hub = hub
  state : ∃ received, x.state = .listening k received
  broker : s.hasBroker = true
  attends : ∃ sub, s.broker.Attends k sub

/-- After a publish that was accepted such a subscription has its message next. -/
theorem Rests.receives (hx : x.Rests hub k s)
    (h : Activity.Course Passes s (.publish hub room category (.ok text)) ds (.finished (.ok ())) t) :
    (t.broker.receive k).1 = .message (Post.message ⟨hub, room, category, .ok text⟩ text) ∧
      ((t.broker.receive k).2.receive k).1 = .waiting := by
  obtain ⟨sub, hattends⟩ := hx.attends
  obtain ⟨globs, hglobs, hany⟩ := patterns_spec
  have hpatterns : globs = sub.patterns := Except.ok.inj (hglobs.symm.trans hattends.patterns)
  obtain ⟨hsubs, hfeeds⟩ := Activity.course_feeds ⟨hub, room, category, .ok text⟩ rfl h rfl hx.broker
  exact hattends.receive (by rw [← hpatterns]; exact hany category room) hsubs hfeeds

/-- An event that was accepted comes to the connections of its room. -/
theorem Rests.heard (hs : s.Listing hub room) (hroom : room ≠ "") (hx : x.Rests hub k s)
    (h : Activity.Course Passes s (.publish hub room category (.ok text)) ds (.finished (.ok ())) t)
    (h' : Course Passes t x y u) (hy : y.state = .listening n received) (hw : (u.broker.receive n).1 = .waiting) :
    s.Heard hub room text u := by
  have hsame : s.SameHubs t := Activity.accepted_only hx.broker (h.mono fun _ _ g => g.aside)
  have hrelay := relay_message hub ⟨hub, room, category, .ok text⟩ text
  rw [if_neg hroom] at hrelay
  obtain ⟨before, hstate⟩ := hx.state
  obtain ⟨hm, hw'⟩ := hx.receives h
  exact hsame.heard (heard_of_course (hsame.listing hs) hrelay
    (.before x t before hx.hub hstate (.refl t) hm hw') h' hy hw)

end Hub.Subscriber

/-! ### The agreement -/

namespace Service

def reach (s : Service) (hub : Nat) (room : String) : Nat := ((s.registry hub).snapshot room).countP fun c => s.Takes c

/-- A text for a room of a hub comes to the same connections on every way. -/
structure Agreement (s : Service) (hub : Nat) (room : String) (category : Category) (text : String) : Prop where
  /-- A delivery, in whatever order the connections are listed. -/
  delivered : ∀ cs : List ConnId, cs.Perm ((s.registry hub).snapshot room) →
    (Fanout.handAll s text cs 0).1 = s.reach hub room ∧ s.Heard hub room text (Fanout.handAll s text cs 0).2
  broadcast : (s.broadcast hub room (some text)).1 = s.reach hub room ∧
    s.Heard hub room text (s.broadcast hub room (some text)).2
  /-- The stored payload of the event is delivered as its text, -/
  raw : s.broadcastRaw hub room (Text.Utf8.encode text) = s.broadcast hub room (some text)
  /-- and a payload that is no text to nobody. -/
  unreadable : ∀ payload, Text.Utf8.decode? payload = none → s.broadcastRaw hub room payload = (0, s)
  nobody : (s.registry hub).connectionCount room = 0 → ∀ frame, s.broadcast hub room frame = (0, s)
  /-- Without a broker every publish ends well, and its event has come to the connections. -/
  directly : s.hasBroker = false → ∀ ds r t,
    Activity.Course Aside s (.publish hub room category (.ok text)) ds (.finished r) t → r = .ok () ∧
      s.Heard hub room text t
  exists_directly : s.hasBroker = false → ∃ ds t,
    Activity.Course Aside s (.publish hub room category (.ok text)) ds (.finished (.ok ())) t
  /-- With a broker that accepts no attempt it ends with the last error, and the event has come to the connections,
  unless a delay was too long to wait for. -/
  at_last : s.hasBroker = true → ∀ ds r t,
    Activity.Course Aside s (.publish hub room category (.ok text)) ds (.finished r) t → Activity.Refused ds →
    (∃ e, r = .error (.exhausted s.policy.maxAttempts e)) ∧ s.Heard hub room text t ∨
      r = .error .unending ∧ s.SameHubs t ∧ ¬ s.policy.Waits
  exists_at_last : Activity.Reaches s false → s.policy.Waits → ∃ ds t, Activity.Refused ds ∧
    Activity.Course Aside s (.publish hub room category (.ok text)) ds
      (.finished (.error (.exhausted s.policy.maxAttempts Broker.unavailable))) t
  /-- With a broker that accepts an attempt the event has come to the connections once the hub's subscription has
  nothing left to read. -/
  relayed : ∀ x k, Subscriber.Rests x hub k s → ∀ ds t y n received u,
    Activity.Course Passes s (.publish hub room category (.ok text)) ds (.finished (.ok ())) t →
    Subscriber.Course Passes t x y u → y.state = .listening n received → (u.broker.receive n).1 = .waiting →
    s.Heard hub room text u
  exists_relayed : ∀ x k, Subscriber.Rests x hub k s → Activity.Reaches s true → ∃ ds t y u,
    Activity.Course Passes s (.publish hub room category (.ok text)) ds (.finished (.ok ())) t ∧
      Subscriber.Course Passes t x y u ∧ y.state = .listening k true ∧ (u.broker.receive k).1 = .waiting

/-- **The three ways agree.** -/
theorem paths_agree (s : Service) (hub : Nat) {room : String} (category : Category) (text : String) (hroom : room ≠ "")
    (hs : s.Listing hub room) : s.Agreement hub room category text where
  delivered cs hcs := handAll_heard hs hcs
  broadcast := broadcast_heard hs
  raw := s.broadcastRaw_encode hub room text
  unreadable _ := s.broadcastRaw_of_decode?_none hub room
  nobody h := s.broadcast_of_nobody h
  directly hb _ _ _ h := Activity.directly hs hb h
  exists_directly := Activity.exists_directly Aside
  at_last hb _ _ _ h hds := Activity.at_last hs hb h hds
  exists_at_last h hw := by
    obtain ⟨ds, t, hcourse, hds⟩ := Activity.exists_at_last ⟨hub, room, category, .ok text⟩ rfl hw 1 h
    exact ⟨ds, t, hds, hcourse.mono fun _ _ g => g.aside⟩
  relayed _ _ hx _ _ _ _ _ _ h h' hy hw := hx.heard hs hroom h h' hy hw
  exists_relayed x k hx h := by
    obtain ⟨ds, t, hcourse, ht⟩ := Activity.exists_accepted Passes hub room category text h
    obtain ⟨received, hstate⟩ := hx.state
    obtain ⟨l, hl, -⟩ := ht.line
    have hb : t.hasBroker = true := Option.isSome_iff_exists.mpr ⟨l, hl⟩
    obtain ⟨hm, hw⟩ := hx.receives hcourse
    obtain ⟨y, u, hrun, hy, hwaits⟩ := Subscriber.exists_relayed Passes hstate hb hm hw
    exact ⟨ds, t, y, u, hcourse, hrun, hy, hwaits⟩

/-- Two members of a room on a hub that has subscribed with a broker. -/
def twoSubscribed : Service :=
  { twoMembers with line := some { broker := (({} : MemoryBroker).subscribe Subscriber.patterns).2 } }

theorem rests_twoSubscribed : Subscriber.Rests { hub := 0, state := .listening 0 false } 0 0 twoSubscribed where
  hub := rfl
  state := ⟨false, rfl⟩
  broker := rfl
  attends := MemoryBroker.attends_subscribe (by decide) (({} : MemoryBroker).subscribe_patterns rfl)

theorem reaches_twoSubscribed : Activity.Reaches twoSubscribed true where
  line := ⟨_, rfl, rfl, MemoryBroker.subscribe_available _⟩

/-- There what is published is relayed to both of them. -/
theorem paths_agree_twoSubscribed : "r" ≠ "" ∧ twoSubscribed.Listing 0 "r" ∧
    twoSubscribed.Agreement 0 "r" .events "hello" ∧ ∃ u, twoSubscribed.Heard 0 "r" "hello" u := by
  have hs : twoSubscribed.Listing 0 "r" := ⟨nodup_twoMembers 0 "r", by decide⟩
  have h := paths_agree twoSubscribed 0 .events "hello" (by decide) hs
  obtain ⟨ds, t, y, u, hcourse, hrun, hy, hw⟩ := h.exists_relayed _ _ rests_twoSubscribed reaches_twoSubscribed
  exact ⟨by decide, hs, h, u, h.relayed _ _ rests_twoSubscribed _ _ _ _ _ _ hcourse hrun hy hw⟩

end Service

end Parley
