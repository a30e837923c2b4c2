import Mathlib.Data.List.Basic
import Parley.Proofs.Traffic.Delivered

/-!
Without faults a connection keeps abreast of the broker: it has the frames of all calls for its room
among those its hub's subscriber has passed, in the order of the feed, but for the frame that the
subscriber is still handing out.
-/

namespace Parley.Traffic

open Hub Deployment Function

variable {takes : ConnId → Prop} {v w : Traffic} {c : ConnId}

/-- What the delivery of a call's frame still has for a connection. -/
def pending (v : Traffic) (c : ConnId) (p : TaskId) : Fanout → List TaskId
  | .listing _ room _ => if room = v.room c then [p] else []
  | .handing _ rest _ => if c ∈ rest then [p] else []
  | .done _ => []

/-- What a subscriber still has for a connection. -/
def owed (v : Traffic) (c : ConnId) (n : TaskId) : Listening → List TaskId
  | .relaying _ f => v.pending c (v.source n) f
  | _ => []

/-- The calls for the room of a connection among some. -/
def forRoom (v : Traffic) (c : ConnId) (ps : List TaskId) : List TaskId := ps.filter fun p => v.roomOf p = v.room c

/-- The connection has had what the subscriber `n` of its hub has passed, reading `k` up to `s`. -/
structure Reader (v : Traffic) (c : ConnId) (n : TaskId) (x : Subscriber) (k : Nat)
    (s : Broker.Subscription) : Prop where
  task : v.task n = .subscriber x
  hub : x.hub = v.home c
  held : x.held? = some k
  subscription : v.subscription k = some s
  feed : s.feed = v.current
  accepted : v.accepted c ++ v.owed c n x.state = v.forRoom c ((v.origins v.current).take s.position)

/-- The connection has had what the subscriber of its hub has passed. -/
def Abreast (v : Traffic) (c : ConnId) : Prop := ∃ n x k s, v.Reader c n x k s

theorem forRoom_congr {ps : List TaskId} (hroom : w.room c = v.room c) (h : ∀ p ∈ ps, w.posts p = v.posts p) :
    w.forRoom c ps = v.forRoom c ps := by
  refine List.filter_congr fun p hp => ?_
  rw [roomOf_congr (h p hp), hroom]

namespace Reader

variable {n : TaskId} {x : Subscriber} {k : Nat} {s : Broker.Subscription}

/-- A change that touches neither the subscriber nor the connection, while the feed may grow. -/
theorem keep (hv : Filed v) (hr : v.Reader c n x k s) (htask : w.task n = v.task n) (hhome : w.home c = v.home c)
    (hroom : w.room c = v.room c) (hsub : w.subscription k = v.subscription k) (hcur : w.current = v.current)
    (hacc : w.accepted c = v.accepted c) (hor : ∀ f, v.origins f <+: w.origins f)
    (hposts : ∀ p ∈ v.origins v.current, w.posts p = v.posts p) : w.Abreast c := by
  obtain ⟨q, hq, -, h1, h2, -⟩ := hv.reads n x k hr.task hr.held
  rw [hr.subscription] at hq
  cases hq
  refine ⟨n, x, k, s, htask.trans hr.task, hr.hub.trans hhome.symm, hr.held, hsub.trans hr.subscription,
    hr.feed.trans hcur.symm, ?_⟩
  have howed : w.owed c n x.state = v.owed c n x.state := by
    cases hx : x.state with
    | relaying j f =>
      have hf : (v.task n).fanout? = some f := by
        obtain ⟨hub, delay, state⟩ := x
        subst hx
        rw [hr.task]
        rfl
      have hsrc : w.source n = v.source n := by
        refine source_congr hv hf htask (fun z i hz hi => ?_) fun g i p hi => ?_
        · rw [hr.task] at hz
          cases hz
          rw [hr.held] at hi
          cases hi
          exact hsub
        · obtain ⟨t, ht⟩ := hor g
          rw [← ht, List.getElem?_append_left (List.getElem?_eq_some_iff.1 hi).1]
          exact hi
      show w.pending c (w.source n) f = v.pending c (v.source n) f
      rw [hsrc]
      cases f with
      | listing => unfold pending; rw [hroom]
      | handing => rfl
      | done => rfl
    | _ => rfl
  have htake : (w.origins w.current).take s.position = (v.origins v.current).take s.position := by
    obtain ⟨t, ht⟩ := hor v.current
    rw [hcur, ← ht, List.take_append_of_le_length (hr.feed ▸ h2)]
  rw [hacc, howed, htake, hr.accepted]
  exact (forRoom_congr hroom fun p hp => hposts p (List.mem_of_mem_take hp)).symm

theorem keep_of_feeds (hv : Filed v) (hr : v.Reader c n x k s) (htask : w.task n = v.task n)
    (hhome : w.home c = v.home c)
    (hroom : w.room c = v.room c) (hsub : w.subscription k = v.subscription k) (hcur : w.current = v.current)
    (hacc : w.accepted c = v.accepted c) (hor : w.origins = v.origins) (hposts : w.posts = v.posts) : w.Abreast c :=
  hr.keep hv htask hhome hroom hsub hcur hacc (fun _ => hor ▸ List.prefix_rfl) fun p _ => congrFun hposts p

/-- The subscriber goes on with a delivery, and the connection has or is owed what it had or was owed. -/
theorem advance (hv : Filed v) (hr : v.Reader c n x k s) {f f' : Fanout} (hf : (v.task n).fanout? = some f)
    (htask : w.task = update v.task n ((v.task n).withFanout f')) (hposts : w.posts = v.posts) (hhome : w.home = v.home)
    (hroom : w.room = v.room) (hsub : w.subscription = v.subscription) (hcur : w.current = v.current)
    (hor : w.origins = v.origins)
    (hacc : w.accepted c ++ w.pending c (v.source n) f' = v.accepted c ++ v.pending c (v.source n) f) :
    w.Abreast c := by
  have hx : x.state = .relaying k f := by
    rcases Task.fanout?_eq_some hf with ⟨r, ht⟩ | ⟨z, j, ht, hz⟩
    · rw [hr.task] at ht; cases ht
    · rw [hr.task] at ht
      cases ht
      have hk := hr.held
      rw [Subscriber.held?, hz] at hk
      cases hk
      exact hz
  obtain ⟨-, hsrc, -⟩ := source_withFanout hv hf htask hposts hsub hor
  have hself : w.task n = .subscriber { x with state := .relaying k f' } := by
    obtain ⟨hub, delay, state⟩ := x
    subst hx
    rw [htask, update_self, hr.task]
    rfl
  refine ⟨n, { x with state := .relaying k f' }, k, s, hself, ?_, rfl, hsub ▸ hr.subscription, hcur ▸ hr.feed, ?_⟩
  · rw [hhome]; exact hr.hub
  · have hold : v.owed c n x.state = v.pending c (v.source n) f := by rw [hx]; rfl
    have hnew := hr.accepted
    rw [hold, ← hacc, ← hsrc] at hnew
    show w.accepted c ++ w.pending c (w.source n) f' = _
    rw [hnew, hcur, hor]
    exact (forRoom_congr (by rw [hroom]) fun p _ => by rw [hposts]).symm

/-- A delivery that goes on without reaching anyone owes an open connection of the room what it owed. -/
theorem pending_of_passes (hd : Delivered v) {f f' : Fanout} (hf : (v.task n).fanout? = some f)
    (hr : v.Reader c n x k s)
    (h : v.Passes takes f f') (hmem : c ∈ v.members (v.home c) (v.room c)) (htakes : takes c) (p : TaskId) :
    v.pending c p f' = v.pending c p f := by
  have hc := hd.carried n f hf
  cases h with
  | blank hub room =>
    obtain ⟨-, -, h, -⟩ := hc
    cases h
  | list hub room text =>
    have hhub : hub = v.home c := by rw [hc.1, hubOf, hr.task]; exact hr.hub
    have hiff : c ∈ v.members hub room ↔ room = v.room c := by
      constructor
      · exact fun h => (hd.member hub room c h).2.2.symm
      · rintro rfl; rw [hhub]; exact hmem
    simp only [pending, hiff]
  | skip frame d rest sent hnot =>
    have hne : c ≠ d := by rintro rfl; exact hnot htakes
    simp [pending, hne]
  | finish frame sent => simp [pending]

/-- The subscriber hands its frame to a connection. -/
theorem hand (hv : Filed v) (hd : Delivered v) (hr : v.Reader c n x k s) {frame : String} {d : ConnId}
    {rest : List ConnId} {sent : Nat} (hf : (v.task n).fanout? = some (.handing frame (d :: rest) sent)) :
    Abreast { v with task := update v.task n ((v.task n).withFanout (.handing frame rest (sent + 1)))
                     accepted := update v.accepted d (v.accepted d ++ [v.source n])
                     frames := update v.frames d (v.frames d ++ [frame]) } c := by
  refine hr.advance hv hf rfl rfl rfl rfl rfl rfl rfl ?_
  have hnd := (List.nodup_cons.1 (hd.carried n _ hf).2.1).1
  show update v.accepted d (v.accepted d ++ [v.source n]) c ++ (if c ∈ rest then [v.source n] else []) =
    v.accepted c ++ (if c ∈ d :: rest then [v.source n] else [])
  rcases eq_or_ne c d with rfl | hne
  · rw [update_self, if_neg hnd, if_pos List.mem_cons_self, List.append_nil]
  · rw [update_of_ne hne]
    simp [hne]

theorem received (hv : Filed v) (hr : v.Reader c n x k s) {r : Bool} (hx : x.state = .listening k r) {p : TaskId}
    (hp : (v.origins s.feed)[s.position]? = some p) (hrooms : ∀ p q, v.posts p = some q → q.room ≠ "") :
    Abreast { v with
      task := update v.task n (.subscriber { x with state := .relaying k (Subscriber.relay x.hub (v.message p)) })
      subscription := update v.subscription k (some { s with position := s.position + 1 }) } c := by
  obtain ⟨-, -, q, text, hq, he⟩ := hv.placed s.feed s.position p hp
  have hm : v.message p = q.message text := by simp [Traffic.message, Traffic.text, hq, he, Except.toOption]
  have hroom : v.roomOf p = q.room := by simp [roomOf, hq]
  rw [hm, Subscriber.relay_message, if_neg (hrooms p q hq)]
  refine ⟨n, { x with state := .relaying k (.listing x.hub q.room (some text)) }, k,
    { s with position := s.position + 1 },
    update_self .., hr.hub, rfl, update_self .., hr.feed, ?_⟩
  have hsrc : source { v with
      task := update v.task n (.subscriber { x with state := .relaying k (.listing x.hub q.room (some text)) })
      subscription := update v.subscription k (some { s with position := s.position + 1 }) } n = p := by
    simp [source, List.getD_eq_getElem?_getD, hp]
  have hacc := hr.accepted
  rw [show v.owed c n x.state = [] by rw [hx]; rfl, List.append_nil] at hacc
  show v.accepted c ++ pending _ c (source _ n) (.listing x.hub q.room (some text)) =
    v.forRoom c ((v.origins v.current).take (s.position + 1))
  have htake : (v.origins v.current).take (s.position + 1) = (v.origins v.current).take s.position ++ [p] := by
    rw [hr.feed] at hp
    rw [List.take_add_one, hp]
    rfl
  rw [hsrc, hacc, htake, forRoom, forRoom, List.filter_append]
  congr 1
  show (if q.room = v.room c then [p] else []) = _
  simp [List.filter_singleton, hroom]

theorem relayed (hr : v.Reader c n x k s) {i : Nat} (hx : x.state = .relaying k (.done i)) :
    Abreast { v with task := update v.task n (.subscriber { x with state := .listening k true }) } c := by
  refine ⟨n, { x with state := .listening k true }, k, s, update_self .., hr.hub, rfl, hr.subscription, hr.feed, ?_⟩
  have hacc := hr.accepted
  rw [show v.owed c n x.state = [] by rw [hx]; rfl] at hacc
  exact hacc

end Reader

/-- No frame goes past the broker, every call is for a room, and no reader lags. -/
structure Fair (v : Traffic) : Prop where
  brokered : ∀ n f r, v.task n ≠ .activity (.delivering f r)
  rooms : ∀ p q, v.posts p = some q → q.room ≠ ""
  current : ∀ k s, v.subscription k = some s → (v.origins s.feed).length ≤ s.position + Broker.capacity

/-- A reader of every channel that does not lag takes the message at its place. -/
theorem place_eq (hv : Filed v) (hf : Fair v) {n : TaskId} {x : Subscriber} {k place : Nat} {s : Broker.Subscription}
    {p : TaskId} (hn : v.task n = .subscriber x) (hk : x.held? = some k) (hs : v.subscription k = some s)
    (hp : (v.origins s.feed)[place]? = some p) (hle : s.position ≤ place)
    (hskip : ∀ i p, (v.origins s.feed)[i]? = some p →
      max s.position (MemoryBroker.oldest (v.origins s.feed).length) ≤ i →
      i < place → s.patterns.any (·.accepts (v.message p).channel) = false) : place = s.position := by
  obtain ⟨q, hq, ⟨-, hpat⟩, -⟩ := hv.reads n x k hn hk
  rw [hs] at hq
  cases hq
  have hlag : max s.position (MemoryBroker.oldest (v.origins s.feed).length) = s.position := by
    have := hf.current k s hs
    unfold MemoryBroker.oldest
    omega
  by_contra hne
  have hlt : s.position < place := by omega
  have hlen := (List.getElem?_eq_some_iff.1 hp).1
  have hi : (v.origins s.feed)[s.position]? = some (v.origins s.feed)[s.position] := List.getElem?_eq_getElem (by omega)
  obtain ⟨-, -, post, text, hpost, he⟩ := hv.placed _ _ _ hi
  have hno := hskip s.position _ hi (Nat.le_of_eq hlag) hlt
  obtain ⟨globs, hglobs, hall⟩ := Subscriber.patterns_spec
  rw [hpat] at hglobs
  cases hglobs
  have hchan : (v.message (v.origins s.feed)[s.position]).channel = post.category.channel post.room := by
    simp [Traffic.message, hpost, Post.message]
  rw [hchan, hall] at hno
  cases hno

namespace Abreast

/-- **A connection that takes every frame keeps abreast.** -/
theorem change (hv : Filed v) (hd : Delivered v) (hf : Fair v) (ha : Abreast v c) (h : Change takes v w)
    (hcur : w.current = v.current) (hmem : c ∈ v.members (v.home c) (v.room c)) (htakes : takes c) : Abreast w c := by
  obtain ⟨n, x, k, s, hr⟩ := ha
  have hgrow := fun htask hhome hroom hsub hacc hor hposts =>
    hr.keep (w := w) hv htask hhome hroom hsub hcur hacc hor hposts
  have hkeep := fun htask hhome hroom hsub hacc hor hposts =>
    hr.keep_of_feeds (w := w) hv htask hhome hroom hsub hcur hacc hor hposts
  have hother : ∀ {m : TaskId} {t : Task}, v.task m = t → (∀ z, t ≠ .subscriber z) → n ≠ m := by
    rintro m t hm ht rfl
    rw [hr.task] at hm
    exact ht x hm.symm
  have hsame : ∀ {m : TaskId} {z : Subscriber} {j : Nat}, v.task m = .subscriber z → z.held? = some j →
      m ≠ n → k ≠ j := by
    rintro m z j hm hz hne rfl
    exact hne (hv.apart m n z x k hm hr.task hz hr.held)
  cases h with
  | none => exact ⟨n, x, k, s, hr⟩
  | call p q hp =>
    refine hgrow (update_of_ne (hother hp (by simp)) ..) rfl rfl rfl rfl (fun _ => List.prefix_rfl) fun p' hp' => ?_
    obtain ⟨i, hi⟩ := List.getElem?_of_mem hp'
    obtain ⟨-, ht, -⟩ := hv.placed _ _ _ hi
    exact update_of_ne (by rintro rfl; rw [hp] at ht; cases ht) ..
  | listen m z hm hz alone =>
    exact hkeep (update_of_ne (hother hm (by simp)) ..) rfl rfl rfl rfl rfl rfl
  | connect hub room =>
    have hc : c ≠ v.count := Nat.ne_of_lt (hd.member _ _ c hmem).1
    exact hkeep rfl (update_of_ne hc ..) (update_of_ne hc ..) rfl rfl rfl rfl
  | enlist members hm hnd => exact hkeep rfl rfl rfl rfl rfl rfl rfl
  | quiet p a a' hp hq =>
    exact hkeep (update_of_ne (hother hp (by simp)) ..) rfl rfl rfl rfl rfl rfl
  | accept p q i text hp he =>
    refine hgrow (update_of_ne (hother hp (by simp)) ..) rfl rfl rfl rfl (fun f => ?_) fun _ _ => rfl
    show v.origins f <+: update v.origins v.current (v.origins v.current ++ [p]) f
    rcases eq_or_ne f v.current with rfl | hne
    · rw [update_self]; exact List.prefix_append ..
    · simp [update_of_ne hne]
  | fallBack p q i text hp he j e =>
    exact hkeep (update_of_ne (hother hp (by simp)) ..) rfl rfl rfl rfl rfl rfl
  | pass m f f' hm hp =>
    rcases eq_or_ne m n with rfl | hne
    · refine hr.advance hv hm rfl rfl rfl rfl rfl rfl rfl ?_
      exact congrArg _ (hr.pending_of_passes hd hm hp hmem htakes _)
    · exact hkeep (update_of_ne hne.symm ..) rfl rfl rfl rfl rfl rfl
  | hand m frame d rest sent hm ht =>
    rcases eq_or_ne m n with rfl | hne
    · exact hr.hand hv hd hm
    · -- another hub's subscriber: its connections are others
      have hdc : c ≠ d := by
        rintro rfl
        rcases Task.fanout?_eq_some hm with ⟨r, ht⟩ | ⟨z, j, ht, -⟩
        · exact hf.brokered m _ r ht
        · have hhome := ((hd.carried m _ hm).2.2 c List.mem_cons_self).2.1
          rw [hubOf, ht] at hhome
          exact hne (hv.alone m n z x ht hr.task (hhome.symm.trans hr.hub.symm))
      exact hkeep (update_of_ne hne.symm ..) rfl rfl rfl (update_of_ne hdc ..) rfl rfl
  | subscribed m z hm hz j hj globs hg =>
    have hne : n ≠ m := by
      rintro rfl
      rw [hr.task] at hm
      cases hm
      rw [hr.held] at hz
      cases hz
    have hkj : k ≠ j := by rintro rfl; rw [hr.subscription] at hj; cases hj
    exact hkeep (update_of_ne hne ..) rfl rfl (update_of_ne hkj ..) rfl rfl rfl
  | received m z hm j r hz q hq place p hp hle hskip =>
    have hj : z.held? = some j := by rw [Subscriber.held?, hz]
    obtain rfl := place_eq hv hf hm hj hq hp hle hskip
    rcases eq_or_ne m n with rfl | hne
    · rw [hr.task] at hm
      cases hm
      rw [hr.held] at hj
      cases hj
      rw [hr.subscription] at hq
      cases hq
      exact hr.received hv hz hp hf.rooms
    · exact hkeep (update_of_ne hne.symm ..) rfl rfl (update_of_ne (hsame hm hj hne) ..) rfl rfl rfl
  | relayed m z hm j i hz =>
    rcases eq_or_ne m n with rfl | hne
    · rw [hr.task] at hm
      cases hm
      have hj := hr.held
      rw [Subscriber.held?, hz] at hj
      cases hj
      exact hr.relayed hz
    · exact hkeep (update_of_ne hne.symm ..) rfl rfl rfl rfl rfl rfl
  | rest m z z' hm hub hz hend subscription hs =>
    have hne : m ≠ n := by
      rintro rfl
      rw [hr.task] at hm
      cases hm
      -- the reader's subscription is not over
      obtain ⟨q, hq, ⟨hlive, -⟩, -⟩ := hv.reads m x k hr.task hr.held
      rw [hr.subscription] at hq
      cases hq
      rcases hend k s hr.held hr.subscription with h | h
      · rw [hlive] at h; cases h
      · exact h hr.feed
    exact hkeep (update_of_ne hne.symm ..) rfl rfl
      (hs k fun h => hne (hv.apart m n z x k hm hr.task h hr.held)) rfl rfl rfl
  | disconnect => exact absurd hcur (Nat.succ_ne_self _)

end Abreast

end Parley.Traffic
