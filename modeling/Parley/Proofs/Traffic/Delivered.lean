import Parley.Proofs.Channel
import Parley.Proofs.Traffic.Filed

/-!
Where the frames of a traffic may be. A connection has a frame from a call that fell back on its own
hub, or from a message that the subscriber of its hub has passed; a delivery that is under way reaches
only connections of its hub, in its room, that have not had its frame. From this no frame is ever
accepted twice (`Delivered.distinct`) nor in another room (`Delivered.room`).
-/

namespace Parley.Traffic

open Hub Deployment Function

variable {takes : ConnId → Prop} {v w : Traffic}

/-- A call that has no attempt left. -/
def FellBack : Activity → Prop
  | .delivering _ (.error (.exhausted ..)) => True
  | .finished (.error (.exhausted ..)) => True
  | _ => False

theorem fellBack_delivering {f f' : Fanout} {r : Except PublishError Unit} (h : FellBack (.delivering f r)) :
    FellBack (.delivering f' r) := by
  cases r with
  | ok => exact h.elim
  | error e => cases e <;> exact h

/-- The hub on whose connections a task hands out a frame. -/
def hubOf (v : Traffic) (n : TaskId) : Nat :=
  match v.task n with
  | .subscriber x => x.hub
  | _ => ((v.posts n).map (·.hub)).getD 0

/-- The place of a message lies before the place of the hub's subscriber. -/
def Passed (v : Traffic) (hub f i : Nat) : Prop :=
  ∀ n x k s, v.task n = .subscriber x → x.hub = hub → x.held? = some k → v.subscription k = some s →
    f < s.feed ∨ f = s.feed ∧ i < s.position

/-- A frame of the call has a way to the connections of a hub behind it. -/
def Came (v : Traffic) (hub : Nat) (p : TaskId) : Prop :=
  (∃ a q, v.task p = .activity a ∧ FellBack a ∧ v.posts p = some q ∧ q.hub = hub) ∨
    ∃ f i, (v.origins f)[i]? = some p ∧ v.Passed hub f i

/-- What a delivery of the frame of a call on a hub may still reach. -/
def Carries (v : Traffic) (hub : Nat) (p : TaskId) : Fanout → Prop
  | .listing h room frame => h = hub ∧ room = v.roomOf p ∧ frame = some (v.text p) ∧ ∀ c, v.home c = hub →
      p ∉ v.accepted c
  | .handing frame rest _ => frame = v.text p ∧ rest.Nodup ∧
      ∀ c ∈ rest, c < v.count ∧ v.home c = hub ∧ v.room c = v.roomOf p ∧ p ∉ v.accepted c
  | .done _ => True

/-- Where the frames are. -/
structure Delivered (v : Traffic) : Prop where
  member : ∀ h r c, c ∈ v.members h r → c < v.count ∧ v.home c = h ∧ v.room c = r
  nodup : ∀ h r, (v.members h r).Nodup
  unborn : ∀ c, v.count ≤ c → v.accepted c = [] ∧ v.frames c = []
  known : ∀ c p, p ∈ v.accepted c → v.posts p ≠ none
  room : ∀ c p, p ∈ v.accepted c → v.roomOf p = v.room c
  came : ∀ c p, p ∈ v.accepted c → v.Came (v.home c) p
  distinct : ∀ c, (v.accepted c).Nodup
  frames : ∀ c, v.frames c = (v.accepted c).map v.text
  carried : ∀ n f, (v.task n).fanout? = some f → v.Carries (v.hubOf n) (v.source n) f

/-! ### The source of a delivery -/

theorem source_spec (hv : Filed v) {n : TaskId} {f : Fanout} (hn : (v.task n).fanout? = some f) :
    (∃ r, v.task n = .activity (.delivering f r) ∧ v.source n = n) ∨
      ∃ x k s, v.task n = .subscriber x ∧ x.state = .relaying k f ∧ v.subscription k = some s ∧ 0 < s.position ∧
        (v.origins s.feed)[s.position - 1]? = some (v.source n) := by
  rcases Task.fanout?_eq_some hn with ⟨r, ht⟩ | ⟨x, k, ht, hx⟩
  · exact .inl ⟨r, ht, by rw [source, ht]⟩
  · have hk : x.held? = some k := by rw [Subscriber.held?, hx]
    obtain ⟨s, hs, -, h1, h2, h3⟩ := hv.reads n x k ht hk
    have h0 := h3 ⟨f, hx⟩
    have hlt : s.position - 1 < (v.origins s.feed).length := by omega
    refine .inr ⟨x, k, s, ht, hx, hs, h0, ?_⟩
    obtain ⟨hub, delay, state⟩ := x
    subst hx
    simp only [source, ht, hs]
    rw [List.getD_eq_getElem?_getD, List.getElem?_eq_getElem hlt]
    rfl

theorem source_posts (hv : Filed v) {n : TaskId} {f : Fanout} (hn : (v.task n).fanout? = some f) :
    v.posts (v.source n) ≠ none := by
  rcases source_spec hv hn with ⟨r, h1, h2⟩ | ⟨x, k, s, h1, hx, hk, h0, hp⟩
  · obtain ⟨q, hq, -⟩ := hv.fits n _ h1
    rw [h2, hq]
    simp
  · obtain ⟨-, -, q, text, hq, -⟩ := hv.placed _ _ _ hp
    rw [hq]
    simp

/-- What is under way has a way behind it. -/
theorem came_source (hv : Filed v) {n : TaskId} {f : Fanout} (hn : (v.task n).fanout? = some f) :
    v.Came (v.hubOf n) (v.source n) := by
  rcases source_spec hv hn with ⟨r, h1, h2⟩ | ⟨x, k, s, h1, hx, hk, h0, hp⟩
  · obtain ⟨q, hq, ⟨j, e, rfl⟩, -⟩ := hv.fits n _ h1
    rw [h2]
    exact .inl ⟨_, q, h1, trivial, hq, by rw [hubOf, h1, hq]; rfl⟩
  · refine .inr ⟨s.feed, s.position - 1, hp, fun m z j s' hm hz hj hs' => ?_⟩
    have hub : z.hub = x.hub := by rw [hz, hubOf, h1]
    obtain rfl := hv.alone m n z x hm h1 hub
    rw [h1] at hm
    cases hm
    rw [Subscriber.held?, hx] at hj
    cases hj
    rw [hk] at hs'
    cases hs'
    exact .inr ⟨rfl, by omega⟩

theorem event_of_came (hv : Filed v) {hub : Nat} {p : TaskId} (h : v.Came hub p) :
    ∃ q text, v.posts p = some q ∧ q.event = .ok text := by
  rcases h with ⟨a, q, ha, hf, hq, -⟩ | ⟨f, i, hi, -⟩
  · obtain ⟨q', hq', hfit⟩ := hv.fits p a ha
    rw [hq] at hq'
    cases hq'
    unfold FellBack at hf
    split at hf
    · exact ⟨q, hfit.2.choose, hq, hfit.2.choose_spec⟩
    · obtain ⟨text, he⟩ := hfit ⟨_, _, rfl⟩
      exact ⟨q, text, hq, he⟩
    · exact hf.elim
  · exact (hv.placed f i p hi).2.2

/-- What a message has become does not come out of a call a second time. -/
theorem not_fellBack_of_placed (hv : Filed v) {f i : Nat} {p : TaskId} (h : (v.origins f)[i]? = some p) {a : Activity}
    (hp : v.task p = .activity a) : ¬ FellBack a := by
  have ht := (hv.placed f i p h).2.1
  rw [hp] at ht
  cases ht
  exact id

/-- **No frame is on its way twice.** Two deliveries of one call on one hub are the same. -/
theorem source_inj (hv : Filed v) {n m : TaskId} {f g : Fanout} (hn : (v.task n).fanout? = some f)
    (hm : (v.task m).fanout? = some g) (hub : v.hubOf n = v.hubOf m) (hs : v.source n = v.source m) : n = m := by
  rcases source_spec hv hn with ⟨r, hn1, hn2⟩ | ⟨x, k, s, hn1, hx, hk, h0, hp⟩ <;>
    rcases source_spec hv hm with ⟨r', hm1, hm2⟩ | ⟨z, j, s', hm1, hz, hj, h0', hp'⟩
  · rw [hn2, hm2] at hs; exact hs
  · rw [← hs, hn2] at hp'
    have ht := (hv.placed _ _ n hp').2.1
    rw [hn1] at ht; cases ht
  · rw [hs, hm2] at hp
    have ht := (hv.placed _ _ m hp).2.1
    rw [hm1] at ht; cases ht
  · refine hv.alone n m x z hn1 hm1 ?_
    rw [hubOf, hubOf, hn1, hm1] at hub
    exact hub

namespace Delivered

/-! ### What nobody has had -/

/-- The frame of a call that is still trying is nowhere. -/
theorem fresh (hv : Filed v) (hd : Delivered v) {p : TaskId} {a : Activity} (hp : v.task p = .activity a)
    (hne : a ≠ .finished (.ok ())) (ha : ¬ FellBack a) (c : ConnId) : p ∉ v.accepted c := by
  intro h
  rcases hd.came c p h with ⟨b, q, hb, hf, -⟩ | ⟨f, i, hi, -⟩
  · rw [hp] at hb
    cases hb
    exact ha hf
  · exact hv.not_placed hp hne f i hi

/-- The frame of a message that the hub's subscriber has not passed is on none of its connections. -/
theorem unpassed (hv : Filed v) (hd : Delivered v) {p : TaskId} {f i hub : Nat} (hi : (v.origins f)[i]? = some p)
    (hp : ¬ v.Passed hub f i) (c : ConnId) (hc : v.home c = hub) : p ∉ v.accepted c := by
  intro h
  rcases hd.came c p h with ⟨a, q, ha, hf, -⟩ | ⟨g, j, hj, hpass⟩
  · exact not_fellBack_of_placed hv hi ha hf
  · obtain ⟨rfl, rfl⟩ := hv.once f i g j p hi hj
    exact hp (hc ▸ hpass)

end Delivered

/-! ### Changes that reach no connection -/

theorem roomOf_congr {p : TaskId} (h : w.posts p = v.posts p) : w.roomOf p = v.roomOf p := by
  unfold roomOf; rw [h]

theorem text_congr {p : TaskId} (h : w.posts p = v.posts p) : w.text p = v.text p := by
  unfold text; rw [h]

/-- Nobody has come, left or been given anything. -/
structure Still (v w : Traffic) : Prop where
  posts : w.posts = v.posts
  count : w.count = v.count
  home : w.home = v.home
  room : w.room = v.room
  members : w.members = v.members
  accepted : w.accepted = v.accepted
  frames : w.frames = v.frames

namespace Still

theorem roomOf (h : Still v w) (p : TaskId) : w.roomOf p = v.roomOf p := roomOf_congr (by rw [h.posts])

theorem text (h : Still v w) (p : TaskId) : w.text p = v.text p := text_congr (by rw [h.posts])

theorem carries (h : Still v w) {hub : Nat} {p : TaskId} {f : Fanout} (hc : v.Carries hub p f) : w.Carries hub p f := by
  cases f with
  | listing =>
    unfold Carries
    rw [h.roomOf, h.text, h.home, h.accepted]
    exact hc
  | handing =>
    unfold Carries
    rw [h.roomOf, h.text, h.home, h.accepted, h.count, h.room]
    exact hc
  | done => trivial

end Still

theorem source_congr (hv : Filed v) {n : TaskId} {f : Fanout} (hn : (v.task n).fanout? = some f)
    (ht : w.task n = v.task n)
    (hsub : ∀ x k, v.task n = .subscriber x → x.held? = some k → w.subscription k = v.subscription k)
    (hor : ∀ (g i : Nat) (p : TaskId), (v.origins g)[i]? = some p → (w.origins g)[i]? = some p) :
    w.source n = v.source n := by
  rcases source_spec hv hn with ⟨r, h1, h2⟩ | ⟨x, k, s, h1, hx, hk, h0, hp⟩
  · rw [h2, source, ht, h1]
  · have hs : w.subscription k = some s := by rw [hsub x k h1 (by rw [Subscriber.held?, hx])]; exact hk
    obtain ⟨hub, delay, state⟩ := x
    subst hx
    simp only [source, ht, h1, hs]
    rw [List.getD_eq_getElem?_getD, hor _ _ _ hp, Option.getD_some, source, h1]

theorem source_withFanout (hv : Filed v) {n : TaskId} {f f' : Fanout} (hn : (v.task n).fanout? = some f)
    (htask : w.task = update v.task n ((v.task n).withFanout f')) (hposts : w.posts = v.posts)
    (hsub : w.subscription = v.subscription) (hor : w.origins = v.origins) :
    (w.task n).fanout? = some f' ∧ w.source n = v.source n ∧ w.hubOf n = v.hubOf n := by
  have hself : w.task n = (v.task n).withFanout f' := by rw [htask, update_self]
  rcases source_spec hv hn with ⟨r, ht, hs⟩ | ⟨x, k, s, ht, hx, hk, h0, hp⟩
  · rw [ht] at hself
    exact ⟨by rw [hself]; rfl, by rw [hs, source, hself]; rfl, by rw [hubOf, hubOf, hself, ht, hposts]; rfl⟩
  · obtain ⟨hub, delay, state⟩ := x
    subst hx
    rw [ht] at hself
    exact ⟨by rw [hself]; rfl, by simp only [source, hself, ht, hsub, hor]; rfl, by rw [hubOf, hubOf, hself, ht]; rfl⟩

theorem hubOf_congr {n : TaskId} (hposts : w.posts n = v.posts n) (ht : w.task n = v.task n) :
    w.hubOf n = v.hubOf n := by
  unfold hubOf; rw [ht, hposts]

namespace Delivered

/-- What was delivered stays delivered, as long as it still came some way and what is under way is kept. -/
theorem still (hd : Delivered v) (h : Still v w) (hcame : ∀ hub p, v.Came hub p → w.Came hub p)
    (hcarried : ∀ n f, (w.task n).fanout? = some f → w.Carries (w.hubOf n) (w.source n) f) : Delivered w where
  member := by rw [h.members, h.count, h.home, h.room]; exact hd.member
  nodup := by rw [h.members]; exact hd.nodup
  unborn := by rw [h.count, h.accepted, h.frames]; exact hd.unborn
  known := by rw [h.accepted, h.posts]; exact hd.known
  room := by
    intro c p hp
    rw [h.accepted] at hp
    rw [h.roomOf, h.room]
    exact hd.room c p hp
  came := by
    intro c p hp
    rw [h.accepted] at hp
    rw [h.home]
    exact hcame _ p (hd.came c p hp)
  distinct := by rw [h.accepted]; exact hd.distinct
  frames := by
    intro c
    rw [h.frames, h.accepted, hd.frames c]
    exact List.map_congr_left fun p _ => (h.text p).symm
  carried := hcarried

/-- A call goes on. -/
theorem activity (hv : Filed v) (hd : Delivered v) (h : Still v w) {p : TaskId} {a a' : Activity}
    (hp : v.task p = .activity a)
    (htask : w.task = update v.task p (.activity a')) (hsub : w.subscription = v.subscription)
    (hor : ∀ (g i : Nat) (p : TaskId), (v.origins g)[i]? = some p → (w.origins g)[i]? = some p)
    (hf : FellBack a → FellBack a') (hc : ∀ f r, a' = .delivering f r → v.Carries (v.hubOf p) p f) : Delivered w := by
  have hne : ∀ n, n ≠ p → w.task n = v.task n := fun n hn => by rw [htask, update_of_ne hn]
  have hself : w.task p = .activity a' := by rw [htask, update_self]
  have hx : ∀ n x, w.task n = .subscriber x → v.task n = .subscriber x := by
    intro n x hn
    rw [htask] at hn
    exact (Filed.update_task_iff (by rw [hp]; simp) (by simp)).1 hn
  refine hd.still h ?_ ?_
  · rintro hub n (⟨b, q, hb, hfb, hq, hub'⟩ | ⟨f, i, hi, hpass⟩)
    · left
      rcases eq_or_ne n p with rfl | hn
      · rw [hp] at hb
        cases hb
        exact ⟨a', q, hself, hf hfb, by rw [h.posts]; exact hq, hub'⟩
      · exact ⟨b, q, by rw [hne n hn]; exact hb, hfb, by rw [h.posts]; exact hq, hub'⟩
    · right
      refine ⟨f, i, hor f i n hi, fun m x k s hm hx' hk hs => ?_⟩
      rw [hsub] at hs
      exact hpass m x k s (hx m x hm) hx' hk hs
  · intro n f hn
    rcases eq_or_ne n p with rfl | hnp
    · rw [hself] at hn
      obtain ⟨r, hr⟩ : ∃ r, a' = .delivering f r := by
        rcases Task.fanout?_eq_some hn with ⟨r, hr⟩ | ⟨x, k, hr, -⟩
        · exact ⟨r, Task.activity.inj hr⟩
        · cases hr
      have hs : w.source n = n := by rw [source, hself]
      have hh : w.hubOf n = v.hubOf n := by rw [hubOf, hubOf, hself, hp, h.posts]
      rw [hs, hh]
      exact h.carries (hc f r hr)
    · have ht := hne n hnp
      rw [ht] at hn
      rw [source_congr hv hn ht (fun _ k _ _ => by rw [hsub]) hor, hubOf_congr (by rw [h.posts]) ht]
      exact h.carries (hd.carried n f hn)

/-- A subscriber goes on: whatever its hub had passed it has still passed. -/
theorem subscriber (hv : Filed v) (hd : Delivered v) (h : Still v w) {n : TaskId} {x x' : Subscriber}
    (hn : v.task n = .subscriber x) (htask : w.task = update v.task n (.subscriber x')) (hub : x'.hub = x.hub)
    (hor : w.origins = v.origins)
    (hsub : ∀ j, x.held? ≠ some j → v.subscription j ≠ none → w.subscription j = v.subscription j)
    (hpass : ∀ (f i : Nat) (p : TaskId), (v.origins f)[i]? = some p → v.Passed x.hub f i →
      ∀ k s, x'.held? = some k → w.subscription k = some s → f < s.feed ∨ f = s.feed ∧ i < s.position)
    (hc : ∀ k f, x'.state = .relaying k f → w.Carries x.hub (w.source n) f) : Delivered w := by
  have hne : ∀ m, m ≠ n → w.task m = v.task m := fun m hm => by rw [htask, update_of_ne hm]
  have hself : w.task n = .subscriber x' := by rw [htask, update_self]
  -- the subscriptions of the others stay
  have hothers : ∀ m z k, m ≠ n → v.task m = .subscriber z → z.held? = some k →
      w.subscription k = v.subscription k := by
    intro m z k hm hz hk
    obtain ⟨s, hs, -⟩ := hv.reads m z k hz hk
    exact hsub k (fun hx => hm (hv.apart m n z x k hz hn hk hx)) (by rw [hs]; simp)
  refine hd.still h ?_ ?_
  · rintro g p (⟨b, q, hb, hfb, hq, hub'⟩ | ⟨f, i, hi, hp⟩)
    · left
      have hpn : p ≠ n := by rintro rfl; rw [hn] at hb; cases hb
      exact ⟨b, q, by rw [hne p hpn]; exact hb, hfb, by rw [h.posts]; exact hq, hub'⟩
    · right
      refine ⟨f, i, by rw [hor]; exact hi, fun m z k s hm hz hk hs => ?_⟩
      rcases eq_or_ne m n with rfl | hmn
      · rw [hself] at hm
        cases hm
        exact hpass f i p hi (hub ▸ hz ▸ hp) k s hk hs
      · rw [hne m hmn] at hm
        rw [hothers m z k hmn hm hk] at hs
        exact hp m z k s hm hz hk hs
  · intro m f hm
    rcases eq_or_ne m n with rfl | hmn
    · rw [hself] at hm
      rcases Task.fanout?_eq_some hm with ⟨r, hr⟩ | ⟨z, k, hr, hz⟩
      · cases hr
      · cases hr
        have hh : w.hubOf m = x.hub := by rw [hubOf, hself]; exact hub
        rw [hh]
        exact hc k f hz
    · have ht := hne m hmn
      rw [ht] at hm
      rw [source_congr hv hm ht (fun z k hz hk => hothers m z k hmn hz hk) (fun _ _ _ hi => by rw [hor]; exact hi),
        hubOf_congr (by rw [h.posts]) ht]
      exact h.carries (hd.carried m f hm)

theorem fanout (hv : Filed v) (hd : Delivered v) (h : Still v w) {n : TaskId} {f f' : Fanout}
    (hn : (v.task n).fanout? = some f) (htask : w.task = update v.task n ((v.task n).withFanout f'))
    (hsub : w.subscription = v.subscription) (hor : w.origins = v.origins)
    (hc : v.Carries (v.hubOf n) (v.source n) f') :
    Delivered w := by
  rcases source_spec hv hn with ⟨r, ht, hs⟩ | ⟨x, k, s, ht, hx, hk, h0, hp⟩
  · have hw : w.task = update v.task n (.activity (.delivering f' r)) := by rw [htask, ht]; rfl
    rw [hs] at hc
    exact hd.activity hv h ht hw hsub (fun _ _ _ hi => by rw [hor]; exact hi) fellBack_delivering
      (fun g r' hg => by cases hg; exact hc)
  · have hheld : x.held? = some k := by rw [Subscriber.held?, hx]
    have hw : w.task = update v.task n (.subscriber { x with state := .relaying k f' }) := by
      obtain ⟨hub, delay, state⟩ := x
      subst hx
      rw [htask, ht]
      rfl
    have hself : w.task n = .subscriber { x with state := .relaying k f' } := by rw [hw, update_self]
    refine hd.subscriber hv h ht hw rfl hor (fun j _ _ => by rw [hsub]) ?_ ?_
    · intro g i p hi hp j s' hj hs'
      cases hj
      rw [hsub] at hs'
      exact hp n x k s' ht rfl hheld hs'
    · intro j g hg
      cases hg
      have hsrc : w.source n = v.source n := by
        have h1 := (List.getElem?_eq_some_iff.1 hp)
        rw [source, hself]
        simp only [hsub, hk, hor]
        rw [List.getD_eq_getElem?_getD, hp, Option.getD_some]
      have hhub : v.hubOf n = x.hub := by rw [hubOf, ht]
      rw [hsrc, ← hhub]
      exact h.carries hc

/-- A connection is given a frame that no delivery can bring it again. -/
theorem heard (hd : Delivered v) {c : ConnId} {p : TaskId} (hc : c < v.count) (hk : v.posts p ≠ none)
    (hr : v.roomOf p = v.room c) (hcame : v.Came (v.home c) p) (hnew : p ∉ v.accepted c)
    (hlast : ∀ n f, (v.task n).fanout? = some f → v.hubOf n = v.home c → v.source n = p →
      ∃ frame rest sent, f = .handing frame rest sent ∧ c ∉ rest) :
    Delivered { v with accepted := update v.accepted c (v.accepted c ++ [p])
                       frames := update v.frames c (v.frames c ++ [v.text p]) } := by
  have hmem : ∀ d q, q ∈ update v.accepted c (v.accepted c ++ [p]) d ↔ q ∈ v.accepted d ∨ (d = c ∧ q = p) := by
    intro d q
    rcases eq_or_ne d c with rfl | hd'
    · rw [update_self]; simp
    · rw [update_of_ne hd']; simp [hd']
  refine ⟨hd.member, hd.nodup, ?_, ?_, ?_, ?_, ?_, ?_, ?_⟩
  · intro d hd'
    have hne : d ≠ c := by rintro rfl; exact absurd hc (Nat.not_lt.2 hd')
    obtain ⟨h1, h2⟩ := hd.unborn d hd'
    exact ⟨(update_of_ne hne _ _).trans h1, (update_of_ne hne _ _).trans h2⟩
  · intro d q hq
    rcases (hmem d q).1 hq with h | ⟨rfl, rfl⟩
    · exact hd.known d q h
    · exact hk
  · intro d q hq
    rcases (hmem d q).1 hq with h | ⟨rfl, rfl⟩
    · exact hd.room d q h
    · exact hr
  · intro d q hq
    rcases (hmem d q).1 hq with h | ⟨rfl, rfl⟩
    · exact hd.came d q h
    · exact hcame
  · intro d
    show (update v.accepted c (v.accepted c ++ [p]) d).Nodup
    rcases eq_or_ne d c with rfl | hne
    · rw [update_self]
      refine List.nodup_append.2 ⟨hd.distinct d, by simp, fun a ha b hb => ?_⟩
      rw [List.mem_singleton.1 hb]
      rintro rfl
      exact hnew ha
    · rw [update_of_ne hne]; exact hd.distinct d
  · intro d
    show update v.frames c (v.frames c ++ [v.text p]) d = (update v.accepted c (v.accepted c ++ [p]) d).map v.text
    rcases eq_or_ne d c with rfl | hne
    · rw [update_self, update_self, hd.frames d]; simp
    · rw [update_of_ne hne, update_of_ne hne]; exact hd.frames d
  · intro n f hn
    have hcar : v.Carries (v.hubOf n) (v.source n) f := hd.carried n f hn
    show Carries _ (v.hubOf n) (v.source n) f
    by_cases hsame : v.hubOf n = v.home c ∧ v.source n = p
    · obtain ⟨frame, rest, sent, rfl, hrest⟩ := hlast n f hn hsame.1 hsame.2
      obtain ⟨h1, h2, h3⟩ := hcar
      refine ⟨h1, h2, fun d hd' => ?_⟩
      obtain ⟨h4, h5, h6, h7⟩ := h3 d hd'
      refine ⟨h4, h5, h6, fun h => ?_⟩
      rcases (hmem d _).1 h with h | ⟨rfl, -⟩
      · exact h7 h
      · exact hrest hd'
    · -- another frame, or another hub: the new one does not count there
      have hout : ∀ d, v.home d = v.hubOf n → v.source n ∉ v.accepted d →
          v.source n ∉ update v.accepted c (v.accepted c ++ [p]) d := by
        intro d hd' hno h
        rcases (hmem d _).1 h with h | ⟨rfl, hq⟩
        · exact hno h
        · exact hsame ⟨hd'.symm, hq⟩
      cases f with
      | done => trivial
      | listing hub room frame =>
        obtain ⟨h1, h2, h3, h4⟩ := hcar
        exact ⟨h1, h2, h3, fun d hd' => hout d hd' (h4 d hd')⟩
      | handing frame rest sent =>
        obtain ⟨h1, h2, h3⟩ := hcar
        refine ⟨h1, h2, fun d hd' => ?_⟩
        obtain ⟨h4, h5, h6, h7⟩ := h3 d hd'
        exact ⟨h4, h5, h6, hout d h5 h7⟩

/-! ### One change -/

theorem call (hv : Filed v) (hd : Delivered v) {p : TaskId} (q : Post) (hp : v.task p = .done) :
    Delivered { v with posts := update v.posts p (some q), task := update v.task p (.activity (.attempting q 1)) } := by
  have h0 : v.posts p = none := hv.posts_eq_none hp
  -- a call that was known is another one
  have hne : ∀ n, v.posts n ≠ none → n ≠ p := fun n hn h => hn (h ▸ h0)
  have hposts : ∀ n, v.posts n ≠ none → update v.posts p (some q) n = v.posts n :=
    fun n hn => update_of_ne (hne n hn) ..
  have hroom : ∀ n, v.posts n ≠ none →
      roomOf { v with posts := update v.posts p (some q), task := update v.task p (.activity (.attempting q 1)) } n =
        v.roomOf n :=
    fun n hn => roomOf_congr (hposts n hn)
  have htext : ∀ n, v.posts n ≠ none →
      text { v with posts := update v.posts p (some q), task := update v.task p (.activity (.attempting q 1)) } n =
        v.text n :=
    fun n hn => text_congr (hposts n hn)
  have hx : ∀ n x, update v.task p (.activity (.attempting q 1)) n = .subscriber x ↔ v.task n = .subscriber x :=
    fun n x => Filed.update_task_iff (by rw [hp]; simp) (by simp)
  refine ⟨hd.member, hd.nodup, hd.unborn, ?_, ?_, ?_, hd.distinct, ?_, ?_⟩
  · intro c n hn
    have hk := hd.known c n hn
    exact fun h => hk ((hposts n hk).symm.trans h)
  · intro c n hn
    rw [hroom n (hd.known c n hn)]
    exact hd.room c n hn
  · intro c n hn
    have hk := hd.known c n hn
    rcases hd.came c n hn with ⟨a, r, ha, hf, hr, hub⟩ | ⟨f, i, hi, hpass⟩
    · exact .inl ⟨a, r, (update_of_ne (hne n hk) ..).trans ha, hf, (hposts n hk).trans hr, hub⟩
    · exact .inr ⟨f, i, hi, fun m x k s hm => hpass m x k s ((hx m x).1 hm)⟩
  · intro c
    refine (hd.frames c).trans (List.map_congr_left fun n hn => ?_)
    exact (htext n (hd.known c n hn)).symm
  · intro n f hn
    have hnp : n ≠ p := by
      rintro rfl
      have hn : (update v.task n (.activity (.attempting q 1)) n).fanout? = some f := hn
      rw [update_self] at hn
      cases hn
    have ht : update v.task p (.activity (.attempting q 1)) n = v.task n := update_of_ne hnp ..
    have hn' : (v.task n).fanout? = some f := ht ▸ hn
    have hs := source_congr
        (w := { v with posts := update v.posts p (some q), task := update v.task p (.activity (.attempting q 1)) })
      hv hn' ht (fun _ _ _ _ => rfl) (fun _ _ _ h => h)
    have hc := hd.carried n f hn'
    have hk := source_posts hv hn'
    rw [hs, hubOf_congr (v := v) (update_of_ne hnp ..) ht]
    cases f with
    | done => trivial
    | listing => exact ⟨hc.1, hc.2.1.trans (hroom _ hk).symm,
        hc.2.2.1.trans (congrArg some (htext _ hk).symm), hc.2.2.2⟩
    | handing =>
      refine ⟨hc.1.trans (htext _ hk).symm, hc.2.1, fun c hcm => ?_⟩
      obtain ⟨h1, h2, h3, h4⟩ := hc.2.2 c hcm
      exact ⟨h1, h2, h3.trans (hroom _ hk).symm, h4⟩

/-- A message that a subscriber takes from the feed has reached no connection of its hub. -/
theorem received (hv : Filed v) (hd : Delivered v) {n : TaskId} {x : Subscriber} {k place : Nat} {r : Bool}
    {s : Broker.Subscription} {p : TaskId} (hn : v.task n = .subscriber x) (hx : x.state = .listening k r)
    (hs : v.subscription k = some s) (hp : (v.origins s.feed)[place]? = some p) (hle : s.position ≤ place) :
    Delivered { v with
      task := update v.task n (.subscriber { x with state := .relaying k (Subscriber.relay x.hub (v.message p)) })
      subscription := update v.subscription k (some { s with position := place + 1 }) } := by
  have hk : x.held? = some k := by rw [Subscriber.held?, hx]
  refine hd.subscriber hv ⟨rfl, rfl, rfl, rfl, rfl, rfl, rfl⟩ hn rfl rfl rfl ?_ ?_ ?_
  · intro j hj _
    exact update_of_ne (fun h : j = k => hj (h ▸ hk)) ..
  · intro f i q hi hpass j s' hj hs'
    cases hj
    cases (update_self k _ v.subscription).symm.trans hs'
    rcases hpass n x k s hn rfl hk hs with h | ⟨h1, h2⟩
    · exact .inl h
    · exact .inr ⟨h1, by show i < place + 1; omega⟩
  · intro j f hf
    cases hf
    obtain ⟨-, -, q, text, hq, he⟩ := hv.placed s.feed place p hp
    have hm : v.message p = q.message text := by simp [Traffic.message, Traffic.text, hq, he, Except.toOption]
    have hnew : ∀ c, v.home c = x.hub → p ∉ v.accepted c :=
      hd.unpassed hv hp fun h => by rcases h n x k s hn rfl hk hs with h | ⟨-, h⟩ <;> omega
    have hsrc : ∀ f', source { v with
        task := update v.task n (.subscriber { x with state := .relaying k f' })
        subscription := update v.subscription k (some { s with position := place + 1 }) } n = p := by
      intro f'
      simp [source, List.getD_eq_getElem?_getD, hp]
    rw [hsrc, hm, Subscriber.relay_message]
    split
    · trivial
    · exact ⟨rfl, by simp [roomOf, hq], by simp [Traffic.text, hq, he, Except.toOption], hnew⟩

/-- A delivery hands its frame to a connection that has not had it and will not have it again. -/
theorem hand (hv : Filed v) (hd : Delivered v) {n : TaskId} {frame : String} {c : ConnId} {rest : List ConnId}
    {sent : Nat} (hn : (v.task n).fanout? = some (.handing frame (c :: rest) sent)) :
    Delivered { v with task := update v.task n ((v.task n).withFanout (.handing frame rest (sent + 1)))
                       accepted := update v.accepted c (v.accepted c ++ [v.source n])
                       frames := update v.frames c (v.frames c ++ [frame]) } := by
  obtain ⟨rfl, hnd, hall⟩ := hd.carried n _ hn
  obtain ⟨hrest, hnd⟩ := List.nodup_cons.1 hnd
  obtain ⟨hc, hhome, hroom, hnew⟩ := hall c List.mem_cons_self
  -- first the delivery goes on, then the connection has the frame
  have hfiled : Filed
      { v with task := update v.task n ((v.task n).withFanout (.handing (v.text (v.source n)) rest (sent + 1))) } :=
    hv.fanout hn rfl rfl rfl rfl rfl
  have hdel : Delivered
      { v with task := update v.task n ((v.task n).withFanout (.handing (v.text (v.source n)) rest (sent + 1))) } :=
    hd.fanout hv ⟨rfl, rfl, rfl, rfl, rfl, rfl, rfl⟩ hn rfl rfl rfl
      ⟨rfl, hnd, fun d hd' => hall d (List.mem_cons_of_mem _ hd')⟩
  obtain ⟨hf, hsrc, hhub⟩ := source_withFanout
    (w := { v with task := update v.task n ((v.task n).withFanout (.handing (v.text (v.source n)) rest (sent + 1))) })
    hv hn rfl rfl rfl rfl
  refine hdel.heard hc (source_posts hv hn) hroom.symm ?_ hnew ?_
  · have hcame := came_source hfiled hf
    rw [hsrc, hhub, ← hhome] at hcame
    exact hcame
  · intro m g hm hub hs
    obtain rfl := source_inj hfiled hm hf (hub.trans (hhome.trans hhub.symm)) (hs.trans hsrc.symm)
    rw [hf] at hm
    cases hm
    exact ⟨_, rest, _, rfl, hrest⟩

theorem listen (hv : Filed v) (hd : Delivered v) {n : TaskId} {x : Subscriber} (hn : v.task n = .done)
    (hx : x.held? = none) :
    Delivered { v with task := update v.task n (.subscriber x) } := by
  -- a subscriber that holds no subscription has no place and no frame
  have hact : ∀ m a, v.task m = .activity a → update v.task n (.subscriber x) m = .activity a :=
    fun m a => (Filed.update_task_iff (by rw [hn]; simp) (by simp)).2
  have hsub : ∀ m z k, update v.task n (.subscriber x) m = .subscriber z → z.held? = some k →
      v.task m = .subscriber z := by
    intro m z k hm hz
    rcases eq_or_ne m n with rfl | hne
    · rw [update_self] at hm
      cases hm
      rw [hx] at hz
      cases hz
    · rwa [update_of_ne hne] at hm
  refine hd.still ⟨rfl, rfl, rfl, rfl, rfl, rfl, rfl⟩ ?_ ?_
  · rintro hub p (⟨a, q, ha, hf, hq⟩ | ⟨f, i, hi, hp⟩)
    · exact .inl ⟨a, q, hact p a ha, hf, hq⟩
    · exact .inr ⟨f, i, hi, fun m z k s hm hz hk => hp m z k s (hsub m z k hm hk) hz hk⟩
  · intro m f hm
    have hmn : m ≠ n := by
      rintro rfl
      have hm : (update v.task m (.subscriber x) m).fanout? = some f := hm
      rw [update_self] at hm
      rcases Task.fanout?_eq_some hm with ⟨r, hr⟩ | ⟨z, k, hr, hz⟩
      · cases hr
      · cases hr
        rw [Subscriber.held?, hz] at hx
        cases hx
    have ht : update v.task n (.subscriber x) m = v.task m := update_of_ne hmn ..
    have hm' : (v.task m).fanout? = some f := ht ▸ hm
    rw [source_congr (w := { v with task := update v.task n (.subscriber x) }) hv hm' ht (fun _ _ _ _ => rfl)
      (fun _ _ _ h => h), hubOf_congr (v := v) (w := { v with task := update v.task n (.subscriber x) }) rfl ht]
    exact Still.carries ⟨rfl, rfl, rfl, rfl, rfl, rfl, rfl⟩ (hd.carried m f hm')

/-- A connection that comes has no frame yet, and nobody lists it. -/
theorem connect (hd : Delivered v) (hub : Nat) (room : String) :
    Delivered { v with count := v.count + 1
                       home := update v.home v.count hub
                       room := update v.room v.count room } := by
  -- the new connection has the number that none had
  have hold : ∀ c, c < v.count → c ≠ v.count := fun c hc => Nat.ne_of_lt hc
  have hborn : ∀ c p, p ∈ v.accepted c → c < v.count := by
    intro c p hp
    by_contra h
    rw [(hd.unborn c (Nat.le_of_not_lt h)).1] at hp
    cases hp
  refine ⟨?_, hd.nodup, ?_, hd.known, ?_, ?_, hd.distinct, hd.frames, ?_⟩
  · intro h r c hc
    obtain ⟨h1, h2, h3⟩ := hd.member h r c hc
    exact ⟨Nat.lt_succ_of_lt h1, (update_of_ne (hold c h1) ..).trans h2, (update_of_ne (hold c h1) ..).trans h3⟩
  · intro c hc
    exact hd.unborn c (Nat.le_of_succ_le hc)
  · intro c p hp
    exact (hd.room c p hp).trans (update_of_ne (hold c (hborn c p hp)) ..).symm
  · intro c p hp
    have hhome : update v.home v.count hub c = v.home c := update_of_ne (hold c (hborn c p hp)) ..
    have hcame := hd.came c p hp
    rw [← hhome] at hcame
    exact hcame
  · intro n f hn
    have hc := hd.carried n f hn
    cases f with
    | done => trivial
    | listing h r frame =>
      obtain ⟨h1, h2, h3, h4⟩ := hc
      refine ⟨h1, h2, h3, fun c hc => ?_⟩
      rcases eq_or_ne c v.count with rfl | hne
      · rw [show v.accepted v.count = [] from (hd.unborn _ (Nat.le_refl _)).1]
        exact List.not_mem_nil
      · exact h4 c ((update_of_ne hne ..).symm.trans hc)
    | handing frame rest sent =>
      obtain ⟨h1, h2, h3⟩ := hc
      refine ⟨h1, h2, fun c hc => ?_⟩
      obtain ⟨h4, h5, h6, h7⟩ := h3 c hc
      exact ⟨Nat.lt_succ_of_lt h4, (update_of_ne (hold c h4) ..).trans h5, (update_of_ne (hold c h4) ..).trans h6, h7⟩

/-- **What was delivered stays in order.** -/
theorem change (hv : Filed v) (hd : Delivered v) (h : Change takes v w) : Delivered w := by
  cases h with
  | none => exact hd
  | call p q hp => exact hd.call hv q hp
  | listen n x hn hx alone => exact hd.listen hv hn hx
  | connect hub room => exact hd.connect hub room
  | enlist members hm hnd =>
    refine ⟨fun h r c hc => (hm h r c hc).elim (hd.member h r c) id, hnd, hd.unborn, hd.known, hd.room, hd.came,
      hd.distinct, hd.frames, ?_⟩
    intro n f hn
    have hc := hd.carried n f hn
    cases f <;> exact hc
  | quiet p a a' hp ha =>
    refine hd.activity hv ⟨rfl, rfl, rfl, rfl, rfl, rfl, rfl⟩ hp rfl rfl (fun _ _ _ h => h) ?_ ?_
    · intro hf
      cases ha with
      | settle k r =>
        cases r with
        | ok => exact hf.elim
        | error e => cases e <;> exact hf
      | _ => exact hf.elim
    · rintro f r rfl
      cases ha
  | accept p q n text hp he =>
    exact hd.activity hv ⟨rfl, rfl, rfl, rfl, rfl, rfl, rfl⟩ hp rfl rfl
      (fun _ _ _ h => Filed.getElem?_update_origins.2 (.inl h)) (fun h => h.elim) (fun f r h => by cases h)
  | fallBack p q n text hp he k e =>
    obtain ⟨q', hq, hfit⟩ := hv.fits p _ hp
    obtain rfl : q = q' := hfit
    refine hd.activity hv ⟨rfl, rfl, rfl, rfl, rfl, rfl, rfl⟩ hp rfl rfl (fun _ _ _ h => h) (fun h => h.elim) ?_
    intro f r hf
    cases hf
    refine ⟨by simp [hubOf, hp, hq], by simp [roomOf, hq], by simp [Traffic.text, hq, he, Except.toOption],
      fun c _ => ?_⟩
    exact hd.fresh hv hp (by simp) (fun h => h.elim) c
  | pass n f f' hn hf =>
    refine hd.fanout hv ⟨rfl, rfl, rfl, rfl, rfl, rfl, rfl⟩ hn rfl rfl rfl ?_
    have hc := hd.carried n f hn
    cases hf with
    | blank => trivial
    | finish => trivial
    | list hub room text =>
      obtain ⟨rfl, rfl, hft, hno⟩ := hc
      refine ⟨Option.some.inj hft, hd.nodup _ _, fun c hcm => ?_⟩
      obtain ⟨h1, h2, h3⟩ := hd.member _ _ c hcm
      exact ⟨h1, h2, h3, hno c h2⟩
    | skip frame c rest sent ht =>
      exact ⟨hc.1, (List.nodup_cons.1 hc.2.1).2, fun d hd' => hc.2.2 d (List.mem_cons_of_mem c hd')⟩
  | hand n frame c rest sent hn ht => exact hd.hand hv hn
  | subscribed n x hn hx k hk globs hg =>
    refine hd.subscriber hv ⟨rfl, rfl, rfl, rfl, rfl, rfl, rfl⟩ hn rfl rfl rfl ?_ ?_ ?_
    · intro j _ hj
      exact update_of_ne (fun h : j = k => hj (h ▸ hk)) ..
    · intro f i p hi hp j s hj hs
      cases hj
      cases (update_self k _ v.subscription).symm.trans hs
      -- the place is the end of the newest feed
      have hle := (hv.placed f i p hi).1
      have hlt := (List.getElem?_eq_some_iff.1 hi).1
      rcases Nat.lt_or_eq_of_le hle with h | rfl
      · exact .inl h
      · exact .inr ⟨rfl, hlt⟩
    · intro j f hf
      cases hf
  | received n x hn k r hx s hs place p hp hle hskip => exact hd.received hv hn hx hs hp hle
  | relayed n x hn k j hx =>
    have hk : x.held? = some k := by rw [Subscriber.held?, hx]
    refine hd.subscriber hv ⟨rfl, rfl, rfl, rfl, rfl, rfl, rfl⟩ hn rfl rfl rfl (fun _ _ _ => rfl) ?_ ?_
    · intro f i p hi hp i' s hi' hs
      cases hi'
      exact hp n x k s hn rfl hk hs
    · intro i f hf
      cases hf
  | rest n x x' hn hub hx hend subscription hs =>
    refine hd.subscriber hv ⟨rfl, rfl, rfl, rfl, rfl, rfl, rfl⟩ hn rfl hub rfl (fun j hj _ => hs j hj) ?_ ?_
    · intro f i p hi hp k s hk
      rw [hx] at hk
      cases hk
    · intro k f hf
      rw [Subscriber.held?, hf] at hx
      cases hx
  | disconnect =>
    refine hd.still ⟨rfl, rfl, rfl, rfl, rfl, rfl, rfl⟩ (fun _ _ h => h) ?_
    intro n f hn
    exact Still.carries ⟨rfl, rfl, rfl, rfl, rfl, rfl, rfl⟩ (hd.carried n f hn)

end Delivered

end Parley.Traffic
