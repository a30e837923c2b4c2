import Parley.Proofs.Channel
import Parley.Proofs.Delivery.Broadcast
import Parley.Proofs.Turn

/-!
# A message on its way through a hub's subscription

An event that the broker accepts comes back as a message to the hub's own subscription. Where that had read
everything before, the message is the next it gives and the last (`Attends.receive`); a publish that succeeds leaves
the message at the end of the current feed (`course_feeds`); and the subscription hands the message to the
connections of its room (`Passing.course`), which it can always do (`exists_relayed`).
-/

namespace Parley

open Hub

namespace Service

def Passes (s t : Service) : Prop := ∃ now, t = { s with now }

theorem passes_to (s : Service) (now : Instant) : s.Passes { s with now } := ⟨now, rfl⟩

end Service

namespace MemoryBroker

open Broker

variable {b b' : MemoryBroker} {k : Nat}

/-- A subscription of a hub that has read everything there is. -/
structure Attends (b : MemoryBroker) (k : Nat) (s : Subscription) : Prop where
  held : b.subscriptions[k]? = some s
  kept : s.dropped = false
  patterns : readPatterns Subscriber.patterns = .ok s.patterns
  lies : s.feed < b.feeds.size
  stop : s.position ≤ (b.feed s.feed).size
  drained : (b.receive k).1 = .waiting

theorem seek_push {ms : Array Broker.Message} {m : Broker.Message} {globs : List Glob} {start : Nat}
    (hle : start ≤ ms.size) (hno : ∀ i (h : i < ms.size), start ≤ i → globs.any (·.accepts ms[i].channel) = false)
    (hm : globs.any (·.accepts m.channel) = true) : seek (ms.push m) globs start = ms.size := by
  obtain ⟨hge, hall⟩ := seek_spec (ms.push m) globs start
  refine Nat.le_antisymm ?_ ?_
  · by_contra hlt
    have := hall ms.size (by simp) hle (Nat.lt_of_not_le hlt)
    rw [Array.getElem_push_eq, hm] at this
    cases this
  · by_contra hlt
    have hin : seek (ms.push m) globs start < ms.size := Nat.lt_of_not_le hlt
    have hget : (ms.push m)[seek (ms.push m) globs start]? = some ms[seek (ms.push m) globs start] := by
      rw [Array.getElem?_push_lt hin]
    have := seek_accepts hget
    rw [hno _ hin hge] at this
    cases this

/-- A read of a subscription that was not given up, by the place where it stops. -/
theorem receive_eq {s : Subscription} (hs : b.subscriptions[k]? = some s) (hd : s.dropped = false) {place : Nat}
    (hp : seek (b.feed s.feed) s.patterns (max s.position (oldest (b.feed s.feed).size)) = place) :
    (∀ m, (b.feed s.feed)[place]? = some m →
      b.receive k = (.message m, { b with subscriptions := b.subscriptions.set! k { s with position := place + 1 } })) ∧
    ((b.feed s.feed)[place]? = none → s.feed = b.current → (b.receive k).1 = .waiting) := by
  subst hp
  unfold receive
  rw [hs]
  dsimp only
  rw [if_neg (by simp [hd])]
  constructor
  · intro m hm
    rw [hm]
  · intro hnone hc
    rw [hnone]
    simp [hc]

/-- A message for which a drained subscription asks is the next it gives, and the last. -/
theorem Attends.receive {s : Subscription} (h : b.Attends k s) {m : Broker.Message}
    (hm : s.patterns.any (·.accepts m.channel) = true) (hsub : b'.subscriptions = b.subscriptions)
    (hfeeds : b'.feeds = b.feeds.modify b.current (·.push m)) :
    (b'.receive k).1 = .message m ∧ ((b'.receive k).2.receive k).1 = .waiting := by
  have hlt : k < b.subscriptions.size := (Array.getElem?_eq_some_iff.mp h.held).1
  have hstop := h.stop
  have hwaits : b.receive k = (.waiting, (b.receive k).2) := Prod.ext h.drained rfl
  obtain ⟨place, hplace, hnone, hcase, -⟩ := receive_nothing hwaits h.held h.kept nofun
  have hcur : s.feed = b.current := by
    rcases hcase with ⟨-, hc⟩ | ⟨he, -⟩
    · exact hc
    · cases he
  have hcur' : s.feed = b'.current := by rw [hcur, current, current, hfeeds, Array.size_modify]
  have hfeed : b'.feed s.feed = (b.feed s.feed).push m := by
    rw [feed_modify_current (Nat.zero_lt_of_lt h.lies) hfeeds, if_pos hcur]
  -- nothing of what was there before is asked for
  have hno : ∀ i (hi : i < (b.feed s.feed).size), max s.position (oldest (b.feed s.feed).size) ≤ i →
      s.patterns.any (·.accepts (b.feed s.feed)[i].channel) = false := by
    intro i hi hle
    have hend := Array.getElem?_eq_none_iff.mp hnone
    exact (seek_spec _ _ _).2 i hi hle (by omega)
  have hseek : seek (b'.feed s.feed) s.patterns (max s.position (oldest (b'.feed s.feed).size)) =
      (b.feed s.feed).size := by
    rw [hfeed, Array.size_push]
    refine seek_push ?_ (fun i hi hle => hno i hi ?_) hm
    · unfold oldest
      have : 0 < capacity := by decide
      omega
    · unfold oldest at hle ⊢
      omega
  have hheld : b'.subscriptions[k]? = some s := by rw [hsub]; exact h.held
  have hgives : b'.receive k = (.message m, { b' with
      subscriptions := b'.subscriptions.set! k { s with position := (b.feed s.feed).size + 1 } }) :=
    (receive_eq hheld h.kept hseek).1 m (by rw [hfeed, Array.getElem?_push_size])
  refine ⟨by rw [hgives], ?_⟩
  rw [hgives]
  -- the next read begins behind it, at the end
  have hheld' : (b'.subscriptions.set! k { s with position := (b.feed s.feed).size + 1 })[k]? =
      some { s with position := (b.feed s.feed).size + 1 } := by
    rw [Array.set!_eq_setIfInBounds, Array.getElem?_setIfInBounds_self_of_lt (by rw [hsub]; exact hlt)]
  have hsize : (b'.feed s.feed).size = (b.feed s.feed).size + 1 := by rw [hfeed, Array.size_push]
  have hwaits' := (receive_eq (b := { b' with
    subscriptions := b'.subscriptions.set! k { s with position := (b.feed s.feed).size + 1 } }) hheld' h.kept rfl).2
  refine hwaits' (Array.getElem?_eq_none ?_) hcur'
  have hge := (seek_spec (b'.feed s.feed) s.patterns
    (max ((b.feed s.feed).size + 1) (oldest (b'.feed s.feed).size))).1
  exact Nat.le_trans (Nat.le_of_eq hsize) (Nat.le_trans (Nat.le_max_left _ _) hge)

/-- A hub can subscribe with a broker that is there, -/
theorem subscribe_patterns (b : MemoryBroker) (ha : b.available = true) :
    (b.subscribe Subscriber.patterns).1 = .ok b.subscriptions.size := by
  obtain ⟨globs, hglobs, -⟩ := Subscriber.patterns_spec
  unfold subscribe
  rw [if_neg (by simp [ha]), hglobs]

/-- and has then read everything there is. -/
theorem attends_subscribe (hb : 0 < b.feeds.size) {n : Nat} (h : (b.subscribe Subscriber.patterns).1 = .ok n) :
    ∃ s, (b.subscribe Subscriber.patterns).2.Attends n s := by
  obtain ⟨rfl, globs, hglobs, hfeeds, hsubs⟩ := subscribe_ok h
  have hfeed : (b.subscribe Subscriber.patterns).2.feed b.current = b.feed b.current := by rw [feed, hfeeds, feed]
  have hcurrent : (b.subscribe Subscriber.patterns).2.current = b.current := by rw [current, hfeeds, current]
  have hheld : (b.subscribe Subscriber.patterns).2.subscriptions[b.subscriptions.size]? =
      some { feed := b.current, position := (b.feed b.current).size, patterns := globs } := by
    rw [hsubs, Array.getElem?_push_size]
  refine ⟨_, hheld, rfl, hglobs, ?_, ?_, (receive_eq hheld rfl rfl).2 (Array.getElem?_eq_none ?_) hcurrent.symm⟩
  · rw [hfeeds]
    exact Nat.sub_lt hb Nat.one_pos
  · exact Nat.le_of_eq (congrArg Array.size hfeed).symm
  · have hge := (seek_spec ((b.subscribe Subscriber.patterns).2.feed b.current) globs
      (max (b.feed b.current).size (oldest ((b.subscribe Subscriber.patterns).2.feed b.current).size))).1
    exact Nat.le_trans (Nat.le_of_eq (congrArg Array.size hfeed)) (Nat.le_trans (Nat.le_max_left _ _) hge)

end MemoryBroker

namespace Hub

open Service

variable {s t u : Service} {hub : Nat} {room text : String} {category : Category} {ds : List Deed}

/-- What an activity about a post does to the feeds that goes on to be accepted, by where it stands: its message
comes at the end of the current feed, unless it is there already. -/
def Activity.Feeds (post : Post) (m : Broker.Message) (s t : Service) : Activity → Prop
  | .recording .. => True
  | .attempting q _ | .pausing q _ _ => q = post → s.hasBroker = true →
      t.broker.subscriptions = s.broker.subscriptions ∧
        t.broker.feeds = s.broker.feeds.modify s.broker.current (·.push m)
  | .delivering _ r => r = .ok ()
  | .finished r => r = .ok () ∧ s.broker.SameTraffic t.broker

theorem Activity.feeds_step {choice : Choice} {a a' : Activity} {post : Post} (he : post.event = .ok text)
    (h : a.step s choice = some (a', t)) (hf : a'.Feeds post (post.message text) t u) :
    a.Feeds post (post.message text) s u := by
  cases a with
  | recording => trivial
  | attempting q n =>
    rintro rfl hb
    obtain ⟨l, hl⟩ := Option.isSome_iff_exists.mp hb
    obtain ⟨rfl, hcase⟩ := step_attempting hl he h
    rw [broker_of_line hl]
    rcases hcase with ⟨ho, rfl⟩ | ⟨e, ho, ⟨-, rfl⟩ | ⟨-, ⟨instant, rfl⟩ | ⟨-, rfl⟩⟩⟩
    · obtain ⟨hfeeds, hsubs⟩ := l.publish_ok s.now ho
      exact ⟨hf.2.subscriptions.trans hsubs, hf.2.feeds.trans hfeeds⟩
    · cases hf
    · have htraffic := l.publish_error s.now ho
      obtain ⟨hsubs, hfeeds⟩ := hf rfl rfl
      have hbroker : ({ s with line := some (l.publish s.now (q.message text)).2 } : Service).broker =
          (l.publish s.now (q.message text)).2.broker := rfl
      rw [hbroker] at hsubs hfeeds
      rw [MemoryBroker.current, htraffic.feeds] at hfeeds
      exact ⟨hsubs.trans htraffic.subscriptions, hfeeds⟩
    · cases hf.1
  | pausing q n instant =>
    obtain ⟨-, rfl, rfl⟩ : instant ≤ s.now ∧ .attempting q n = a' ∧ s = t := by simpa [step] using h
    exact hf
  | delivering f r =>
    cases Activity.step_spec h with
    | deliver => exact hf
    | delivered => exact hf.1
  | finished r => cases h

theorem Activity.course_feeds {a : Activity} (post : Post) (he : post.event = .ok text)
    (h : Course Passes s a ds (.finished (.ok ())) t) : a.Feeds post (post.message text) s t := by
  generalize hb : Activity.finished (.ok ()) = b at h
  induction h with
  | refl s a =>
    subst hb
    exact ⟨rfl, .refl _⟩
  | own choice hstep _ ih => exact feeds_step he hstep (ih hb)
  | other hpass _ ih =>
    obtain ⟨now, rfl⟩ := hpass
    exact ih hb

namespace Subscriber

/-- The subscription of a hub goes on from one moment to another. Between its steps something else may happen, of
which `E` holds. -/
inductive Course (E : Service → Service → Prop) : Service → Subscriber → Subscriber → Service → Prop
  | refl (s : Service) (x : Subscriber) : Course E s x x s
  | own {s t u : Service} {x x' y : Subscriber} (choice : Choice) (h : x.step s choice = some (x', t))
      (rest : Course E t x' y u) : Course E s x y u
  | other {s t u : Service} {x y : Subscriber} (h : E s t) (rest : Course E t x y u) : Course E s x y u

/-- Where a subscription `k` stands with a message that `t` had for it, and no other: it is to be read, is on its
way to the connections, has got there, or never will. -/
inductive Passing (t : Service) (hub : Nat) (m : Broker.Message) (k : Nat) : Subscriber → Service → Prop
  | before (x : Subscriber) (s : Service) (received : Bool) (hub_eq : x.hub = hub)
      (hx : x.state = .listening k received) (hs : t.SameHubs s) (hm : (s.broker.receive k).1 = .message m)
      (hw : ((s.broker.receive k).2.receive k).1 = .waiting) : Passing t hub m k x s
  | during (x : Subscriber) (s : Service) (f : Fanout) (hx : x.state = .relaying k f)
      (hf : ((relay hub m).finish t).2.SameHubs (f.finish s).2) (hw : (s.broker.receive k).1 = .waiting) :
      Passing t hub m k x s
  | after (x : Subscriber) (s : Service) (hx : x.state = .listening k true) (hs : ((relay hub m).finish t).2.SameHubs s)
      (hw : (s.broker.receive k).1 = .waiting) : Passing t hub m k x s
  | gone (x : Subscriber) (s : Service) (hx : x.state = .over) : Passing t hub m k x s

variable {m : Broker.Message} {k : Nat} {x x' : Subscriber}

theorem Passing.step {choice : Choice} (hp : Passing t hub m k x s) (h : x.step s choice = some (x', u)) :
    Passing t hub m k x' u := by
  have hstep := Subscriber.step_spec h
  cases hp with
  | before received hub_eq hx hs hm hw =>
    cases hstep with
    | message l hl n r hx' m' b hr =>
      rw [broker_of_line hl] at hm hw
      obtain ⟨rfl, -⟩ : k = n ∧ received = r := by simpa [hx] using hx'
      rw [hr] at hm hw
      obtain rfl : m' = m := by simpa using hm
      subst hub_eq
      have hread : s.SameHubs { s with line := some { l with broker := b } } := ⟨rfl, rfl⟩
      exact .during _ _ _ rfl ((hs.trans hread).finish _).2 hw
    | ended l hl n r hx' b hr =>
      rw [broker_of_line hl] at hm
      obtain ⟨rfl, -⟩ : k = n ∧ received = r := by simpa [hx] using hx'
      rw [hr] at hm
      cases hm
    | quit | stop => exact .gone _ _ rfl
    | subscribed l hl hx' | refused l hl hx' | relay n f f' hx' | relayed n j hx' | retry instant hx' =>
      rw [hx] at hx'
      cases hx'
  | during f hx hf hw =>
    cases hstep with
    | relay n f₁ f' hx' t' hstep =>
      obtain ⟨rfl, rfl⟩ : k = n ∧ f = f₁ := by simpa [hx] using hx'
      refine .during _ _ f' rfl (by rw [hstep.finish_eq]; exact hf) ?_
      rw [Service.broker, hstep.line]
      exact hw
    | relayed n j hx' =>
      obtain ⟨rfl, rfl⟩ : k = n ∧ f = .done j := by simpa [hx] using hx'
      exact .after _ _ rfl hf hw
    | stop => exact .gone _ _ rfl
    | subscribed _ _ hx' | refused _ _ hx' | message _ _ _ _ hx' | ended _ _ _ _ hx' | retry _ hx'
    | quit _ _ _ _ _ hx' =>
      rw [hx] at hx'
      cases hx'
  | after hx hs hw =>
    cases hstep with
    | message l hl n r hx' m' b hr | ended l hl n r hx' b hr =>
      rw [broker_of_line hl] at hw
      obtain ⟨rfl, -⟩ : k = n ∧ true = r := by simpa [hx] using hx'
      rw [hr] at hw
      cases hw
    | quit | stop => exact .gone _ _ rfl
    | subscribed l hl hx' | refused l hl hx' | relay n f f' hx' | relayed n j hx' | retry instant hx' =>
      rw [hx] at hx'
      cases hx'
  | gone hx =>
    cases hstep with
    | stop => exact .gone _ _ rfl
    | subscribed _ _ hx' | refused _ _ hx' | message _ _ _ _ hx' | ended _ _ _ _ hx' | retry _ hx'
    | quit _ _ _ _ _ hx' =>
      rw [hx] at hx'
      cases hx'
    | relay _ _ _ hx' | relayed _ _ hx' =>
      rw [hx] at hx'
      cases hx'

theorem Passing.passes (hp : Passing t hub m k x s) (h : s.Passes u) : Passing t hub m k x u := by
  obtain ⟨now, rfl⟩ := h
  have hsame : s.SameHubs { s with now } := ⟨rfl, rfl⟩
  cases hp with
  | before received hub_eq hx hs hm hw => exact .before _ _ received hub_eq hx (hs.trans hsame) hm hw
  | during f hx hf hw => exact .during _ _ f hx (hf.trans (hsame.finish f).2) hw
  | after hx hs hw => exact .after _ _ hx (hs.trans hsame) hw
  | gone hx => exact .gone _ _ hx

theorem Passing.course (hp : Passing t hub m k x s) (h : Course Passes s x x' u) : Passing t hub m k x' u := by
  induction h with
  | refl => exact hp
  | own choice hstep _ ih => exact ih (hp.step hstep)
  | other hpass _ ih => exact ih (hp.passes hpass)

end Subscriber

/-! ### The way to the connections comes to an end -/

theorem Fanout.induct_step {P : Service → Fanout → Prop} (done : ∀ s k, P s (.done k))
    (step : ∀ s f, (∀ k, f ≠ .done k) → P (f.step s).2 (f.step s).1 → P s f) (s : Service) (f : Fanout) : P s f := by
  have handing : ∀ rest s frame sent, P s (.handing frame rest sent) := by
    intro rest
    induction rest with
    | nil => exact fun s frame sent => step s _ nofun (done s sent)
    | cons c rest ih =>
      intro s frame sent
      refine step s _ nofun ?_
      obtain ⟨sent', hstep⟩ := Fanout.step_handing s frame c rest sent
      rw [hstep]
      exact ih _ frame sent'
  cases f with
  | done k => exact done s k
  | handing frame rest sent => exact handing rest s frame sent
  | listing hub room frame =>
    cases frame with
    | none => exact step s _ nofun (done s 0)
    | some text => exact step s _ nofun (handing _ s text 0)

namespace Subscriber

variable {E : Service → Service → Prop} {m : Broker.Message} {k : Nat} {x x' : Subscriber}

/-- A subscription can go on without a look at the stop. -/
theorem Course.proceeds {y : Subscriber} {choice : Choice} (hc : choice.stopFirst = false)
    (h : x.proceed s choice = some (x', t)) (rest : Course E t x' y u) : Course E s x y u := by
  refine .own choice ?_ rest
  unfold Subscriber.step
  rw [h, hc]
  split <;> rfl

/-- A message on its way gets there. -/
theorem exists_delivered (E : Service → Service → Prop) {l : Broker.Line} (hl : s.line = some l) (f : Fanout)
    (hx : x.state = .relaying k f) :
    ∃ y u, Course E s x y u ∧ y.state = .listening k true ∧ u.line = s.line := by
  refine Fanout.induct_step (P := fun s f => ∀ x : Subscriber, x.state = .relaying k f → s.line = some l →
    ∃ y u, Course E s x y u ∧ y.state = .listening k true ∧ u.line = s.line)
    (fun s j x hx hl => ?_) (fun s f hf ih x hx hl => ?_) s f x hx hl
  · have hdo : x.proceed s { stopFirst := false } = some ({ x with state := .listening k true }, s) := by
      simp [proceed, hl, hx]
    exact ⟨_, s, .proceeds rfl hdo (.refl _ _), rfl, rfl⟩
  · have hline : (f.step s).2.line = s.line := (Fanout.step_spec s f hf).line
    have hdo : x.proceed s { stopFirst := false } =
        some ({ x with state := .relaying k (f.step s).1 }, (f.step s).2) := by
      cases f with
      | done j => exact absurd rfl (hf j)
      | _ => simp [proceed, hl, hx]
    obtain ⟨y, u, hcourse, hy, hu⟩ := ih { x with state := .relaying k (f.step s).1 } rfl (hline.trans hl)
    exact ⟨y, u, .proceeds rfl hdo hcourse, hy, hu.trans hline⟩

/-- A message that is there for a subscription gets to the connections, and the subscription goes on. -/
theorem exists_relayed (E : Service → Service → Prop) {received : Bool} (hx : x.state = .listening k received)
    (hb : s.hasBroker = true) (hm : (s.broker.receive k).1 = .message m)
    (hw : ((s.broker.receive k).2.receive k).1 = .waiting) :
    ∃ y u, Course E s x y u ∧ y.state = .listening k true ∧ (u.broker.receive k).1 = .waiting := by
  obtain ⟨l, hl⟩ := Option.isSome_iff_exists.mp hb
  rw [broker_of_line hl] at hm hw
  have hgives : l.broker.receive k = (.message m, (l.broker.receive k).2) := Prod.ext hm rfl
  have hdo : x.proceed s { stopFirst := false } = some ({ x with state := .relaying k (relay x.hub m) },
      { s with line := some { l with broker := (l.broker.receive k).2 } }) := by
    unfold proceed
    rw [hl, hx]
    dsimp only
    unfold listen
    rw [hgives]
  obtain ⟨y, u, hcourse, hy, hu⟩ :=
    exists_delivered E (s := { s with line := some { l with broker := (l.broker.receive k).2 } })
    rfl (relay x.hub m) (x := { x with state := .relaying k (relay x.hub m) }) rfl
  refine ⟨y, u, .proceeds rfl hdo hcourse, hy, ?_⟩
  rw [broker_of_line hu]
  exact hw

/-- A message that a hub's subscription has next comes to the connections of its room, however the subscription gets to
rest. -/
theorem heard_of_course (hs : t.Listing hub room) (hm : relay hub m = .listing hub room (some text))
    (hp : Passing t hub m k x s) (h : Course Passes s x x' u) {n : Nat} {r : Bool} (hx' : x'.state = .listening n r)
    (hw : (u.broker.receive n).1 = .waiting) : t.Heard hub room text u := by
  cases hp.course h with
  | before received hub_eq hx hsame hm' =>
    obtain ⟨rfl, -⟩ : k = n ∧ received = r := by simpa [hx] using hx'
    rw [hm'] at hw
    cases hw
  | after hx hsame =>
    rw [hm] at hsame
    exact (broadcast_heard hs).2.of_sameHubs hsame
  | during _ hx | gone hx =>
    rw [hx] at hx'
    cases hx'

end Subscriber

end Hub

end Parley
