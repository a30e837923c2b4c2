import Parley.Proofs.Broker.Accounts
import Parley.Proofs.Broker.Standing

/-!
# What a subscription gives

Every subscription of a broker accounts for what it gives, whatever is done to the broker.

* `Link` ties an account to the place in a feed that the broker has for the subscription.
* `Link.perform` is the step, one case per deed, and `linked_history` the run.
* `subscriptions_accounted` is the result for every history of a broker, with the number of the subscriptions that there
  are (`standing_history`).
-/

namespace Parley.MemoryBroker

open Broker

/-! ### Where a subscription stands -/

/-- The place at which the next read of a subscription stops. -/
def next (b : MemoryBroker) (s : Subscription) : Nat :=
  seek (b.feed s.feed) s.patterns (max s.position (oldest (b.feed s.feed).size))

/-- A subscription and its account: the stretch is what the feed holds from `first` on, where the subscription
began, and of what is asked for before its position only what was lost lies behind all that it has given. -/
structure Link (b : MemoryBroker) (n first : Nat) (globs : List Glob) (h : List Happening) (places : List Nat)
    (s : Subscription) : Prop where
  held : b.subscriptions[n]? = some s
  patterns : s.patterns = globs
  dropped : s.dropped = true ↔ .dropped n ∈ h
  lies : s.feed < b.feeds.size
  onCurrent : s.feed = b.current ↔ .disconnected ∉ h
  holds : (b.feed s.feed).toList.drop first = stretch h
  start : first ≤ s.position
  stop : s.position ≤ (b.feed s.feed).size
  behind : ∀ p ∈ places, first + p < s.position
  lost : ∀ i, Asked globs (stretch h) i → (∀ p ∈ places, p < i) → first + i < s.position →
    capacity ≤ (stretch h).length - (i + 1)

namespace Link

variable {b b' : MemoryBroker} {n first : Nat} {globs : List Glob} {h : List Happening} {places : List Nat}
  {s : Subscription}

theorem size (l : Link b n first globs h places s) : (b.feed s.feed).size = first + (stretch h).length := by
  have := l.start
  have := l.stop
  rw [← l.holds, List.length_drop, Array.length_toList]
  omega

theorem getElem? (l : Link b n first globs h places s) (i : Nat) : (stretch h)[i]? = (b.feed s.feed)[first + i]? := by
  rw [← l.holds, List.getElem?_drop, Array.getElem?_toList]

/-- What a subscription can still give is what is asked for from where its next read looks. -/
theorem kept_iff (l : Link b n first globs h places s) (i : Nat) : Kept globs (stretch h) places i ↔
    Asked globs (stretch h) i ∧ max s.position (oldest (b.feed s.feed).size) ≤ first + i := by
  have hsize := l.size
  unfold oldest
  constructor
  · intro hk
    have hnear := hk.near
    have hpos : s.position ≤ first + i := by
      by_contra hlt
      have := l.lost i hk.asked hk.behind (by omega)
      omega
    have hlt := hk.asked.lt
    exact ⟨hk.asked, by omega⟩
  · rintro ⟨ha, hle⟩
    have hlt := ha.lt
    refine ⟨ha, fun p hp => ?_, by omega⟩
    have := l.behind p hp
    omega

/-! ### What a deed does to it -/

variable {x : Happening}

/-- Where nothing is done to the subscription or to its feed. -/
theorem keep (l : Link b n first globs h places s) (hheld : b'.subscriptions[n]? = some s)
    (hfeed : b'.feed s.feed = b.feed s.feed)
    (hlt : s.feed < b'.feeds.size) (hcur : s.feed = b'.current ↔ .disconnected ∉ h ++ [x]) (hx : x ≠ .dropped n)
    (hst : stretch (h ++ [x]) = stretch h) : Link b' n first globs (h ++ [x]) places s where
  held := hheld
  patterns := l.patterns
  dropped := by
    rw [l.dropped, List.mem_append, List.mem_singleton]
    exact ⟨.inl, fun hm => hm.resolve_right fun e => hx e.symm⟩
  lies := hlt
  onCurrent := hcur
  holds := by rw [hfeed, hst, l.holds]
  start := l.start
  stop := by rw [hfeed]; exact l.stop
  behind := l.behind
  lost := by rw [hst]; exact l.lost

theorem keep_of_feeds (l : Link b n first globs h places s) (hheld : b'.subscriptions[n]? = some s)
    (hfeeds : b'.feeds = b.feeds) (hd : x ≠ .dropped n) (hc : x ≠ .disconnected) (ha : x.accepted? = none) :
    Link b' n first globs (h ++ [x]) places s := by
  refine l.keep hheld (by rw [feed, hfeeds]; rfl) (by rw [hfeeds]; exact l.lies) ?_ hd (stretch_concat_of_none ha h)
  rw [current, hfeeds, List.mem_append, List.mem_singleton]
  exact l.onCurrent.trans (not_congr ⟨.inl, fun hm => hm.resolve_right fun e => hc e.symm⟩)

/-- A message that is accepted is new on the current feed, and may so move what was given last out of reach. -/
theorem published (l : Link b n first globs h places s) {m : Message} (hheld : b'.subscriptions[n]? = some s)
    (hfeeds : b'.feeds = b.feeds.modify b.current (·.push m)) :
    Link b' n first globs (h ++ [.published m (.ok ())]) places s := by
  have hcur : b'.current = b.current := by rw [current, hfeeds, Array.size_modify]; rfl
  have hpos : 0 < b.feeds.size := Nat.zero_lt_of_lt l.lies
  have hlt : s.feed < b'.feeds.size := by rw [hfeeds, Array.size_modify]; exact l.lies
  have hmem : .disconnected ∉ h ++ [Happening.published m (.ok ())] ↔ .disconnected ∉ h := by simp
  have hf := feed_modify_current hpos hfeeds s.feed
  by_cases hc : s.feed = b.current
  · rw [if_pos hc] at hf
    have hst : stretch (h ++ [.published m (.ok ())]) = stretch h ++ [m] := by
      rw [stretch_append_of_notMem (l.onCurrent.mp hc), stretch_singleton]
      rfl
    have hle : first ≤ (b.feed s.feed).toList.length := by
      have := l.start
      have := l.stop
      rw [Array.length_toList]
      omega
    exact {
      held := hheld
      patterns := l.patterns
      dropped := l.dropped.trans (by simp)
      lies := hlt
      onCurrent := by rw [hcur, hmem]; exact l.onCurrent
      holds := by rw [hf, hst, Array.toList_push, List.drop_append_of_le_length hle, l.holds]
      start := l.start
      stop := by
        rw [hf, Array.size_push]
        exact Nat.le_succ_of_le l.stop
      behind := l.behind
      lost := fun i hi hb hp => by
        have hlen : i < (stretch h).length := by
          have := l.size
          have := l.stop
          omega
        have hold : Asked globs (stretch h) i := by
          obtain ⟨m', hm', ha⟩ := hi
          rw [hst, List.getElem?_append_left hlen] at hm'
          exact ⟨m', hm', ha⟩
        have := l.lost i hold hb hp
        rw [hst, List.length_append]
        omega }
  · rw [if_neg hc] at hf
    have hgone : .disconnected ∈ h := by
      by_contra hno
      exact hc (l.onCurrent.mpr hno)
    refine l.keep hheld hf hlt ?_ (by simp) (stretch_append_of_mem hgone _)
    rw [hcur, hmem]
    exact l.onCurrent

theorem disconnected (l : Link b n first globs h places s) :
    Link b.disconnect n first globs (h ++ [.disconnected]) places s := by
  have hlt := l.lies
  have hsize : b.disconnect.feeds.size = b.feeds.size + 1 := Array.size_push _
  refine l.keep l.held ?_ (by omega) ?_ nofun (stretch_concat_of_none rfl h)
  · unfold feed disconnect
    rw [Array.getD_eq_getD_getElem?, Array.getD_eq_getD_getElem?, Array.getElem?_push_lt hlt,
      Array.getElem?_eq_getElem hlt]
  · have hne : s.feed ≠ b.disconnect.current := by rw [current, hsize]; omega
    simp [hne]

theorem givenUp (l : Link b n first globs h places s) :
    Link (b.drop n) n first globs (h ++ [.dropped n]) places { s with dropped := true } where
  held := by simp [drop, Array.getElem?_modify, l.held]
  patterns := l.patterns
  dropped := by simp
  lies := l.lies
  onCurrent := l.onCurrent.trans (by simp)
  holds := by rw [stretch_concat_of_none rfl]; exact l.holds
  start := l.start
  stop := l.stop
  behind := l.behind
  lost := by rw [stretch_concat_of_none rfl]; exact l.lost

/-- A read of the subscription moves it on. -/
theorem moved (l : Link b n first globs h places s) {d : Delivery} {position : Nat} (more : List Nat)
    (hheld : b'.subscriptions[n]? = some { s with position }) (hfeeds : b'.feeds = b.feeds) (hp : s.position ≤ position)
    (hstop : position ≤ (b.feed s.feed).size) (hmore : ∀ p ∈ more, first + p < position)
    (hlost : ∀ i, Asked globs (stretch h) i → (∀ p ∈ places ++ more, p < i) → s.position ≤ first + i →
      first + i < position → capacity ≤ (stretch h).length - (i + 1)) :
    Link b' n first globs (h ++ [.read n d]) (places ++ more) { s with position } where
  held := hheld
  patterns := l.patterns
  dropped := l.dropped.trans (by simp)
  lies := by rw [hfeeds]; exact l.lies
  onCurrent := by
    rw [current, hfeeds]
    exact l.onCurrent.trans (by simp)
  holds := by rw [stretch_concat_of_none rfl, feed, hfeeds]; exact l.holds
  start := Nat.le_trans l.start hp
  stop := by rw [feed, hfeeds]; exact hstop
  behind p hm := by
    rcases List.mem_append.mp hm with hm | hm
    · exact Nat.lt_of_lt_of_le (l.behind p hm) hp
    · exact hmore p hm
  lost i hi hb hlt := by
    rw [stretch_concat_of_none rfl] at hi ⊢
    by_cases hle : first + i < s.position
    · exact l.lost i hi (fun p hm => hb p (List.mem_append_left _ hm)) hle
    · exact hlost i hi hb (by omega) hlt

/-- The next read goes over nothing but what is lost or not asked for. -/
theorem next_spec (l : Link b n first globs h places s) : s.position ≤ b.next s ∧ b.next s ≤ (b.feed s.feed).size ∧
    (∀ i, Kept globs (stretch h) places i → b.next s ≤ first + i) ∧
    (∀ i, Asked globs (stretch h) i → s.position ≤ first + i → first + i < b.next s →
      capacity ≤ (stretch h).length - (i + 1)) := by
  have hsize := l.size
  have hstart : max s.position (oldest (b.feed s.feed).size) ≤ (b.feed s.feed).size := by
    have := l.stop
    unfold oldest
    omega
  obtain ⟨hge, hnone⟩ := seek_spec (b.feed s.feed) s.patterns (max s.position (oldest (b.feed s.feed).size))
  have hasked : ∀ i, Asked globs (stretch h) i → max s.position (oldest (b.feed s.feed).size) ≤ first + i →
      b.next s ≤ first + i := by
    rintro i ⟨m, hm, ha⟩ hle
    rw [l.getElem?] at hm
    obtain ⟨hi, rfl⟩ := Array.getElem?_eq_some_iff.mp hm
    by_contra hno
    have := hnone (first + i) hi hle (Nat.lt_of_not_le hno)
    rw [l.patterns, ha] at this
    cases this
  refine ⟨Nat.le_trans (Nat.le_max_left _ _) hge, seek_le hstart, fun i hi => ?_, fun i hi hle hlt => ?_⟩
  · obtain ⟨ha, hle⟩ := (l.kept_iff i).mp hi
    exact hasked i ha hle
  · by_contra hnear
    have := hi.lt
    have := hasked i hi (by unfold oldest; omega)
    omega

/-- A read of a subscription that was not given up gives the first message that is kept for it. -/
theorem gives (l : Link b n first globs h places s) (hd : s.dropped = false) {d : Delivery}
    (hr : b.receive n = (d, b')) :
    ∃ o s', Gives globs h places d o ∧ Link b' n first globs (h ++ [.read n d]) (places ++ o.toList) s' := by
  have hlt : n < b.subscriptions.size := (Array.getElem?_eq_some_iff.mp l.held).1
  have hmoved : ∀ s', (b.subscriptions.set! n s')[n]? = some s' := fun s' => by
    rw [Array.set!_eq_setIfInBounds, Array.getElem?_setIfInBounds_self_of_lt hlt]
  obtain ⟨hpos, hend, hfirst, hlost⟩ := l.next_spec
  by_cases hm : ∃ m, d = .message m
  · obtain ⟨m, rfl⟩ := hm
    obtain ⟨s₁, place, hs, hplace, hplaced, rfl⟩ := receive_message hr
    obtain rfl : s = s₁ := Option.some.inj (l.held.symm.trans hs)
    obtain rfl : place = b.next s := hplace
    have hfrom : first + (b.next s - first) = b.next s := by
      have := l.start
      omega
    have hi : (stretch h)[b.next s - first]? = some m := by rw [l.getElem?, hfrom, hplaced]
    have hasked : Asked globs (stretch h) (b.next s - first) := ⟨m, hi, l.patterns ▸ seek_accepts hplaced⟩
    have hkept : Kept globs (stretch h) places (b.next s - first) := by
      refine (l.kept_iff _).mpr ⟨hasked, ?_⟩
      rw [hfrom]
      exact (seek_spec _ _ _).1
    refine ⟨some (b.next s - first), { s with position := b.next s + 1 }, .message m _ hi hkept fun j hj => ?_, ?_⟩
    · have := hfirst j hj
      omega
    · have hin : b.next s < (b.feed s.feed).size := (Array.getElem?_eq_some_iff.mp hplaced).1
      refine l.moved [b.next s - first] (hmoved _) rfl (by omega) (by omega) (fun p hp => ?_) fun i hi hb hle hlt => ?_
      · obtain rfl := List.mem_singleton.mp hp
        omega
      · have := hb (b.next s - first) (by simp)
        exact hlost i hi hle (by omega)
  · obtain ⟨place, hplace, hnone, hcase, rfl⟩ := receive_nothing hr l.held hd fun m e => hm ⟨m, e⟩
    obtain rfl : place = b.next s := hplace
    have hno : ∀ j, ¬ Kept globs (stretch h) places j := fun j hj => by
      have hj' := hfirst j hj
      have := hj.asked.lt
      have := l.size
      have := Array.getElem?_eq_none_iff.mp hnone
      omega
    refine ⟨none, _, ?_, l.moved [] (hmoved _) rfl hpos hend nofun fun i hi _ hle hlt => hlost i hi hle hlt⟩
    rcases hcase with ⟨rfl, hc⟩ | ⟨rfl, hc⟩
    · exact .waiting hno (l.onCurrent.mp hc)
    · exact .ended hno (by_contra fun hn => hc (l.onCurrent.mpr hn))

/-- **One step.** Whatever is done to a broker, its subscriptions go on accounting for what they give. -/
theorem perform (l : Link b n first globs h places s) (ac : Account globs n h places) (deed : Deed) :
    ∃ places' s', Link (b.perform deed).2 n first globs (h ++ [(b.perform deed).1]) places' s' ∧
      Account globs n (h ++ [(b.perform deed).1]) places' := by
  have hlt : n < b.subscriptions.size := (Array.getElem?_eq_some_iff.mp l.held).1
  cases deed with
  | publish m =>
    refine ⟨places, s, ?_, ac.concat (by simp [MemoryBroker.perform])⟩
    cases ho : (b.publish m).1 with
    | ok u =>
      obtain ⟨hfeeds, hsubs⟩ := publish_ok ho
      simp only [MemoryBroker.perform, ho]
      exact l.published (by rw [hsubs]; exact l.held) hfeeds
    | error e =>
      have ht := publish_error ho
      simp only [MemoryBroker.perform, ho]
      exact l.keep_of_feeds (by rw [ht.subscriptions]; exact l.held) ht.feeds (by simp) (by simp) rfl
  | subscribe patterns =>
    refine ⟨places, s, ?_, ac.concat (by simp [MemoryBroker.perform])⟩
    cases ho : (b.subscribe patterns).1 with
    | ok k =>
      obtain ⟨-, globs', -, hfeeds, hsubs⟩ := subscribe_ok ho
      simp only [MemoryBroker.perform, ho]
      refine l.keep_of_feeds ?_ hfeeds (by simp) (by simp) rfl
      rw [hsubs, Array.getElem?_push_lt hlt, ← Array.getElem?_eq_getElem hlt]
      exact l.held
    | error e =>
      simp only [MemoryBroker.perform, ho, subscribe_error ho]
      exact l.keep_of_feeds l.held rfl (by simp) (by simp) rfl
  | read k =>
    simp only [MemoryBroker.perform]
    by_cases hk : k = n
    · subst hk
      cases hd : s.dropped with
      | true =>
        have hr : b.receive k = (.ended, b) := by
          unfold receive
          rw [l.held]
          simp [hd]
        rw [hr]
        exact ⟨places, s, l.keep_of_feeds l.held rfl (by simp) (by simp) rfl, ac.concat_dropped (l.dropped.mp hd)⟩
      | false =>
        obtain ⟨o, s', hg, hl⟩ := l.gives hd (rfl : b.receive k = (_, _))
        refine ⟨places ++ o.toList, s', hl, ac.concat_read (fun hm => ?_) hg⟩
        rw [l.dropped.mpr hm] at hd
        cases hd
    · obtain ⟨hfeeds, hsubs⟩ := receive_others b k
      refine ⟨places, s, l.keep_of_feeds ?_ hfeeds (by simp) (by simp) rfl, ac.concat fun d e => hk (by injection e)⟩
      rw [hsubs n (Ne.symm hk)]
      exact l.held
  | drop k =>
    simp only [MemoryBroker.perform]
    by_cases hk : k = n
    · subst hk
      exact ⟨places, _, l.givenUp, ac.concat (by simp)⟩
    · refine ⟨places, s, l.keep_of_feeds ?_ rfl (fun e => hk (by injection e)) (by simp) rfl, ac.concat (by simp)⟩
      simp [MemoryBroker.drop, Array.getElem?_modify, hk, l.held]
  | disconnect => exact ⟨places, s, l.disconnected, ac.concat (by simp [MemoryBroker.perform])⟩
  | outage down =>
    simp only [MemoryBroker.perform]
    exact ⟨places, s, l.keep_of_feeds l.held rfl (by simp) (by simp) rfl, ac.concat (by simp)⟩

end Link

/-! ### Every subscription of a history -/

/-- A subscription that was just made has nothing to give yet. -/
theorem Link.fresh {b : MemoryBroker} {patterns : List String} {n : Nat} (hb : 0 < b.feeds.size)
    (h : (b.subscribe patterns).1 = .ok n) : ∃ globs s, readPatterns patterns = .ok globs ∧
      Link (b.subscribe patterns).2 n (b.feed b.current).size globs [] [] s := by
  obtain ⟨rfl, globs, hg, hfeeds, hsubs⟩ := subscribe_ok h
  have hcur : (b.subscribe patterns).2.current = b.current := by rw [current, hfeeds]; rfl
  have hfeed : (b.subscribe patterns).2.feed b.current = b.feed b.current := by rw [feed, hfeeds]; rfl
  refine ⟨globs, { feed := b.current, position := (b.feed b.current).size, patterns := globs }, hg, ?_⟩
  exact {
    held := by rw [hsubs, Array.getElem?_push_size]
    patterns := rfl
    dropped := by simp
    lies := by
      rw [hfeeds]
      exact Nat.sub_one_lt_of_lt hb
    onCurrent := by simp [hcur]
    holds := by
      rw [hfeed, ← Array.length_toList, List.drop_length]
      rfl
    start := Nat.le_refl _
    stop := Nat.le_of_eq (by rw [hfeed])
    behind := by simp
    lost := fun i _ _ hi => absurd hi (Nat.not_lt_of_le (Nat.le_add_right _ i)) }

theorem feeds_pos_perform {b : MemoryBroker} (hb : 0 < b.feeds.size) (d : Deed) : 0 < (b.perform d).2.feeds.size := by
  cases d with
  | publish m =>
    simp only [perform]
    cases ho : (b.publish m).1 with
    | ok u => rwa [(publish_ok ho).1, Array.size_modify]
    | error e => rwa [(publish_error ho).feeds]
  | subscribe patterns =>
    simp only [perform]
    cases ho : (b.subscribe patterns).1 with
    | ok n =>
      obtain ⟨-, -, -, hfeeds, -⟩ := subscribe_ok ho
      rwa [hfeeds]
    | error e => rwa [subscribe_error ho]
  | read n => simpa only [perform, (receive_others b n).1] using hb
  | drop n => exact hb
  | disconnect =>
    show 0 < (b.feeds.push #[]).size
    simp
  | outage down => exact hb

theorem feeds_pos_after {b : MemoryBroker} (hb : 0 < b.feeds.size) (ds : List Deed) : 0 < (b.after ds).feeds.size := by
  induction ds using List.reverseRecOn with
  | nil => exact hb
  | append_singleton ds d ih =>
    rw [after_concat]
    exact feeds_pos_perform ih d

/-- **Every run.** Each subscription of a history stays linked to an account of what it has given. -/
theorem linked_history (ds : List Deed) {before later : List Happening} {patterns : List String} {n : Nat}
    (h : ({} : MemoryBroker).history ds = before ++ .subscribed patterns (.ok n) :: later) :
    ∃ globs first places s, readPatterns patterns = .ok globs ∧
      Link (({} : MemoryBroker).after ds) n first globs later places s ∧ Account globs n later places := by
  induction ds using List.reverseRecOn generalizing later with
  | nil => simp [history] at h
  | append_singleton ds d ih =>
    rw [history_concat] at h
    rw [after_concat]
    rcases concat_eq_append_cons h with ⟨rfl, -, hd⟩ | ⟨later, rfl, hds⟩
    · cases d with
      | subscribe texts =>
        simp only [perform] at hd
        obtain ⟨rfl, ho⟩ : texts = patterns ∧ ((({} : MemoryBroker).after ds).subscribe texts).1 = .ok n := by
          injection hd with h₁ h₂
          exact ⟨h₁, h₂⟩
        obtain ⟨globs, s, hg, hl⟩ := Link.fresh (feeds_pos_after (by decide) ds) ho
        exact ⟨globs, _, [], s, hg, hl, .nil globs n⟩
      | _ => simp [perform] at hd
    · obtain ⟨globs, first, places, s, hg, hl, ha⟩ := ih hds
      obtain ⟨places', s', hl', ha'⟩ := hl.perform ha d
      exact ⟨globs, first, places', s', hg, hl', ha'⟩

end Parley.MemoryBroker

namespace Parley.Broker

/-- A subscription of a history, from when it was made: it has an account of what it gives, and a message that is asked
for is skipped exactly if `capacity` messages were accepted after it before the read that came as far as it. -/
structure Accounted (patterns : List String) (n : Nat) (later : List Happening) (globs : List Glob)
    (places : List Nat) :
    Prop where
  read : MemoryBroker.readPatterns patterns = .ok globs
  account : Account globs n later places
  skipped : ∀ before d rest i, later = before ++ .read n d :: rest → .dropped n ∉ before →
    Asked globs (stretch before) i → Account.Reaches places (given n before).length d i →
      (i ∉ places ↔ capacity ≤ (stretch before).length - (i + 1))

/-- **What subscriptions give.** Whatever is done to a broker, in any order, every subscription accounts for what it
gives from when it was made, and the subscriptions that are counted are those neither given up nor over, of those
made since the last disconnect. -/
theorem subscriptions_accounted (ds : List Deed) :
    (∀ before patterns n later, ({} : MemoryBroker).history ds = before ++ .subscribed patterns (.ok n) :: later →
      ∃ globs places, Accounted patterns n later globs places) ∧
    (({} : MemoryBroker).after ds).subscriberCount = (standing (({} : MemoryBroker).history ds)).length := by
  refine ⟨fun before patterns n later h => ?_, ?_⟩
  · obtain ⟨globs, first, places, s, hg, -, ac⟩ := MemoryBroker.linked_history ds h
    refine ⟨globs, places, hg, ac, fun before d rest i he hd hi hr => ?_⟩
    rw [ac.mem_places_iff he hd hi hr]
    omega
  · rw [MemoryBroker.subscriberCount_eq, (MemoryBroker.standing_history ds).standing]

end Parley.Broker
