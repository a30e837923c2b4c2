import Parley.Proofs.Quiet
import Parley.Proofs.Traffic.Ledger

/-!
Every move of hubs that share a broker is one change of the events under way, and the books go on
agreeing with the feeds.
-/

namespace Parley.Ledger

open Hub Deployment Function

variable {l : Ledger}

/-- A ledger after one change of its events. -/
structure Follows (l l' : Ledger) : Prop where
  change : Traffic.Change l.service.Takes l.view l'.view
  steady : Steady l'

theorem Sound.of_follows (hl : Sound l) {l' : Ledger} (h : Follows l l') : Sound l' where
  toSteady := h.steady
  filed := hl.filed.change h.change
  delivered := hl.delivered.change hl.filed h.change

/-! ### Steps of tasks -/

section Step

variable {n : TaskId} {k : Task} {s : Service}

abbrev after (l : Ledger) (n : TaskId) (k : Task) (s : Service) : Deployment :=
  { l.deployment.setTask n k with service := s }

theorem task_after (hn : n < l.deployment.tasks.size) (m : TaskId) :
    (l.after n k s).task m = if m = n then k else l.deployment.task m := by
  by_cases hm : m = n
  · subst hm
    rw [if_pos rfl]
    exact l.deployment.task_setTask k hn
  · rw [if_neg hm]
    exact l.deployment.task_setTask_of_ne k hm

theorem plain_after (hl : Sound l) (hn : n < l.deployment.tasks.size) (hk : k.Plain) (m : TaskId) :
    ((l.after n k s).task m).Plain := by
  rw [task_after hn]
  split
  · exact hk
  · exact hl.plain m

theorem listed_of_quiet (hl : Sound l) (hq : Quiet l.service s) (h : Nat) (r : String) (c : ConnId)
    (hc : c ∈ (s.registry h).snapshot r) : (s.connection c).closed = false := by
  rw [hq.closed]
  rw [hq.registry] at hc
  exact hl.listed h r c hc

theorem view_note (hn : n < l.deployment.tasks.size) (hq : Quiet l.service s) :
    (l.note n (l.after n k s)).view = { l.view with
      task := update l.view.task n k.carrier
      current := s.broker.current
      origins := (l.note n (l.after n k s)).origins
      subscription := fun j => s.broker.subscriptions[j]?
      accepted := (l.note n (l.after n k s)).accepted
      frames := fun c => (s.connection c).accepted } := by
  refine Traffic.ext rfl ?_ hq.size rfl (funext hq.room) ?_ rfl rfl rfl rfl rfl
  · funext m
    show ((l.after n k s).task m).carrier = update l.view.task n k.carrier m
    rw [task_after hn]
    split
    · rename_i h
      rw [h, update_self]
    · rename_i h
      rw [update_of_ne h]
      rfl
  · funext h r
    show (s.registry h).snapshot r = (l.service.registry h).snapshot r
    rw [hq.registry]

/-- A step that puts nothing into a feed. -/
theorem follows_note (hl : Sound l) (hn : n < l.deployment.tasks.size) (hk : k.Plain) (hq : Quiet l.service s)
    (hline : s.line.isSome) (hfeeds : s.broker.feeds = l.service.broker.feeds)
    (hc : Traffic.Change l.service.Takes l.view { l.view with
      task := update l.view.task n k.carrier
      subscription := fun j => s.broker.subscriptions[j]?
      accepted := (l.note n (l.after n k s)).accepted
      frames := fun c => (s.connection c).accepted }) :
    Follows l (l.note n (l.after n k s)) := by
  have hfeed : ∀ f, s.broker.feed f = l.service.broker.feed f := fun f => by rw [MemoryBroker.feed, hfeeds]; rfl
  have hor : (l.note n (l.after n k s)).origins = l.origins := by
    funext f
    show (if (l.service.broker.feed f).size < (s.broker.feed f).size then _ else _) = _
    rw [hfeed, if_neg (Nat.lt_irrefl _)]
  have hcur : s.broker.current = l.service.broker.current := by rw [MemoryBroker.current, hfeeds]; rfl
  refine ⟨?_, hline, plain_after hl hn hk, fun h => ?_, listed_of_quiet hl hq, ?_, ?_⟩
  · rw [view_note hn hq, hor, hcur]
    exact hc
  · show (s.hub h).stopped = false
    rw [hq.hub]
    exact hl.running h
  · show 0 < s.broker.feeds.size
    rw [hfeeds]
    exact hl.feeds
  · intro f
    show (s.broker.feed f).toList = _
    rw [hfeed, hor]
    exact hl.feed f

theorem accepted_note (h : ∀ c, (s.connection c).accepted = (l.service.connection c).accepted) :
    (l.note n (l.after n k s)).accepted = l.accepted := by
  funext c
  show (if (l.service.connection c).accepted.length < (s.connection c).accepted.length then _ else _) = _
  rw [h, if_neg (Nat.lt_irrefl _)]

theorem follows_idle (hl : Sound l) (hn : n < l.deployment.tasks.size) (hk : k.Plain) (hq : Quiet l.service s)
    (hline : s.line.isSome) (hfeeds : s.broker.feeds = l.service.broker.feeds)
    (hacc : ∀ c, (s.connection c).accepted = (l.service.connection c).accepted)
    (hc : Traffic.Change l.service.Takes l.view { l.view with
      task := update l.view.task n k.carrier
      subscription := fun j => s.broker.subscriptions[j]? }) :
    Follows l (l.note n (l.after n k s)) := by
  refine follows_note hl hn hk hq hline hfeeds ?_
  rw [accepted_note hacc, show (fun c => (s.connection c).accepted) = l.view.frames from funext hacc]
  exact hc

/-- A step of a task without event or subscription, if it leaves rooms, queues and broker alone. -/
theorem follows_bystander (hl : Sound l) (hn : n < l.deployment.tasks.size) (hk : k.carrier = .done)
    (ht : (l.deployment.task n).carrier = .done) (hs : k.Plain) (hq : Quiet l.service s)
    (hline : s.line = l.service.line) (hacc : ∀ c, (s.connection c).accepted = (l.service.connection c).accepted) :
    Follows l (l.note n (l.after n k s)) := by
  have hb : s.broker = l.service.broker := by rw [Service.broker, hline]; rfl
  refine follows_idle hl hn hs hq (hline ▸ hl.line) (by rw [hb]) hacc ?_
  have htask : update l.view.task n k.carrier = l.view.task := update_eq_self_iff.2 (hk.trans ht.symm)
  rw [htask, hb]
  exact .none

theorem follows_fanout (hl : Sound l) (hn : n < l.deployment.tasks.size) (hk : k.Plain) {f f' : Fanout}
    (hf : (l.view.task n).fanout? = some f) (hw : k.carrier = (l.view.task n).withFanout f')
    (h : Fanout.Step l.service f f' s) :
    Follows l (l.note n (l.after n k s)) := by
  cases h with
  | hand frame c rest sent ht =>
    obtain ⟨-, -, hall⟩ := hl.delivered.carried n _ hf
    have hc : c < l.service.connections.size := (hall c List.mem_cons_self).1
    have hconn := l.service.connection_send_of_takes frame hc ht
    have hother : ∀ d, d ≠ c → (l.service.send c frame).2.connection d = l.service.connection d :=
      fun d hd => l.service.connection_send_of_ne frame hd
    refine follows_note hl hn hk (.send ..) hl.line rfl ?_
    have hacc : (l.note n (l.after n k (l.service.send c frame).2)).accepted =
        update l.accepted c (l.accepted c ++ [l.view.source n]) := by
      funext d
      show (if (l.service.connection d).accepted.length <
          ((l.service.send c frame).2.connection d).accepted.length then _ else _) = _
      rcases eq_or_ne d c with rfl | hd
      · rw [hconn, if_pos (by simp), update_self]
      · rw [hother d hd, if_neg (Nat.lt_irrefl _), update_of_ne hd]
    have hframes : (fun d => ((l.service.send c frame).2.connection d).accepted) =
        update l.view.frames c (l.view.frames c ++ [frame]) := by
      funext d
      rcases eq_or_ne d c with rfl | hd
      · rw [hconn, update_self]; rfl
      · rw [hother d hd, update_of_ne hd]; rfl
    rw [hacc, hframes, hw]
    exact .hand n frame c rest sent hf ht
  | _ =>
    refine follows_idle hl hn hk (.refl _) hl.line rfl (fun _ => rfl) ?_
    rw [hw]
    exact .pass n _ _ hf (by constructor <;> assumption)

/-! ### Activities -/

theorem view_task {t : Task} (ht : l.deployment.task n = t) : l.view.task n = t.carrier := by rw [← ht]; rfl

/-- The broker takes the event of a call: the current feed has one message more, and it is the call's. -/
theorem follows_accepted (hl : Sound l) (hn : n < l.deployment.tasks.size) {post : Post} {i : UInt32} {text : String}
    (ht : l.deployment.task n = .activity (.attempting post i)) (he : post.event = .ok text) (hq : Quiet l.service s)
    (hline : s.line.isSome)
    (hfeeds : s.broker.feeds = l.service.broker.feeds.modify l.service.broker.current (·.push (post.message text)))
    (hsub : s.broker.subscriptions = l.service.broker.subscriptions)
    (hconn : ∀ c, (s.connection c).accepted = (l.service.connection c).accepted) :
    Follows l (l.note n (l.after n (.activity (.finished (.ok ()))) s)) := by
  have hview := view_task ht
  have hfeed : ∀ f, s.broker.feed f = if f = l.view.current then (l.service.broker.feed f).push (post.message text)
      else l.service.broker.feed f := MemoryBroker.feed_modify_current hl.feeds hfeeds
  have hsize : s.broker.feeds.size = l.service.broker.feeds.size := by rw [hfeeds, Array.size_modify]
  have hcur : s.broker.current = l.view.current := by rw [MemoryBroker.current, hsize]; rfl
  have hor : (l.note n (l.after n (.activity (.finished (.ok ()))) s)).origins =
      update l.view.origins l.view.current (l.view.origins l.view.current ++ [n]) := by
    funext f
    show (if (l.service.broker.feed f).size < (s.broker.feed f).size then _ else _) = _
    rw [hfeed]
    rcases eq_or_ne f l.view.current with rfl | hne
    · rw [if_pos rfl, if_pos (by simp), update_self]; rfl
    · rw [if_neg hne, if_neg (Nat.lt_irrefl _), update_of_ne hne]; rfl
  have hmsg : l.view.message n = post.message text := by
    obtain ⟨q, hq, hfit⟩ := hl.filed.fits n _ hview
    obtain rfl : post = q := hfit
    simp [Traffic.message, Traffic.text, hq, he, Except.toOption]
  refine ⟨?_, hline, plain_after hl hn trivial, fun h => ?_, listed_of_quiet hl hq, hsize ▸ hl.feeds, fun f => ?_⟩
  · rw [view_note hn hq, hcur, hor, accepted_note hconn, hsub, show (fun c => (s.connection c).accepted) =
      l.view.frames from funext hconn]
    exact .accept n post i text hview he
  · show (s.hub h).stopped = false
    rw [hq.hub]
    exact hl.running h
  · show (s.broker.feed f).toList = _
    rw [hfeed, hor]
    show _ = (update l.view.origins l.view.current (l.view.origins l.view.current ++ [n]) f).map l.view.message
    rcases eq_or_ne f l.view.current with rfl | hne
    · rw [if_pos rfl, update_self, Array.toList_push, List.map_append, hl.feed, ← hmsg]
      rfl
    · rw [if_neg hne, update_of_ne hne, hl.feed]
      rfl

theorem follows_activity (hl : Sound l) (hn : n < l.deployment.tasks.size) {a a' : Activity}
    (ht : l.deployment.task n = .activity a) (h : Activity.Step l.service a a' s) :
    Follows l (l.note n (l.after n (.activity a') s)) := by
  have hview := view_task ht
  have hsome : l.service.line ≠ none := Option.isSome_iff_ne_none.1 hl.line
  -- a step that moves no event and leaves the broker's feeds and subscriptions alone
  have quiet : ∀ (a' : Activity) (line : Option Broker.Line), line.isSome →
      MemoryBroker.SameTraffic l.service.broker ({ l.service with line } : Service).broker → Traffic.Quiet a a' →
      Follows l (l.note n (l.after n (.activity a') { l.service with line })) := by
    intro a' line hline hb hq
    refine follows_idle hl hn trivial (.line ..) hline hb.feeds (fun _ => rfl) ?_
    rw [show (fun j : Nat => ({ l.service with line } : Service).broker.subscriptions[j]?) = l.view.subscription by
      rw [hb.subscriptions]; rfl]
    exact .quiet n a a' hview hq
  cases h with
  | record line hline post user status =>
    obtain ⟨q, -, hf⟩ := hl.filed.fits n _ hview
    exact hf.elim
  | unrecorded hline post user status => exact absurd hline hsome
  | direct hline post i => exact absurd hline hsome
  | unwritable line hline post i reason he => exact quiet _ l.service.line hl.line (.refl _) (.fail post i _ (by simp))
  | accepted line hline post i text he hp =>
    obtain ⟨hf, hsub⟩ := line.publish_ok l.service.now hp
    rw [← Service.broker_of_line hline] at hf hsub
    exact follows_accepted hl hn ht he (.line ..) rfl hf hsub fun _ => rfl
  | exhausted line hline post i text he e hp =>
    have hb : l.service.broker = line.broker := Service.broker_of_line hline
    have hsame := line.publish_error l.service.now hp
    refine follows_idle hl hn trivial (.line ..) rfl (hsame.feeds.trans (by rw [hb])) (fun _ => rfl) ?_
    have hsubs : (fun j : Nat => (line.publish l.service.now (post.message text)).2.broker.subscriptions[j]?) =
        l.view.subscription := by
      rw [hsame.subscriptions, ← hb]; rfl
    exact hsubs ▸ .fallBack n post i text hview he _ e
  | again line hline post i text he e hp next t =>
    exact quiet _ _ rfl (Service.broker_of_line hline ▸ line.publish_error l.service.now hp) (.pause post i next t)
  | unending line hline post i text he e hp =>
    exact quiet _ _ rfl (Service.broker_of_line hline ▸ line.publish_error l.service.now hp) (.fail post i _ (by simp))
  | resume post i t => exact quiet _ l.service.line hl.line (.refl _) (.resume post i t)
  | deliver f f' t r hf => exact follows_fanout hl hn trivial (by rw [hview]; rfl) (by rw [hview]; rfl) hf
  | delivered j r => exact quiet _ l.service.line hl.line (.refl _) (.settle j r)

/-! ### Subscriptions -/

theorem getElem?_feed (hl : Sound l) {f i : Nat} {m : Broker.Message} :
    (l.service.broker.feed f)[i]? = some m ↔ ∃ p, (l.origins f)[i]? = some p ∧ l.view.message p = m := by
  rw [← Array.getElem?_toList, hl.feed, List.getElem?_map, Option.map_eq_some_iff]

theorem size_feed (hl : Sound l) (f : Nat) : (l.service.broker.feed f).size = (l.origins f).length := by
  rw [← Array.length_toList, hl.feed, List.length_map]

theorem follows_message (hl : Sound l) (hn : n < l.deployment.tasks.size) {x : Subscriber}
    {line : Broker.Line} {j : Nat}
    {r : Bool} {m : Broker.Message} {b : MemoryBroker} (ht : l.deployment.task n = .subscriber x)
    (hline : l.service.line = some line) (hx : x.state = .listening j r)
    (hr : line.broker.receive j = (.message m, b)) :
    Follows l (l.note n (l.after n (.subscriber { x with state := .relaying j (Subscriber.relay x.hub m) })
      { l.service with line := some { line with broker := b } })) := by
  obtain ⟨q, place, hq, hplace, hm, rfl⟩ := MemoryBroker.receive_message hr
  have hb : l.service.broker = line.broker := Service.broker_of_line hline
  rw [← hb] at hq hplace hm
  obtain ⟨p, hp, rfl⟩ := (getElem?_feed hl).1 hm
  obtain ⟨hle, hskip⟩ := MemoryBroker.seek_spec (l.service.broker.feed q.feed) q.patterns
    (max q.position (MemoryBroker.oldest (l.service.broker.feed q.feed).size))
  rw [← hplace] at hle hskip
  refine follows_idle hl hn trivial (.line ..) rfl (by rw [hb]; rfl) (fun _ => rfl) ?_
  have hsubs : (fun i : Nat => (line.broker.subscriptions.set! j { q with position := place + 1 })[i]?) =
      update l.view.subscription j (some { q with position := place + 1 }) := by
    have hj : j < line.broker.subscriptions.size := by rw [← hb]; exact (Array.getElem?_eq_some_iff.1 hq).1
    funext i
    rw [Array.set!_eq_setIfInBounds, Array.getElem?_setIfInBounds]
    rcases eq_or_ne i j with rfl | hne
    · rw [if_pos rfl, if_pos hj, update_self]
    · rw [if_neg hne.symm, update_of_ne hne, ← hb]; rfl
  refine hsubs ▸ .received n x (view_task ht) j r hx q hq place p hp (by omega) ?_
  intro i p' hi h1 h2
  have hi' := (getElem?_feed hl).2 ⟨p', hi, rfl⟩
  obtain ⟨hlt, heq⟩ := Array.getElem?_eq_some_iff.1 hi'
  rw [← heq]
  exact hskip i hlt (size_feed hl q.feed ▸ h1) h2

theorem follows_subscribed (hl : Sound l) (hn : n < l.deployment.tasks.size) {x : Subscriber}
    {line : Broker.Line} {j : Nat}
    (ht : l.deployment.task n = .subscriber x) (hline : l.service.line = some line) (hx : x.state = .subscribing)
    (hj : (line.subscribe l.service.now Subscriber.patterns).1 = .ok j) :
    Follows l (l.note n (l.after n (.subscriber { x with state := .listening j false })
      { l.service with line := some (line.subscribe l.service.now Subscriber.patterns).2 })) := by
  obtain ⟨rfl, globs, hg, hfeeds, hsub⟩ := line.subscribe_ok l.service.now hj
  have hb : l.service.broker = line.broker := Service.broker_of_line hline
  rw [← hb] at hfeeds hsub ⊢
  refine follows_idle hl hn trivial (.line ..) rfl hfeeds (fun _ => rfl) ?_
  have hsubs : (fun i : Nat => (line.subscribe l.service.now Subscriber.patterns).2.broker.subscriptions[i]?) =
      update l.view.subscription l.service.broker.subscriptions.size (some
        { feed := l.view.current, position := (l.view.origins l.view.current).length, patterns := globs }) := by
    funext i
    rw [hsub, Array.getElem?_push, size_feed hl]
    rcases eq_or_ne i l.service.broker.subscriptions.size with rfl | hne
    · rw [if_pos rfl, update_self]; rfl
    · rw [if_neg hne, update_of_ne hne]; rfl
  exact hsubs ▸ .subscribed n x (view_task ht) (by rw [Subscriber.held?, hx]) _
    (Array.getElem?_eq_none (Nat.le_refl _)) globs hg

theorem follows_subscriber (hl : Sound l) (hn : n < l.deployment.tasks.size) {x x' : Subscriber}
    (ht : l.deployment.task n = .subscriber x) (h : Subscriber.Step l.service x x' s) :
    Follows l (l.note n (l.after n (.subscriber x') s)) := by
  have hview := view_task ht
  -- a step after which nothing is held
  have rest : ∀ (x' : Subscriber) (line : Option Broker.Line), x'.hub = x.hub → x'.held? = none → line.isSome →
      (∀ k q, x.held? = some k → l.view.subscription k = some q → q.dropped = true ∨ q.feed ≠ l.view.current) →
      ({ l.service with line } : Service).broker.feeds = l.service.broker.feeds →
      (∀ j, x.held? ≠ some j → ({ l.service with line } : Service).broker.subscriptions[j]? =
        l.service.broker.subscriptions[j]?) →
      Follows l (l.note n (l.after n (.subscriber x') { l.service with line })) := by
    intro x' line hub hx' hline hend hfeeds hsubs
    exact follows_idle hl hn trivial (.line ..) hline hfeeds (fun _ => rfl)
      (.rest n x x' hview hub hx' hend _ hsubs)
  have hnone : x.held? = none → ∀ k q, x.held? = some k → l.view.subscription k = some q →
      q.dropped = true ∨ q.feed ≠ l.view.current := fun h k q hk => by rw [h] at hk; cases hk
  have hdrop : ∀ (b : MemoryBroker) (i j : Nat), i ≠ j → (b.drop j).subscriptions[i]? = b.subscriptions[i]? := by
    intro b i j hij
    rw [MemoryBroker.drop, Array.getElem?_modify, if_neg hij.symm]
  cases h with
  | subscribed line hline hx j hj => exact follows_subscribed hl hn ht hline hx hj
  | refused line hline hx e he delay t =>
    have hb := line.subscribe_error l.service.now he
    rw [← Service.broker_of_line hline] at hb
    exact rest _ _ rfl rfl rfl (hnone (by rw [Subscriber.held?, hx])) (congrArg _ hb) fun j _ =>
      congrArg (·.subscriptions[j]?) hb
  | message line hline j r hx m b hr => exact follows_message hl hn ht hline hx hr
  | ended line hline j r hx b hr delay t =>
    obtain ⟨hf, -, hs, hend⟩ := MemoryBroker.receive_ended hr
    rw [← Service.broker_of_line hline] at hf hs hend
    refine rest _ _ rfl rfl rfl (fun i q hi => ?_) hf fun i hi => ?_
    · rw [Subscriber.held?, hx] at hi
      cases hi
      exact hend q
    have hij : i ≠ j := fun h => hi (by rw [Subscriber.held?, hx, h])
    exact (hdrop b i j hij).trans (hs i hij)
  | relay j f f' hx t hf =>
    obtain ⟨hub, delay, state⟩ := x
    subst hx
    exact follows_fanout hl hn trivial (by rw [hview]; rfl) (by rw [hview]; rfl) hf
  | relayed j i hx =>
    exact follows_idle hl hn trivial (.refl _) hl.line rfl (fun _ => rfl) (.relayed n x hview j i hx)
  | retry t hx => exact rest _ l.service.line rfl rfl hl.line (hnone (by rw [Subscriber.held?, hx])) rfl fun _ _ => rfl
  | quit hs => rw [hl.running] at hs; cases hs
  | stop hs =>
    rcases hs with hs | hs
    · exact absurd hs (Option.isSome_iff_ne_none.1 hl.line)
    · rw [hl.running] at hs; cases hs

theorem follows_step (hl : Sound l) (hn : n < l.deployment.tasks.size)
    (h : Task.Step l.service (l.deployment.task n) k s) :
    Follows l (l.note n (l.after n k s)) := by
  have hplain := hl.plain n
  generalize ht : l.deployment.task n = t at h hplain
  cases h with
  | writer c conn now stopFirst hc =>
    have hkept := Connection.step_kept hc
    exact follows_bystander hl hn rfl (by rw [ht]; rfl) trivial (.write _ _ hkept) rfl
      fun d => l.service.field_updateConnection c d _ Connection.accepted hkept.accepted
  | closer c => exact hplain.elim
  | activity a a' t h => exact follows_activity hl hn ht h
  | session x => exact hplain.elim
  | subscriber x x' t h => exact follows_subscriber hl hn ht h

end Step

/-! ### Moves -/

/-- Something happens that the events do not show. -/
theorem follows_unseen (hl : Sound l) {l' : Ledger} (hview : l'.view = l.view) (hq : Quiet l.service l'.service)
    (hline : l'.service.line.isSome) (hplain : ∀ n, (l'.deployment.task n).Plain)
    (hfeeds : l'.service.broker.feeds = l.service.broker.feeds) : Follows l l' := by
  refine ⟨hview ▸ .none, hline, hplain, fun h => ?_, listed_of_quiet hl hq, hfeeds ▸ hl.feeds, fun f => ?_⟩
  · rw [hq.hub]
    exact hl.running h
  · rw [MemoryBroker.feed, hfeeds, hview, show l'.origins = l.origins from congrArg Traffic.origins hview]
    exact hl.feed f

/-- A task begins. -/
theorem view_spawn (t : Task) : ({ l with deployment := (l.deployment.spawn t).2 } : Ledger).view =
    { l.view with task := update l.view.task l.deployment.tasks.size t.carrier } := by
  refine Traffic.ext rfl ?_ rfl rfl rfl rfl rfl rfl rfl rfl rfl
  funext m
  show ((l.deployment.spawn t).2.task m).carrier = update l.view.task l.deployment.tasks.size t.carrier m
  rw [task_spawn]
  split
  · rename_i h
    rw [h, update_self]
  · rename_i h
    rw [update_of_ne h]
    rfl

theorem plain_spawn {y : Deployment} (hy : ∀ n, (y.task n).Plain) {t : Task} (ht : t.Plain) (n : TaskId) :
    ((y.spawn t).2.task n).Plain := by
  rw [task_spawn]
  split
  · exact ht
  · exact hy n

theorem view_fresh : l.view.task l.deployment.tasks.size = .done :=
  view_task (l.deployment.task_of_size_le (Nat.le_refl _))

theorem follows_listen (hl : Sound l) (hub : Nat) : Follows l (l.apply (.turn (.listen hub))) := by
  have hstart : l.deployment.start hub = some (l.deployment.spawn (.subscriber { hub })) := if_pos hl.line
  simp only [apply, turn, hstart, Option.map_some, Option.getD_some]
  split
  · rename_i hcond
    simp only [Bool.and_eq_true, decide_eq_true_eq, Bool.not_eq_true'] at hcond
    have hview := view_spawn (l := l) (.subscriber { hub })
    refine ⟨hview ▸ .listen _ { hub } view_fresh rfl fun m z hm hz => ?_, hl.line,
      plain_spawn hl.plain trivial, hl.running, hl.listed, hl.feeds, fun f => ?_⟩
    · have htask : l.deployment.task m = .subscriber z := by
        have hm : (l.deployment.task m).carrier = .subscriber z := hm
        cases ht : l.deployment.task m <;> rw [ht] at hm <;> cases hm
        rfl
      have hsubs := subscribes_of_task htask
      rw [show z.hub = hub from hz, hcond.2] at hsubs
      cases hsubs
    · rw [hview]
      exact hl.feed f
  · exact follows_unseen hl rfl (.refl _) hl.line hl.plain rfl

theorem follows_outage (hl : Sound l) (down : Bool) : Follows l (l.apply (.turn (.outage down))) := by
  obtain ⟨line, hline⟩ := Option.isSome_iff_exists.1 hl.line
  have hb : l.service.broker = line.broker := Service.broker_of_line hline
  have hbroker : (l.apply (.turn (.outage down))).service.broker = { line.broker with available := !down } := by
    simp [apply, turn, Service.onBroker, hline, Service.broker]
  refine follows_unseen hl ?_ (.line ..) (by simp [apply, turn, Service.onBroker, hline]) hl.plain (by rw [hbroker, hb])
  refine Traffic.ext rfl rfl rfl rfl rfl rfl ?_ rfl ?_ rfl rfl
  · rw [view, hbroker, view, hb]
    rfl
  · rw [view, hbroker, view, hb]

theorem follows_disconnect (hl : Sound l) : Follows l (l.apply (.turn .disconnect)) := by
  obtain ⟨line, hline⟩ := Option.isSome_iff_exists.1 hl.line
  have hb : l.service.broker = line.broker := Service.broker_of_line hline
  have hbroker : (l.apply (.turn .disconnect)).service.broker =
      { line.broker with feeds := line.broker.feeds.push #[] } := by
    simp [apply, turn, Service.onBroker, hline, Service.broker, MemoryBroker.disconnect]
  have hview : (l.apply (.turn .disconnect)).view = { l.view with current := l.view.current + 1 } := by
    refine Traffic.ext rfl rfl rfl rfl rfl rfl ?_ rfl ?_ rfl rfl
    · have hpos := hl.feeds
      rw [hb] at hpos
      show (l.apply (.turn .disconnect)).service.broker.current = l.service.broker.current + 1
      rw [hbroker, hb, MemoryBroker.current, MemoryBroker.current, Array.size_push]
      omega
    · rw [view, hbroker, view, hb]
  refine ⟨hview ▸ .disconnect, by simp [apply, turn, Service.onBroker, hline], hl.plain, hl.running, hl.listed, ?_,
    fun f => ?_⟩
  · rw [hbroker, Array.size_push]
    exact Nat.succ_pos _
  · rw [hview]
    refine Eq.trans ?_ (hl.feed f)
    rw [hbroker, hb]
    -- the new feed is empty, as a feed that is not there is
    simp only [MemoryBroker.feed, Array.getD_eq_getD_getElem?, Array.getElem?_push]
    split
    · rename_i h
      rw [h, Array.getElem?_eq_none (Nat.le_refl _)]
      rfl
    · rfl

theorem follows_turn (hl : Sound l) (t : Turn) : Follows l (l.apply (.turn t)) := by
  cases t with
  | step n choice =>
    show Follows l (l.note n ((l.deployment.step n choice).getD l.deployment))
    cases hs : l.deployment.step n choice with
    | some y =>
      obtain ⟨hn, k, s, hstep, rfl⟩ := step_spec hs
      exact follows_step hl hn hstep
    | none =>
      -- a task that cannot take a step leaves everything as it is
      refine follows_unseen hl (Traffic.ext rfl rfl rfl rfl rfl rfl rfl ?_ rfl ?_ rfl) (.refl _) hl.line hl.plain rfl
      · exact funext fun f => if_neg (Nat.lt_irrefl _)
      · exact funext fun c => if_neg (Nat.lt_irrefl _)
  | pass t => exact follows_unseen hl rfl ⟨rfl, rfl, fun _ => rfl⟩ hl.line hl.plain rfl
  | listen hub => exact follows_listen hl hub
  | outage down => exact follows_outage hl down
  | disconnect => exact follows_disconnect hl

theorem follows_connect (hl : Sound l) (hub : Nat) (room user : String) (sink : Sink) :
    Follows l (l.apply (.connect hub room user sink)) := by
  have hnew : (l.apply (.connect hub room user sink)).service.connection = update l.service.connection l.view.count
      ((l.service.connect room user sink).2.connection l.view.count) := by
    funext c
    rcases eq_or_ne c l.view.count with rfl | hc
    · rw [update_self]; rfl
    · rw [update_of_ne hc]
      exact l.service.connection_connect_of_ne room user sink hc
  have hself := l.service.connection_connect room user sink
  have htask : (fun m => ((l.apply (.connect hub room user sink)).deployment.task m).carrier) = l.view.task := by
    funext m
    show ((Deployment.spawn { l.deployment with service := (l.service.connect room user sink).2 } _).2.task m).carrier =
      _
    rw [task_spawn]
    split
    · rename_i h
      rw [h]
      exact view_fresh.symm
    · rfl
  have hview : (l.apply (.connect hub room user sink)).view = { l.view with
      count := l.view.count + 1
      home := update l.view.home l.view.count hub
      room := update l.view.room l.view.count room } := by
    refine Traffic.ext rfl htask (Array.size_push ..) rfl (funext fun c => ?_) rfl rfl rfl rfl rfl (funext fun c => ?_)
    · show ((l.apply (.connect hub room user sink)).service.connection c).room = update l.view.room l.view.count room c
      rw [hnew]
      rcases eq_or_ne c l.view.count with rfl | hc
      · rw [update_self, update_self]
        exact hself.1
      · rw [update_of_ne hc, update_of_ne hc]
        rfl
    · show ((l.apply (.connect hub room user sink)).service.connection c).accepted = _
      rw [hnew]
      rcases eq_or_ne c l.view.count with rfl | hc
      · rw [update_self, (hl.delivered.unborn _ (Nat.le_refl _)).2]
        exact hself.2.2.1
      · rw [update_of_ne hc]
        rfl
  refine ⟨hview ▸ .connect hub room, hl.line, ?_, hl.running, fun h r c hc => ?_, hl.feeds, fun f => ?_⟩
  · exact plain_spawn (y := { l.deployment with service := (l.service.connect room user sink).2 }) hl.plain trivial
  · -- nobody lists the new connection
    have hne : c ≠ l.view.count := Nat.ne_of_lt (hl.delivered.member h r c hc).1
    rw [hnew, update_of_ne hne]
    exact hl.listed h r c hc
  · rw [hview]
    exact hl.feed f

theorem follows_enlist (hl : Sound l) {s : Service} (hs : s.connections = l.service.connections)
    (hline : s.line = l.service.line) (hrun : ∀ h, (s.hub h).stopped = (l.service.hub h).stopped)
    (hm : ∀ h r c, c ∈ (s.registry h).snapshot r → c ∈ l.view.members h r ∨
      (c < l.view.count ∧ l.view.home c = h ∧ l.view.room c = r ∧ (l.service.connection c).closed = false))
    (hnd : ∀ h r, ((s.registry h).snapshot r).Nodup) : Follows l (l.withService s) := by
  have hb : s.broker = l.service.broker := by rw [Service.broker, hline]; rfl
  have hconn : s.connection = l.service.connection := by funext c; rw [Service.connection, hs]; rfl
  have hview : (l.withService s).view = { l.view with members := fun h r => (s.registry h).snapshot r } := by
    refine Traffic.ext rfl rfl (congrArg Array.size hs) rfl ?_ rfl ?_ rfl ?_ rfl ?_
    · exact congrArg (fun (f : ConnId → Connection) c => (f c).room) hconn
    · exact congrArg MemoryBroker.current hb
    · exact congrArg (fun (b : MemoryBroker) (k : Nat) => b.subscriptions[k]?) hb
    · exact congrArg (fun (f : ConnId → Connection) c => (f c).accepted) hconn
  refine ⟨hview ▸ .enlist _ (fun h r c hc => (hm h r c hc).imp id fun h => ⟨h.1, h.2.1, h.2.2.1⟩) hnd, hline ▸ hl.line,
    hl.plain, fun h => (hrun h).trans (hl.running h), fun h r c hc => ?_, ?_, fun f => ?_⟩
  · show (s.connection c).closed = false
    rw [hconn]
    exact (hm h r c hc).elim (hl.listed h r c) fun h => h.2.2.2
  · show 0 < s.broker.feeds.size
    rw [hb]
    exact hl.feeds
  · rw [hview, show (l.withService s).service.broker = l.service.broker from hb]
    exact hl.feed f

/-- **Every move is one change of the events under way.** -/
theorem follows_apply (hl : Sound l) (m : Move) : Follows l (l.apply m) := by
  cases m with
  | turn t => exact follows_turn hl t
  | connect hub room user sink => exact follows_connect hl hub room user sink
  | register c =>
    rw [apply]
    split
    · rename_i hc
      refine follows_enlist hl rfl rfl (fun g => l.service.stopped_setRegistry (l.home c) g _)
        (fun h r d hd => ?_) fun h r =>
        l.service.nodup_snapshot_register (l.home c) h c r hl.delivered.nodup
      rcases l.service.of_mem_snapshot_register (l.home c) h c d r hd with hd | ⟨hh, hr, rfl⟩
      · exact .inl hd
      · exact .inr ⟨hc.1, hh.symm, hr.symm, hc.2⟩
    · exact follows_unseen hl rfl (.refl _) hl.line hl.plain rfl
  | deregister c =>
    refine follows_enlist hl rfl rfl (fun g => l.service.stopped_setRegistry (l.home c) g _)
      (fun h r d hd => ?_) fun h r =>
      l.service.nodup_snapshot_deregister (l.home c) h c r hl.delivered.nodup
    exact .inl ((l.service.mem_snapshot_deregister (l.home c) h c d r).1 hd).1
  | close c =>
    rw [apply]
    split
    · exact follows_unseen hl rfl (.refl _) hl.line hl.plain rfl
    · rename_i hc
      have hfield : ∀ {α : Type} (field : Connection → α), field (l.service.connection c).close =
          field (l.service.connection c) →
          ∀ d, field ((l.service.close c).connection d) = field (l.service.connection d) :=
        fun field hf d => l.service.field_updateConnection c d Connection.close field hf
      have hview : (l.withService (l.service.close c)).view = l.view :=
        Traffic.ext rfl rfl (Service.size_close ..) rfl (funext (hfield _ (Connection.room_close _))) rfl
          rfl rfl rfl rfl
          (funext (hfield _ (Connection.accepted_close _)))
      refine ⟨hview ▸ .none, hl.line, hl.plain, hl.running, fun h r d hd => ?_, hl.feeds, fun f => hview ▸ hl.feed f⟩
      -- a connection that a hub lists is not this one
      have hne : d ≠ c := by
        rintro rfl
        obtain ⟨-, rfl, rfl⟩ := hl.delivered.member h r d hd
        exact hc hd
      show ((l.service.close c).connection d).closed = false
      rw [Service.close, l.service.connection_updateConnection_of_ne _ hne]
      exact hl.listed h r d hd
  | publish post =>
    have hview : (l.apply (.publish post)).view = { l.view with
        posts := update l.view.posts l.deployment.tasks.size (some post)
        task := update l.view.task l.deployment.tasks.size (.activity (.attempting post 1)) } := by
      have h := view_spawn (l := l) (.activity (.publish post.hub post.room post.category post.event))
      exact congrArg (fun v : Traffic => { v with posts := update l.view.posts l.deployment.tasks.size (some post) }) h
    refine ⟨hview ▸ .call _ post view_fresh, hl.line, plain_spawn hl.plain trivial, hl.running, hl.listed,
      hl.feeds, fun f => ?_⟩
    rw [hview]
    refine (hl.feed f).trans (List.map_congr_left fun p hp => ?_)
    -- the calls of the feeds are known calls
    obtain ⟨i, hi⟩ := List.getElem?_of_mem hp
    obtain ⟨-, -, q, text, hq, -⟩ := hl.filed.placed f i p hi
    have hne : p ≠ l.deployment.tasks.size := by
      rintro rfl
      rw [hl.filed.posts_eq_none view_fresh] at hq
      cases hq
    simp [Traffic.message, Traffic.text, update_of_ne hne]

/-- **The books agree with the deployment after every run.** -/
theorem sound_run (hl : Sound l) (ms : List Move) : Sound (l.run ms) := by
  induction ms generalizing l with
  | nil => exact hl
  | cons m ms ih => exact ih (hl.of_follows (follows_apply hl m))

end Parley.Ledger
