import Parley.Proofs.Policy
import Parley.Proofs.Steps
import Parley.Proofs.Turn

/-!
# The rounds of a subscription

A hub's subscription goes in rounds. It tries to subscribe; if it can, it reads what it is given until
nothing comes any more; and before it tries again it waits.

* `Act` is what a subscription does in a step, and `Move` what a step can be, with its acts. The step
  function is opened once, in `step_move`.
* `Outcome` is what came of a try, `Handled` what becomes of one message, and `Rounds` the acts of some
  whole rounds with their outcomes: the wait after an outcome is that of `Paused`, by the number of
  outcomes since the last one that gave a message (`since`).
* `Stands` is where a subscription stands after its acts. `Stands.move` is the step.
-/

namespace Parley.Hub.Subscriber

/-! ### What a step does -/

/-- Something that a subscription does. -/
inductive Act where
  | subscribed (n : ℕ)
  | refused
  | took (m : Broker.Message)
  /-- The connections of a room were listed. -/
  | listed (room : String) (cs : List ConnId)
  | handed (frame : String) (c : ConnId)
  | handled
  | ended (n : ℕ)
  /-- A wait of so many nanoseconds began. -/
  | slept (begun : Instant) (nanos : ℕ)
  | woke (now : Instant)
  | quit
deriving DecidableEq, Repr

/-- What a step does that takes a subscription from `x` to `y`. -/
def acts (s : Service) (x y : Subscriber) : List Act :=
  match y.state, x.state with
  | .over, _ => [.quit]
  | .listening n _, .subscribing => [.subscribed n]
  | .waiting resume, .subscribing => [.refused, .slept s.now (resume - s.now)]
  | .waiting resume, .listening n _ => [.ended n, .slept s.now (resume - s.now)]
  | .relaying .., .listening n _ =>
    match (s.broker.receive n).1 with
    | .message m => [.took m]
    | _ => []
  | .relaying _ (.handing _ cs _), .relaying _ (.listing _ room _) => [.listed room cs]
  | .relaying .., .relaying _ (.handing frame (c :: _) _) => [.handed frame c]
  | .listening .., .relaying .. => [.handled]
  | .subscribing, .waiting _ => [.woke s.now]
  | _, _ => []

/-- How long a subscription waits after an outcome that came with a message or without. -/
def wait (s : Service) (x : Subscriber) (choice : Choice) (received : Bool) : ℕ :=
  (if received then firstDelay else x.delay).nanos + (s.policy.jitter choice.draw).nanos

/-- What a step can be, with its acts, where there is a broker. -/
inductive Move (s : Service) (x : Subscriber) (choice : Choice) : List Act → Subscriber → Service → Prop
  | subscribe (l : Broker.Line) (hl : s.line = some l) (hx : x.state = .subscribing) (n : ℕ)
      (hn : (l.subscribe s.now patterns).1 = .ok n) :
      Move s x choice [.subscribed n] { x with state := .listening n false }
        { s with line := some (l.subscribe s.now patterns).2 }
  | refuse (l : Broker.Line) (hl : s.line = some l) (hx : x.state = .subscribing) (e : Broker.Error)
      (he : (l.subscribe s.now patterns).1 = .error e) :
      Move s x choice [.refused, .slept s.now (wait s x choice false)] (x.pause s choice false)
        { s with line := some (l.subscribe s.now patterns).2 }
  | take (l : Broker.Line) (hl : s.line = some l) (n : ℕ) (received : Bool) (hx : x.state = .listening n received)
      (m : Broker.Message) (b : MemoryBroker) (hr : l.broker.receive n = (.message m, b)) :
      Move s x choice [.took m] { x with state := .relaying n (relay x.hub m) }
        { s with line := some { l with broker := b } }
  | cease (l : Broker.Line) (hl : s.line = some l) (n : ℕ) (received : Bool) (hx : x.state = .listening n received)
      (b : MemoryBroker) (hr : l.broker.receive n = (.ended, b)) :
      Move s x choice [.ended n, .slept s.now (wait s x choice received)] (x.pause s choice received)
        { s with line := some { l with broker := b.drop n } }
  | list (n hub : ℕ) (room text : String) (hx : x.state = .relaying n (.listing hub room (some text))) :
      Move s x choice [.listed room ((s.registry hub).snapshot room)]
        { x with state := .relaying n (.handing text ((s.registry hub).snapshot room) 0) } s
  | blank (n hub : ℕ) (room : String) (hx : x.state = .relaying n (.listing hub room none)) :
      Move s x choice [] { x with state := .relaying n (.done 0) } s
  | hand (n : ℕ) (frame : String) (c : ConnId) (rest : List ConnId) (sent sent' : ℕ)
      (hx : x.state = .relaying n (.handing frame (c :: rest) sent)) :
      Move s x choice [.handed frame c] { x with state := .relaying n (.handing frame rest sent') } (s.send c frame).2
  | finish (n : ℕ) (frame : String) (sent : ℕ) (hx : x.state = .relaying n (.handing frame [] sent)) :
      Move s x choice [] { x with state := .relaying n (.done sent) } s
  | handle (n k : ℕ) (hx : x.state = .relaying n (.done k)) :
      Move s x choice [.handled] { x with state := .listening n true } s
  | wake (t : Instant) (hx : x.state = .waiting t) (ht : t ≤ s.now) :
      Move s x choice [.woke s.now] { x with state := .subscribing } s
  | quit (hs : (s.hub x.hub).stopped = true) (hx : x.looksForStop = true) :
      Move s x choice [.quit] (x.quit s).1 (x.quit s).2

section Move

variable {s t : Service} {x y : Subscriber} {choice : Choice}

theorem listen_move {l : Broker.Line} {n : ℕ} {received : Bool} (hl : s.line = some l)
    (hx : x.state = .listening n received)
    (h : x.listen s choice l n received = some (y, t)) : Move s x choice (acts s x y) y t := by
  unfold listen at h
  split at h
  · cases h
  · rename_i m b hr
    cases h
    have hacts : acts s x { x with state := .relaying n (relay x.hub m) } = [.took m] := by
      simp [acts, hx, Service.broker_of_line hl, hr]
    rw [hacts]
    exact .take l hl n received hx m b hr
  · rename_i b hr
    cases h
    have hacts : acts s x (x.pause s choice received) = [.ended n, .slept s.now (wait s x choice received)] := by
      simp [acts, hx, pause, wait]
    rw [hacts]
    exact .cease l hl n received hx b hr

theorem relay_move {n : ℕ} {f f' : Fanout} (hx : x.state = .relaying n f) (hf : f.Step s f' t) :
    Move s x choice (acts s x { x with state := .relaying n f' }) { x with state := .relaying n f' } t := by
  cases hf with
  | blank hub room =>
    have hacts : acts s x { x with state := .relaying n (.done 0) } = [] := by simp [acts, hx]
    rw [hacts]
    exact .blank n hub room hx
  | list hub room text =>
    have hacts : acts s x { x with state := .relaying n (.handing text ((s.registry hub).snapshot room) 0) } =
        [.listed room ((s.registry hub).snapshot room)] := by simp [acts, hx]
    rw [hacts]
    exact .list n hub room text hx
  | hand frame c rest sent ht =>
    have hacts : acts s x { x with state := .relaying n (.handing frame rest (sent + 1)) } = [.handed frame c] := by
      simp [acts, hx]
    rw [hacts]
    exact .hand n frame c rest sent (sent + 1) hx
  | skip frame c rest sent ht =>
    have hacts : acts s x { x with state := .relaying n (.handing frame rest sent) } = [.handed frame c] := by
      simp [acts, hx]
    have hmove : Move s x choice [.handed frame c] _ (s.send c frame).2 := .hand n frame c rest sent sent hx
    rw [s.send_of_not_takes frame ht] at hmove
    rw [hacts]
    exact hmove
  | finish frame sent =>
    have hacts : acts s x { x with state := .relaying n (.done sent) } = [] := by simp [acts, hx]
    rw [hacts]
    exact .finish n frame sent hx

theorem proceed_move (hb : s.hasBroker = true) (h : x.proceed s choice = some (y, t)) :
    Move s x choice (acts s x y) y t := by
  obtain ⟨l, hl⟩ := Option.isSome_iff_exists.mp hb
  unfold proceed at h
  rw [hl] at h
  cases hx : x.state with
  | subscribing =>
    rw [hx] at h
    rcases hm : l.subscribe s.now patterns with ⟨made, l'⟩
    simp only [hm] at h
    have hl' : l' = (l.subscribe s.now patterns).2 := by rw [hm]
    subst hl'
    cases made with
    | ok n =>
      cases h
      have hacts : acts s x { x with state := .listening n false } = [.subscribed n] := by simp [acts, hx]
      rw [hacts]
      exact .subscribe l hl hx n (by rw [hm])
    | error e =>
      have hacts : acts s x (x.pause s choice false) = [.refused, .slept s.now (wait s x choice false)] := by
        simp [acts, hx, pause, wait]
      cases h
      change Move s x choice (acts s x (x.pause s choice false)) (x.pause s choice false) _
      rw [hacts]
      exact .refuse l hl hx e (by rw [hm])
  | listening n received =>
    rw [hx] at h
    exact listen_move hl hx h
  | relaying n f =>
    rw [hx] at h
    by_cases hf : ∃ k, f = .done k
    · obtain ⟨k, rfl⟩ := hf
      cases h
      have hacts : acts s x { x with state := .listening n true } = [.handled] := by simp [acts, hx]
      rw [hacts]
      exact .handle n k hx
    · have hstep : some ({ x with state := .relaying n (f.step s).1 }, (f.step s).2) = some (y, t) := by
        cases f with
        | done k => exact absurd ⟨k, rfl⟩ hf
        | _ => exact h
      cases hstep
      exact relay_move hx (Fanout.step_spec s f fun k hk => hf ⟨k, hk⟩)
  | waiting resume =>
    rw [hx] at h
    dsimp only at h
    split at h
    · rename_i hle
      cases h
      have hacts : acts s x { x with state := .subscribing } = [.woke s.now] := by simp [acts, hx]
      rw [hacts]
      exact .wake resume hx hle
    · cases h
  | «over» =>
    rw [hx] at h
    cases h

theorem step_move (hb : s.hasBroker = true) (h : x.step s choice = some (y, t)) : Move s x choice (acts s x y) y t := by
  unfold step at h
  split at h
  · rename_i hs
    obtain ⟨hstop, hlooks⟩ := Bool.and_eq_true_iff.1 hs
    have hquit : Move s x choice (acts s x (x.quit s).1) (x.quit s).1 (x.quit s).2 := .quit hstop hlooks
    split at h
    · cases h
      exact hquit
    · cases hp : x.proceed s choice with
      | none => rw [hp] at h; cases h; exact hquit
      | some z => rw [hp] at h; cases h; exact proceed_move hb hp
  · exact proceed_move hb h

end Move

/-! ### Outcomes and waits -/

/-- What came of a try: it was refused, or the subscription gave some messages and then ended. -/
inductive Outcome where
  | refused
  | stream (ms : List Broker.Message)
deriving DecidableEq, Repr

def Outcome.productive : Outcome → Bool
  | .stream (_ :: _) => true
  | _ => false

/-- The number of outcomes since the last one that gave a message, or since the first where none did. That one
does not count. -/
def since (os : List Outcome) : ℕ := min (os.reverse.findIdx Outcome.productive) (os.length - 1)

example (m : Broker.Message) : since [.refused, .stream []] = 1 ∧ since [.refused, .stream [], .stream [m]] = 0 ∧
    since [.refused, .stream [], .stream [m], .refused] = 1 := ⟨rfl, rfl, rfl⟩

/-- The delay in nanoseconds that has doubled so often: from 100 ms up to 5 s. -/
def nominal (j : ℕ) : ℕ := min (5 * 10 ^ 9) (100 * 10 ^ 6 * 2 ^ j)

/-- A wait after these outcomes: the delay and a random part. -/
structure Paused (p : RetryPolicy) (os : List Outcome) (nanos : ℕ) : Prop where
  low : nominal (since os) ≤ nanos
  high : nanos ≤ nominal (since os) + p.maxJitter.nanos

/-- How often the delay will have doubled by the next outcome, unless that gives a message. -/
def ahead : List Outcome → ℕ
  | [] => 0
  | os => since os + 1

theorem ahead_concat (os : List Outcome) (o : Outcome) : ahead (os ++ [o]) = since (os ++ [o]) + 1 := by
  cases os <;> rfl

theorem since_concat (os : List Outcome) (o : Outcome) : since (os ++ [o]) = if o.productive then 0 else ahead os := by
  rw [since, List.reverse_concat, List.findIdx_cons]
  cases o.productive with
  | true => simp
  | false =>
    cases os with
    | nil => rfl
    | cons a os =>
      simp only [ahead, since, cond_false, List.length_append, List.length_cons, List.length_nil, Bool.false_eq_true,
        if_false]
      omega

theorem nanos_firstDelay : firstDelay.nanos = nominal 0 := by decide

theorem nanos_mul_min {d : Duration} {j : ℕ} (h : d.nanos = nominal j) :
    ((d.mul 2).min longestDelay).nanos = nominal (j + 1) := by
  have hlongest : longestDelay.nanos = 5 * 10 ^ 9 := by decide
  have hmax : 10 * 10 ^ 9 ≤ Duration.maxNanos := by decide
  have hmul : (d.mul 2).nanos = min (d.nanos * 2) Duration.maxNanos := rfl
  have hmin : ((d.mul 2).min longestDelay).nanos = min (d.mul 2).nanos longestDelay.nanos := by
    unfold Duration.min
    split <;> omega
  rw [hmin, hmul, hlongest, h, nominal, nominal, Nat.pow_succ]
  omega

/-- The wait after an outcome, and the delay before the one that comes next. -/
theorem delay_pause {p : RetryPolicy} {os : List Outcome} {x : Subscriber} (h : x.delay.nanos = nominal (ahead os))
    (s : Service) (hp : s.policy = p) (choice : Choice) (o : Outcome) :
    Paused p (os ++ [o]) (wait s x choice o.productive) ∧
      (x.pause s choice o.productive).delay.nanos = nominal (ahead (os ++ [o])) := by
  have hnanos : (if o.productive then firstDelay else x.delay).nanos = nominal (since (os ++ [o])) := by
    rw [since_concat]
    cases o.productive with
    | true => exact nanos_firstDelay
    | false => exact h
  refine ⟨⟨?_, ?_⟩, ?_⟩
  · rw [wait, hnanos]
    exact Nat.le_add_right _ _
  · rw [wait, hnanos, hp]
    exact Nat.add_le_add_left (p.jitter_le choice.draw) _
  · rw [ahead_concat]
    exact nanos_mul_min hnanos

/-! ### Rounds -/

/-- What becomes of one message that a hub has taken: nothing, if it is on no room's channel or has no text; or it
is handed to each of the connections that were listed, one after the other. -/
inductive Handled (m : Broker.Message) : List Act → Prop
  | malformed (hm : Channel.parse? m.channel = none) : Handled m [.took m, .handled]
  | unreadable (category : Category) (room : String) (hm : Channel.parse? m.channel = some (category, room))
      (hp : Text.Utf8.decode? m.payload = none) : Handled m [.took m, .handled]
  | delivered (category : Category) (room text : String) (hm : Channel.parse? m.channel = some (category, room))
      (hp : Text.Utf8.decode? m.payload = some text) (cs : List ConnId) :
      Handled m ([.took m, .listed room cs] ++ cs.map (.handed text) ++ [.handled])

/-- Messages that were taken in this order, each once, and each handled before the next. -/
inductive Relayed : List Broker.Message → List Act → Prop
  | none : Relayed [] []
  | more {ms : List Broker.Message} {ds es : List Act} (h : Relayed ms ds) (m : Broker.Message) (hm : Handled m es) :
      Relayed (ms ++ [m]) (ds ++ es)

/-- A try with its outcome. -/
inductive Tried : Outcome → List Act → Prop
  | refused : Tried .refused [.refused]
  | stream (n : ℕ) {ms : List Broker.Message} {ds : List Act} (h : Relayed ms ds) :
      Tried (.stream ms) (.subscribed n :: (ds ++ [.ended n]))

/-- Whole rounds with their outcomes: after each try comes one wait, which is over when its time has passed. -/
inductive Rounds (p : RetryPolicy) : List Outcome → List Act → Prop
  | none : Rounds p [] []
  | round {os : List Outcome} {ds es : List Act} (h : Rounds p os ds) (o : Outcome) (ho : Tried o es)
      {begun woken : Instant} {nanos : ℕ} (hp : Paused p (os ++ [o]) nanos) (hw : begun + nanos ≤ woken) :
      Rounds p (os ++ [o]) (ds ++ (es ++ [.slept begun nanos] ++ [.woke woken]))

/-! ### Where a subscription stands -/

/-- A message has been taken and is on its way. -/
inductive Underway (hub : ℕ) (m : Broker.Message) : List Act → Fanout → Prop
  | begun (category : Category) (room : String) (hm : Channel.parse? m.channel = some (category, room)) :
      Underway hub m [.took m] (.listing hub room (Text.Utf8.decode? m.payload))
  | handing (category : Category) (room text : String) (hm : Channel.parse? m.channel = some (category, room))
      (hp : Text.Utf8.decode? m.payload = some text) (served rest : List ConnId) (sent : ℕ) :
      Underway hub m ([.took m, .listed room (served ++ rest)] ++ served.map (.handed text)) (.handing text rest sent)
  | through {es : List Act} (h : Handled m (es ++ [.handled])) (k : ℕ) : Underway hub m es (.done k)

theorem underway_relay (hub : ℕ) (m : Broker.Message) : Underway hub m [.took m] (relay hub m) := by
  unfold relay
  cases hm : Channel.parse? m.channel with
  | none => exact .through (.malformed hm) 0
  | some channel => exact .begun channel.1 channel.2 hm

/-- Before the connections are listed nothing has been done but to take the message. -/
theorem Underway.of_listing {hub hub' : ℕ} {m : Broker.Message} {es : List Act} {room : String} {frame : Option String}
    (h : Underway hub m es (.listing hub' room frame)) : es = [.took m] ∧ hub' = hub ∧
      ∃ category, Channel.parse? m.channel = some (category, room) ∧ Text.Utf8.decode? m.payload = frame := by
  generalize hf : Fanout.listing hub' room frame = f at h
  cases h with
  | begun category room' hm =>
    obtain ⟨rfl, rfl, rfl⟩ := Fanout.listing.inj hf
    exact ⟨rfl, rfl, category, hm, rfl⟩
  | handing | through => cases hf

/-- Where a subscription stands in a round, after some whole ones: its acts since then, and the delay it goes by. -/
inductive Within (p : RetryPolicy) (hub : ℕ) (os : List Outcome) : List Act → Duration → Listening → Prop
  | subscribing {delay : Duration} (hd : delay.nanos = nominal (ahead os)) : Within p hub os [] delay .subscribing
  | listening {delay : Duration} (hd : delay.nanos = nominal (ahead os)) (n : ℕ) {ms : List Broker.Message}
      {es : List Act} (h : Relayed ms es) : Within p hub os (.subscribed n :: es) delay (.listening n (!ms.isEmpty))
  | relaying {delay : Duration} (hd : delay.nanos = nominal (ahead os)) (n : ℕ) {ms : List Broker.Message}
      {es part : List Act} (h : Relayed ms es) {m : Broker.Message} {f : Fanout} (hm : Underway hub m part f) :
      Within p hub os (.subscribed n :: (es ++ part)) delay (.relaying n f)
  | waiting (o : Outcome) {delay : Duration} (hd : delay.nanos = nominal (ahead (os ++ [o]))) {es : List Act}
      (ho : Tried o es) (begun : Instant) {nanos : ℕ} (hp : Paused p (os ++ [o]) nanos) :
      Within p hub os (es ++ [.slept begun nanos]) delay (.waiting (begun + nanos))
  /-- It gave up where it stood, which is in the middle of no message. -/
  | over {es : List Act} {delay : Duration} {state : Listening} (h : Within p hub os es delay state)
      (hs : ∀ n f, state ≠ .relaying n f) : Within p hub os (es ++ [.quit]) delay .over

/-- Where a subscription of a hub stands after all that it has done: some whole rounds, and where it is in the next. -/
def Stands (p : RetryPolicy) (hub : ℕ) (ds : List Act) (x : Subscriber) : Prop :=
  x.hub = hub ∧ ∃ os base es, ds = base ++ es ∧ Rounds p os base ∧ Within p hub os es x.delay x.state

theorem stands_begin (p : RetryPolicy) (hub : ℕ) : Stands p hub [] { hub } :=
  ⟨rfl, [], [], [], rfl, .none, .subscribing nanos_firstDelay⟩

section Stands

variable {p : RetryPolicy} {hub : ℕ} {os : List Outcome} {ds es : List Act} {s t : Service} {x y : Subscriber}
  {choice : Choice}

theorem productive_stream (ms : List Broker.Message) : (Outcome.stream ms).productive = !ms.isEmpty := by
  cases ms <;> rfl

/-- **A step** takes a subscription on in its round, or to the next. -/
theorem Stands.move (h : Stands p hub ds x) (hp : s.policy = p) (hm : Move s x choice es y t) :
    Stands p hub (ds ++ es) y := by
  obtain ⟨rfl, os, base, part, rfl, hrounds, hwithin⟩ := h
  have within {part' : List Act} (hpart : part' = part ++ es) (hy : y.hub = x.hub)
      (h : Within p x.hub os part' y.delay y.state) :
      Stands p x.hub (base ++ part ++ es) y :=
    ⟨hy, os, base, part', by rw [hpart, List.append_assoc], hrounds, h⟩
  cases hm with
  | subscribe l hl hx n hn =>
    rw [hx] at hwithin
    cases hwithin with
    | subscribing hd => exact within rfl rfl (.listening hd n .none)
  | refuse l hl hx e he =>
    rw [hx] at hwithin
    cases hwithin with
    | subscribing hd =>
      obtain ⟨hpaused, hdelay⟩ := delay_pause hd s hp choice .refused
      exact within rfl rfl (.waiting .refused hdelay .refused s.now hpaused)
  | take l hl n received hx m b hr =>
    rw [hx] at hwithin
    cases hwithin with
    | listening hd n h => exact within (by simp) rfl (.relaying hd n h (underway_relay x.hub m))
  | cease l hl n received hx b hr =>
    rw [hx] at hwithin
    cases hwithin with
    | @listening delay hd n ms es h =>
      obtain ⟨hpaused, hdelay⟩ := delay_pause hd s hp choice (.stream ms)
      rw [productive_stream] at hpaused hdelay
      have hpart : .subscribed n :: (es ++ [.ended n]) ++ [.slept s.now (wait s x choice (!ms.isEmpty))] =
          .subscribed n :: es ++ [Act.ended n, .slept s.now (wait s x choice (!ms.isEmpty))] := by simp
      exact within hpart rfl (.waiting (.stream ms) hdelay (.stream n h) s.now hpaused)
  | list n hub room text hx =>
    rw [hx] at hwithin
    cases hwithin with
    | @relaying delay hd n ms es part h m f hm =>
      obtain ⟨rfl, rfl, category, hm, hp⟩ := hm.of_listing
      exact within (by simp) rfl (.relaying hd n h (.handing category room text hm hp [] _ 0))
  | blank n hub room hx =>
    rw [hx] at hwithin
    cases hwithin with
    | @relaying delay hd n ms es part h m f hm =>
      obtain ⟨rfl, rfl, category, hm, hp⟩ := hm.of_listing
      have hnext : Underway x.hub m [.took m] (.done 0) := .through (.unreadable category room hm hp) 0
      exact within (by simp) rfl (.relaying hd n h hnext)
  | hand n frame c rest sent sent' hx =>
    rw [hx] at hwithin
    cases hwithin with
    | relaying hd n h hm =>
      cases hm with
      | handing category room text hm hp served rest sent =>
        have hnext : Underway x.hub _ _ (.handing frame rest sent') :=
          .handing category room frame hm hp (served ++ [c]) rest sent'
        exact within (by simp) rfl (.relaying hd n h hnext)
  | finish n frame sent hx =>
    rw [hx] at hwithin
    cases hwithin with
    | relaying hd n h hm =>
      cases hm with
      | handing category room text hm hp served rest sent =>
        have hnext : Underway x.hub _ _ (.done sent) := .through (.delivered category room frame hm hp served) sent
        exact within (by simp) rfl (.relaying hd n h hnext)
  | handle n k hx =>
    rw [hx] at hwithin
    cases hwithin with
    | @relaying delay hd n ms es part h m f hm =>
      cases hm with
      | through hm k =>
        have hnext : Within p x.hub os _ x.delay (.listening n (!(ms ++ [m]).isEmpty)) := .listening hd n (h.more m hm)
        rw [show (!(ms ++ [m]).isEmpty) = true by simp] at hnext
        exact within (by simp) rfl hnext
  | wake resume hx hle =>
    rw [hx] at hwithin
    cases hwithin with
    | waiting o hd ho begun hpaused =>
      refine ⟨rfl, os ++ [o], _, [], ?_, hrounds.round o ho hpaused hle, .subscribing hd⟩
      simp
  | quit hs hlooks =>
    refine within rfl rfl (.over hwithin fun n f hx => ?_)
    simp [looksForStop, hx] at hlooks

end Stands

end Parley.Hub.Subscriber
