import Parley.Proofs.Delivery.Spoken

/-!
# What a session says without a broker

What a client sends is heard up to the first item after which nothing is read, and what is understood of it is said
to the room: first that the person is there, then the event of each frame, and at the end that the person is gone,
unless another connection of theirs stays.

* `heard`, `said` and `saidLast` say so about the items from a client. `route_of_frame` and `route_of_no_frame` are
  what a session does about one.
* `Activity.Alone` is a step of an activity without a broker: it goes on, or it begins to go to the connections of
  the room, or it goes to one of them. `Activity.alone_of_step` shows that there is nothing else.
* `Activity.owed` is what an activity has still to send to a room, and `Activity.owes` what it has still to hand to a
  connection. `Activity.Alone.said` and `Activity.Alone.hears` say how a step pays.
-/

namespace Parley.Hub

/-! ### What is heard -/

/-- Nothing is read after this. -/
def Item.ends : Item → Bool
  | .close | .error | .ended => true
  | .text _ | .other => false

/-- The frame that a client has sent, if it is understood. -/
def Item.frame? : Item → Option ClientFrame
  | .text frame =>
    match ClientFrame.parse (Text.Utf8.encode frame) with
    | .ok .unknown | .error _ => none
    | .ok f => some f
  | _ => none

def heard (items : List Item) : List ClientFrame := (items.takeWhile (!·.ends)).filterMap Item.frame?

variable {i : Item} {items : List Item} {s t : Service} {hub : Nat} {room user : String}

theorem heard_cons_of_ends (h : i.ends = true) : heard (i :: items) = [] := by
  rw [heard, List.takeWhile_cons_of_neg (by simp [h])]
  rfl

theorem heard_cons (h : i.ends = false) : heard (i :: items) = i.frame?.toList ++ heard items := by
  rw [heard, List.takeWhile_cons_of_pos (by simp [h]), List.filterMap_cons]
  cases i.frame? <;> rfl

/-! ### What is said -/

/-- A person is in a room, with a status. -/
def present (room user : String) (time : Timestamp) (status : String) : Envelope where
  type := .presence
  room := room
  user := user
  time := time
  fields := [("status", .string status)]

/-- What frames say, each when the clock is read next. -/
def speech (room user : String) : Clockwork → List ClientFrame → List Envelope
  | _, [] => []
  | k, f :: fs => ((Utterance.of? room user k.read.1 f).map (·.event)).toList ++ speech room user k.read.2 fs

/-- That a person is gone, unless they stay. -/
def farewell (room user : String) (stays : Bool) (k : Clockwork) : List Envelope :=
  if stays then [] else [present room user k.read.1 "offline"]

def later : Nat → Clockwork → Clockwork
  | 0, k => k
  | n + 1, k => later n k.read.2

/-- What is said from the beginning until the client goes. -/
def said (room user : String) (k : Clockwork) (items : List Item) : List Envelope :=
  present room user k.read.1 "online" :: speech room user k.read.2 (heard items)

/-- What is said when the client has gone. -/
def saidLast (room user : String) (stays : Bool) (k : Clockwork) (items : List Item) : List Envelope :=
  farewell room user stays (later ((heard items).length + 1) k)

theorem exists_utterance {f : ClientFrame} (h : i.frame? = some f) (room user : String) (time : Timestamp) :
    ∃ u, Utterance.of? room user time f = some u := by
  cases f with
  | unknown =>
    unfold Item.frame? at h
    split at h
    · split at h <;> simp_all
    · cases h
  | _ => exact ⟨_, rfl⟩

theorem route_of_frame {frame : String} {f : ClientFrame} (h : (Item.text frame).frame? = some f)
    (s : Service) (hub : Nat) (room user : String) : ∃ u, Utterance.of? room user s.clock.read.1 f = some u ∧
      route s hub room user (Text.Utf8.encode frame) = (.of f, some (u.activity hub room user), s.readClock.2) := by
  obtain ⟨u, hu⟩ := exists_utterance h room user s.clock.read.1
  have hparse : ClientFrame.parse (Text.Utf8.encode frame) = .ok f := by
    simp only [Item.frame?] at h
    split at h <;> simp_all
  exact ⟨u, hu, route_of_utterance s hub hparse hu⟩

theorem route_of_no_frame {frame : String} (h : (Item.text frame).frame? = none) (s : Service) (hub : Nat) :
    route s hub room user (Text.Utf8.encode frame) = (.dropped, none, s) := by
  refine route_dropped ?_
  rw [route_fst]
  simp only [Item.frame?] at h
  cases hparse : ClientFrame.parse (Text.Utf8.encode frame) with
  | error e => rfl
  | ok f =>
    rw [hparse] at h
    cases f <;> first | rfl | cases h

/-! ### Activities without a broker -/

def Roomy (s : Service) (hub : Nat) (room : String) : Prop :=
  ∀ c ∈ (s.registry hub).snapshot room, (s.connection c).queue.length < Connection.capacity

/-- Something happens to a connection that texts are owed to: nothing, or it is given the next of them. -/
inductive Hears (before after : Connection) (due due' : List String) : Prop
  | nothing (hqueue : after.queue = before.queue) (haccepted : after.accepted = before.accepted) (hdue : due' = due)
  | text (text : String) (hqueue : after.queue = before.queue ++ [text])
      (haccepted : after.accepted = before.accepted ++ [text]) (hdue : due = text :: due')

namespace Activity

variable {a a' : Activity} {choice : Choice} {c : ConnId}

/-- The texts that are still to be sent to a room. -/
def owed : Activity → List String
  | .recording p _ _ | .attempting p _ | .pausing p _ _ => p.event.toOption.toList
  | .delivering (.listing _ _ frame) _ => frame.toList
  | _ => []

/-- The text that is still to be handed to a connection, once the room was listed. -/
def owes (c : ConnId) : Activity → List String
  | .delivering (.handing frame rest _) _ => if c ∈ rest then [frame] else []
  | _ => []

@[simp] theorem owed_finished (r : Except PublishError Unit) : (finished r).owed = [] := rfl

@[simp] theorem owes_finished (r : Except PublishError Unit) (c : ConnId) : (finished r).owes c = [] := rfl

/-- An activity is about a text for a room with these connections, and does not wait for anything. -/
def Fits (hub : Nat) (room : String) (cs : List ConnId) : Activity → Prop
  | .recording p _ _ | .attempting p _ => ∃ category text, p = ⟨hub, room, category, .ok text⟩
  | .pausing .. => False
  | .delivering (.listing h r frame) _ => h = hub ∧ r = room ∧ frame.isSome
  | .delivering (.handing _ rest _) _ => rest.Nodup ∧ rest ⊆ cs
  | .delivering (.done _) _ | .finished _ => True

/-- How far an activity is from its end, the connections aside that a text is still to be handed to. -/
def phase : Activity → Nat
  | .pausing .. => 6
  | .recording .. => 5
  | .attempting .. => 4
  | .delivering (.listing ..) _ => 3
  | .delivering (.handing ..) _ => 2
  | .delivering (.done _) _ => 1
  | .finished _ => 0

/-- The connections that a text is still to be handed to. -/
def waiting : Activity → Nat
  | .delivering (.handing _ rest _) _ => rest.length
  | _ => 0

/-- A step of an activity that is about a room of a hub without a broker. -/
inductive Alone (hub : Nat) (room : String) (s : Service) (a a' : Activity) : Service → Prop
  /-- Nothing is sent. -/
  | turn (howed : a'.owed = a.owed) (howes : ∀ c, a'.owes c = a.owes c) (hbegins : a.begins = []) :
      Alone hub room s a a' s
  /-- The connections of the room are listed. -/
  | list (text : String) (howed : a.owed = [text]) (howed' : a'.owed = []) (howes : ∀ c, a.owes c = [])
      (howes' : ∀ c, a'.owes c = if c ∈ (s.registry hub).snapshot room then [text] else [])
      (hbegins : a.begins = [.broadcast hub room (some text)]) : Alone hub room s a a' s
  /-- The text is handed to a connection. -/
  | hand (text : String) (d : ConnId) (hd : d ∈ (s.registry hub).snapshot room) (howed : a'.owed = a.owed)
      (howes : a.owes d = [text]) (howes' : a'.owes d = []) (hothers : ∀ c, c ≠ d → a'.owes c = a.owes c)
      (hbegins : a.begins = []) : Alone hub room s a a' (s.send d text).2

theorem Alone.said (h : Alone hub room s a a' t) : ∃ texts,
    a.begins = texts.map (fun text => .broadcast hub room (some text)) ∧ a.owed = texts ++ a'.owed := by
  cases h with
  | turn howed howes hbegins => exact ⟨[], hbegins, howed.symm⟩
  | list text howed howed' howes howes' hbegins => exact ⟨[text], hbegins, by rw [howed, howed', List.append_nil]⟩
  | hand text d hd howed howes howes' hothers hbegins => exact ⟨[], hbegins, howed.symm⟩

theorem Alone.steady (h : Alone hub room s a a' t) : t.line = s.line ∧ t.clock = s.clock := by
  cases h <;> exact ⟨rfl, rfl⟩

/-- **What a step tells a connection**: what is owed to it, in the order in which it is owed. -/
theorem Alone.hears (h : Alone hub room s a a' t)
    (hthere : ∀ d ∈ (s.registry hub).snapshot room, d < s.connections.size)
    (hroomy : Roomy s hub room) (c : ConnId) (more : List String) :
    Hears (s.connection c) (t.connection c)
      (if (s.connection c).closed then []
        else a.owes c ++ ((if c ∈ (s.registry hub).snapshot room then a.owed else []) ++ more))
      (if (t.connection c).closed then []
        else a'.owes c ++ ((if c ∈ (s.registry hub).snapshot room then a'.owed else []) ++ more)) := by
  cases h with
  | turn howed howes hbegins => exact .nothing rfl rfl (by rw [howed, howes])
  | list text howed howed' howes howes' hbegins =>
    refine .nothing rfl rfl ?_
    rw [howes', howed', howes, howed, ite_self]
    rfl
  | hand text d hd howed howes howes' hothers hbegins =>
    rw [howed]
    by_cases hc : c = d
    · subst hc
      rw [howes, howes']
      by_cases htakes : s.Takes c
      · rw [s.connection_send_of_takes text (hthere c hd) htakes, htakes.1]
        exact .text text rfl rfl rfl
      · -- the queue has room, so that the connection is closed
        have hclosed : (s.connection c).closed = true := by
          by_contra hopen
          exact htakes ⟨by simpa using hopen, hroomy c hd⟩
        rw [s.send_of_not_takes text htakes, hclosed]
        exact .nothing rfl rfl rfl
    · rw [s.connection_send_of_ne text hc, hothers c hc]
      exact .nothing rfl rfl rfl

/-- A step leads nearer to the end. -/
def Nearer (a a' : Activity) : Prop := a'.phase < a.phase ∨ a'.phase = a.phase ∧ a'.waiting < a.waiting

theorem alone_hand {text : String} {d : ConnId} {rest : List ConnId} {r : Except PublishError Unit} {sent : Nat}
    (ha : Fits hub room ((s.registry hub).snapshot room) (.delivering (.handing text (d :: rest) sent) r))
    (sent' : Nat) :
    Alone hub room s (.delivering (.handing text (d :: rest) sent) r) (.delivering (.handing text rest sent') r)
        (s.send d text).2 ∧
      Fits hub room ((s.registry hub).snapshot room) (.delivering (.handing text rest sent') r) ∧
      Nearer (.delivering (.handing text (d :: rest) sent) r) (.delivering (.handing text rest sent') r) := by
  obtain ⟨hrest, hsub⟩ := ha
  obtain ⟨hd, hrest⟩ := List.nodup_cons.mp hrest
  refine ⟨.hand text d (hsub List.mem_cons_self) rfl (if_pos List.mem_cons_self) (if_neg hd) (fun c hc => ?_) rfl,
    ⟨hrest, fun c hc => hsub (List.mem_cons_of_mem _ hc)⟩, .inr ⟨rfl, Nat.lt_succ_self _⟩⟩
  simp [owes, hc]

/-- **What a step does without a broker**, and that it is one nearer to the end. -/
theorem alone_of_step (hl : s.line = none) (hnodup : ((s.registry hub).snapshot room).Nodup)
    (ha : a.Fits hub room ((s.registry hub).snapshot room)) (h : Activity.Step s a a' t) :
    Alone hub room s a a' t ∧ a'.Fits hub room ((s.registry hub).snapshot room) ∧ Nearer a a' := by
  cases h with
  | record l hl' | unwritable l hl' | accepted l hl' | exhausted l hl' | again l hl' | unending l hl' =>
    rw [hl] at hl'
    cases hl'
  | unrecorded hl' post user status =>
    obtain ⟨category, text, rfl⟩ := ha
    exact ⟨Alone.turn rfl (fun _ => rfl) rfl, ⟨rfl, rfl, rfl⟩, .inl (show 3 < 5 by decide)⟩
  | direct hl' post n =>
    obtain ⟨category, text, rfl⟩ := ha
    exact ⟨Alone.turn rfl (fun _ => rfl) rfl, ⟨rfl, rfl, rfl⟩, .inl (show 3 < 4 by decide)⟩
  | resume => exact ha.elim
  | delivered k r => exact ⟨Alone.turn rfl (fun _ => rfl) rfl, trivial, .inl Nat.zero_lt_one⟩
  | deliver f f' t r hf =>
    cases hf with
    | blank h r => cases ha.2.2
    | list h r text =>
      obtain ⟨rfl, rfl, -⟩ := ha
      exact ⟨.list text rfl rfl (fun _ => rfl) (fun _ => rfl) rfl, ⟨hnodup, fun _ hc => hc⟩, .inl (Nat.lt_succ_self 2)⟩
    | finish frame sent => exact ⟨Alone.turn rfl (fun _ => rfl) rfl, trivial, .inl (Nat.lt_succ_self 1)⟩
    | hand frame c rest sent ht => exact alone_hand ha _
    | skip frame c rest sent ht =>
      have hand := alone_hand ha sent
      rwa [s.send_of_not_takes frame ht] at hand

theorem exists_step {cs : List ConnId} (ha : a.Fits hub room cs) (h : ∀ r, a ≠ .finished r) (s : Service)
    (choice : Choice) :
    (a.step s choice).isSome = true := by
  cases a with
  | pausing => exact ha.elim
  | finished r => exact absurd rfl (h r)
  | delivering f r => cases f <;> rfl
  | _ => rfl

end Activity

end Parley.Hub
