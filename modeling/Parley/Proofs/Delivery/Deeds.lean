import Parley.Proofs.Steps

/-!
# What the handling of an event comes to

An activity is seen by others through its deeds: the calls it makes on the broker, which are what its steps
enter in the journal, and the deliveries to a room that it begins. `Activity.Course` is an activity on its way,
with its deeds; between its own steps other things may happen, of which only `E` is known.

* `Published` says what a publish comes to on a broker: attempt after attempt with one and the same message, until one
  is accepted or none is left, and then a delivery. `course_deeds` shows it of every course, whatever the broker does.
* `course_effect`: where nothing else touches the hubs and the connections, what has become of them in the end is what
  the deliveries among the deeds make of them.
-/

namespace Parley

open Hub

/-! ### Two services with the same hubs and connections -/

namespace Service

structure SameHubs (s t : Service) : Prop where
  hubs : t.hubs = s.hubs
  connections : t.connections = s.connections

namespace SameHubs

variable {s t u : Service}

theorem refl (s : Service) : SameHubs s s := ⟨rfl, rfl⟩

theorem trans (h : SameHubs s t) (g : SameHubs t u) : SameHubs s u :=
  ⟨g.hubs.trans h.hubs, g.connections.trans h.connections⟩

theorem registry (h : SameHubs s t) (g : Nat) : t.registry g = s.registry g := by
  rw [Service.registry, Service.hub, h.hubs]
  rfl

theorem connection (h : SameHubs s t) (c : ConnId) : t.connection c = s.connection c := by
  rw [Service.connection, h.connections]
  rfl

theorem send (h : SameHubs s t) (c : ConnId) (frame : String) :
    (t.send c frame).1 = (s.send c frame).1 ∧ SameHubs (s.send c frame).2 (t.send c frame).2 := by
  unfold Service.send
  rw [h.connection]
  exact ⟨rfl, h.hubs, by simp only [updateConnection, h.connections]⟩

theorem handAll (h : SameHubs s t) (frame : String) (cs : List ConnId) (sent : Nat) :
    (Fanout.handAll t frame cs sent).1 = (Fanout.handAll s frame cs sent).1 ∧
      SameHubs (Fanout.handAll s frame cs sent).2 (Fanout.handAll t frame cs sent).2 := by
  induction cs generalizing s t sent with
  | nil => exact ⟨rfl, h⟩
  | cons c cs ih =>
    obtain ⟨hfst, hsnd⟩ := h.send c frame
    unfold Fanout.handAll
    rcases hs : s.send c frame with ⟨taken, s'⟩
    rcases ht : t.send c frame with ⟨taken', t'⟩
    rw [hs, ht] at hfst hsnd
    obtain rfl : taken' = taken := hfst
    cases taken' <;> exact ih hsnd _

theorem finish (h : SameHubs s t) (f : Fanout) :
    (f.finish t).1 = (f.finish s).1 ∧ SameHubs (f.finish s).2 (f.finish t).2 := by
  cases f with
  | listing hub room frame =>
    cases frame with
    | none => exact ⟨rfl, h⟩
    | some text =>
      simp only [Fanout.finish, h.registry]
      exact h.handAll _ _ _
  | handing frame rest sent => exact h.handAll _ _ _
  | done sent => exact ⟨rfl, h⟩

end SameHubs

def journal (s : Service) : List Broker.Entry := (s.line.map (·.journal)).getD []

end Service

namespace Hub

/-- Something that an activity does and others notice. -/
inductive Deed where
  | call (c : Broker.Call) (outcome : Broker.Outcome)
  /-- A delivery to the connections of a room begins. -/
  | broadcast (hub : Nat) (room : String) (frame : Option String)

def calls (s t : Service) : List Deed := (t.journal.drop s.journal.length).map fun e => .call e.call e.outcome

section Calls

variable {s t : Service}

theorem calls_of_line (h : t.line = s.line) : calls s t = [] := by
  unfold calls Service.journal
  rw [h, List.drop_length, List.map_nil]

theorem calls_of_journal {l l' : Broker.Line} (hs : s.line = some l) (ht : t.line = some l') {now : Instant}
    {c : Broker.Call} {o : Broker.Outcome} (h : l'.journal = l.journal ++ [⟨now, c, o.map fun _ => ()⟩]) :
    calls s t = [.call c o] := by
  have ho : (o.map fun _ => ()) = o := by cases o <;> rfl
  unfold calls Service.journal
  rw [hs, ht]
  simp [h, ho]

theorem calls_setEx {l : Broker.Line} (hl : s.line = some l) (key value : String) (life : Duration) :
    calls s { s with line := some (l.setEx s.now key value life).2 } =
      [.call (.setEx key value life) (l.setEx s.now key value life).1] :=
  calls_of_journal hl rfl (l.journal_call s.now _ _)

theorem calls_publish {l : Broker.Line} (hl : s.line = some l) (m : Broker.Message) :
    calls s { s with line := some (l.publish s.now m).2 } = [.call (.publish m) (l.publish s.now m).1] :=
  calls_of_journal hl rfl (l.journal_call s.now _ _)

end Calls

namespace Activity

/-- The delivery that a step begins, if it begins one. -/
def begins : Activity → List Deed
  | .delivering (.listing hub room frame) _ => [.broadcast hub room frame]
  | _ => []

/-- An activity goes on from one moment to another, with the deeds listed. Between its steps something else may
happen, of which `E` holds. -/
inductive Course (E : Service → Service → Prop) : Service → Activity → List Deed → Activity → Service → Prop
  | refl (s : Service) (a : Activity) : Course E s a [] a s
  | own {s t u : Service} {a a' b : Activity} {ds : List Deed} (choice : Choice) (h : a.step s choice = some (a', t))
      (rest : Course E t a' ds b u) : Course E s a (a.begins ++ calls s t ++ ds) b u
  | other {s t u : Service} {a b : Activity} {ds : List Deed} (h : E s t) (rest : Course E t a ds b u) :
      Course E s a ds b u

theorem Course.trans {E : Service → Service → Prop} {s t u : Service} {a b c : Activity} {ds ds' : List Deed}
    (h : Course E s a ds b t) (h' : Course E t b ds' c u) : Course E s a (ds ++ ds') c u := by
  induction h with
  | refl => exact h'
  | own choice hstep _ ih =>
    rw [List.append_assoc]
    exact .own choice hstep (ih h')
  | other hother _ ih => exact .other hother (ih h')

theorem Course.mono {E E' : Service → Service → Prop} (hE : ∀ s t, E s t → E' s t) {s t : Service} {a b : Activity}
    {ds : List Deed} (h : Course E s a ds b t) : Course E' s a ds b t := by
  induction h with
  | refl s a => exact .refl s a
  | own choice hstep _ ih => exact .own choice hstep ih
  | other hother _ ih => exact .other (hE _ _ hother) ih

/-! ### The deeds of a publish -/

/-- What publishing a text comes to from attempt number `n` on: failed attempts, then one that is accepted, or the last
one and a delivery to the hub's own connections. -/
inductive Published (p : RetryPolicy) (post : Post) (text : String) : UInt32 → List Deed →
    Except PublishError Unit → Prop
  | accepted (n : UInt32) : Published p post text n [.call (.publish (post.message text)) (.ok ())] (.ok ())
  | exhausted (n : UInt32) (e : Broker.Error) (hn : p.maxAttempts ≤ n) :
      Published p post text n [.call (.publish (post.message text)) (.error e),
        .broadcast post.hub post.room (some text)]
        (.error (.exhausted p.maxAttempts e))
  | again (n : UInt32) (e : Broker.Error) (hn : ¬ p.maxAttempts ≤ n) {ds : List Deed} {r : Except PublishError Unit}
      (rest : Published p post text (n + 1) ds r) :
      Published p post text n (.call (.publish (post.message text)) (.error e) :: ds) r
  | unending (n : UInt32) (e : Broker.Error) (hn : ¬ p.maxAttempts ≤ n) (draw : Nat)
      (hd : (p.backoff n).add? (p.jitter draw) = none) :
      Published p post text n [.call (.publish (post.message text)) (.error e)] (.error .unending)

/-- An attempt, by what comes of its call. -/
theorem step_attempting {s t : Service} {choice : Choice} {post : Post} {n : UInt32} {a' : Activity} {l : Broker.Line}
    {text : String} (hl : s.line = some l) (he : post.event = .ok text)
    (h : step s choice (.attempting post n) = some (a', t)) :
    t = { s with line := some (l.publish s.now (post.message text)).2 } ∧
      ((l.publish s.now (post.message text)).1 = .ok () ∧ a' = .finished (.ok ()) ∨
        ∃ e, (l.publish s.now (post.message text)).1 = .error e ∧
          (s.policy.maxAttempts ≤ n ∧ a' = .delivering post.fanout (.error (.exhausted s.policy.maxAttempts e)) ∨
            ¬ s.policy.maxAttempts ≤ n ∧ ((∃ instant, a' = .pausing post (n + 1) instant) ∨
              (s.policy.backoff n).add? (s.policy.jitter choice.draw) = none ∧
              a' = .finished (.error .unending)))) := by
  obtain ⟨rfl, rfl⟩ : afterAttempt s post n choice.draw (l.publish s.now (post.message text)).1 = a' ∧
      { s with line := some (l.publish s.now (post.message text)).2 } = t := by
    rw [step, attempt_eq hl he] at h
    exact Prod.mk.inj (Option.some.inj h)
  refine ⟨rfl, ?_⟩
  cases ho : (l.publish s.now (post.message text)).1 with
  | ok u => exact .inl ⟨rfl, rfl⟩
  | error e =>
    refine .inr ⟨e, rfl, ?_⟩
    unfold afterAttempt
    rw [next_error]
    by_cases hn : s.policy.maxAttempts ≤ n
    · rw [if_pos hn]
      exact .inl ⟨hn, rfl⟩
    · rw [if_neg hn]
      refine .inr ⟨hn, ?_⟩
      cases (s.policy.backoff n).add? (s.policy.jitter choice.draw) with
      | some delay => exact .inl ⟨_, rfl⟩
      | none => exact .inr ⟨rfl, rfl⟩

/-- What an activity about a post with a text comes to from where it stands: its deeds and its result. -/
def Fulfils (broker : Bool) (p : RetryPolicy) (post : Post) (text : String) (ds : List Deed)
    (r : Except PublishError Unit) :
    Activity → Prop
  | .recording q user status => q = post →
      if broker then ∃ o ds', ds = .call (.setEx (presenceKey post.room user) status presenceLife) o :: ds' ∧
        Published p post text 1 ds' r
      else ds = [.broadcast post.hub post.room (some text)] ∧ r = .ok ()
  | .attempting q n | .pausing q n _ => q = post →
      if broker then Published p post text n ds r
      else ds = [.broadcast post.hub post.room (some text)] ∧ r = .ok ()
  | .delivering (.listing hub room frame) r' => ds = [.broadcast hub room frame] ∧ r = r'
  | .delivering _ r' => ds = [] ∧ r = r'
  | .finished r' => ds = [] ∧ r = r'

/-- A step does the first of the deeds. -/
theorem fulfils_step {s t : Service} {choice : Choice} {a a' : Activity} {post : Post} {text : String} {ds : List Deed}
    {r : Except PublishError Unit} (he : post.event = .ok text) (h : a.step s choice = some (a', t))
    (hc : Fulfils t.hasBroker t.policy post text ds r a') :
    Fulfils s.hasBroker s.policy post text (a.begins ++ calls s t ++ ds) r a := by
  have hfanout : post.fanout = .listing post.hub post.room (some text) := by rw [Post.fanout, he]; rfl
  cases a with
  | recording q user status =>
    rintro rfl
    cases hl : s.line with
    | none =>
      obtain ⟨rfl, rfl⟩ : .delivering q.fanout (.ok ()) = a' ∧ s = t := by
        simpa [step, recordStatus, Service.onLine, hl] using h
      rw [hfanout] at hc
      simpa [Service.hasBroker, hl, begins, calls_of_line (s := s) (t := s) rfl, Fulfils] using hc
    | some l =>
      obtain ⟨rfl, rfl⟩ : .attempting q 1 = a' ∧
          { s with line := some (l.setEx s.now (presenceKey q.room user) status presenceLife).2 } = t := by
        simpa [step, recordStatus, Service.onLine, hl] using h
      rw [calls_setEx hl]
      simp only [Service.hasBroker, hl, Option.isSome_some, if_true]
      exact ⟨_, ds, rfl, by simpa [Fulfils, Service.hasBroker] using hc⟩
  | attempting q n =>
    rintro rfl
    cases hl : s.line with
    | none =>
      obtain ⟨rfl, rfl⟩ : .delivering q.fanout (.ok ()) = a' ∧ s = t := by
        simpa [step, attempt, hl] using h
      rw [hfanout] at hc
      simpa [Service.hasBroker, hl, begins, calls_of_line (s := s) (t := s) rfl, Fulfils] using hc
    | some l =>
      obtain ⟨rfl, hcase⟩ := step_attempting hl he h
      rw [calls_publish hl]
      simp only [Service.hasBroker, hl, Option.isSome_some, if_true, begins, List.nil_append, List.cons_append]
      rcases hcase with ⟨ho, rfl⟩ | ⟨e, ho, ⟨hn, rfl⟩ | ⟨hn, ⟨instant, rfl⟩ | ⟨hd, rfl⟩⟩⟩
      · obtain ⟨rfl, rfl⟩ := hc
        rw [ho]
        exact .accepted n
      · rw [hfanout] at hc
        obtain ⟨rfl, rfl⟩ := hc
        rw [ho]
        exact .exhausted n e hn
      · rw [ho]
        exact .again n e hn (by simpa [Fulfils, Service.hasBroker] using hc)
      · obtain ⟨rfl, rfl⟩ := hc
        rw [ho]
        exact .unending n e hn choice.draw hd
  | pausing q n instant =>
    rintro rfl
    obtain ⟨-, rfl, rfl⟩ : instant ≤ s.now ∧ .attempting q n = a' ∧ s = t := by simpa [step] using h
    simpa [begins, calls_of_line (s := s) (t := s) rfl, Fulfils] using hc
  | delivering f r' =>
    have hstep := Activity.step_spec h
    cases hstep with
    | deliver f f' t r' hf =>
      rw [calls_of_line hf.line]
      cases hf with
      | blank | list => exact ⟨by simp [begins, hc.1], hc.2⟩
      | hand | skip | finish => exact ⟨by simp [begins, hc.1], hc.2⟩
    | delivered k r' => exact ⟨by simp [begins, calls_of_line (s := s) (t := s) rfl, hc.1], hc.2⟩
  | finished r' => cases h

/-- What else happens leaves it to the service whether it has a broker, and how often it tries. -/
def Settled (E : Service → Service → Prop) : Prop := ∀ s t, E s t → t.hasBroker = s.hasBroker ∧ t.policy = s.policy

/-- **Every run.** Whatever the broker does and whatever else happens, the deeds of an activity are those of its
post. -/
theorem course_deeds {E : Service → Service → Prop} (hE : Settled E) {s t : Service} {a : Activity} {ds : List Deed}
    {r : Except PublishError Unit} {post : Post} {text : String} (he : post.event = .ok text)
    (h : Course E s a ds (.finished r) t) : Fulfils s.hasBroker s.policy post text ds r a := by
  generalize hb : Activity.finished r = b at h
  induction h with
  | refl s a =>
    subst hb
    exact ⟨rfl, rfl⟩
  | own choice hstep _ ih => exact fulfils_step he hstep (ih hb)
  | other hother _ ih =>
    obtain ⟨hbroker, hpolicy⟩ := hE _ _ hother
    have := ih hb
    rwa [hbroker, hpolicy] at this

/-! ### The effect of the deeds -/

end Activity

/-- What a deed makes of the connections, all at once. -/
def Deed.apply (s : Service) : Deed → Service
  | .call .. => s
  | .broadcast hub room frame => (s.broadcast hub room frame).2

section Apply

variable {s t : Service}

theorem foldl_apply_sameHubs (h : s.SameHubs t) (ds : List Deed) :
    (ds.foldl Deed.apply s).SameHubs (ds.foldl Deed.apply t) := by
  induction ds generalizing s t with
  | nil => exact h
  | cons d ds ih =>
    refine ih ?_
    cases d with
    | call c o => exact h
    | broadcast hub room frame => exact (h.finish (.listing hub room frame)).2

theorem foldl_apply_calls (s t u : Service) : (calls s t).foldl Deed.apply u = u := by
  unfold calls
  generalize t.journal.drop s.journal.length = es
  induction es with
  | nil => rfl
  | cons e es ih => exact ih

end Apply

namespace Activity

/-- The service once a delivery that has begun is through. -/
def ahead (s : Service) : Activity → Service
  | .delivering (.listing ..) _ => s
  | .delivering f _ => (f.finish s).2
  | _ => s

variable {s t : Service}

theorem ahead_sameHubs (h : s.SameHubs t) (a : Activity) : (a.ahead s).SameHubs (a.ahead t) := by
  cases a with
  | delivering f r =>
    cases f with
    | listing hub room frame => exact h
    | handing frame rest sent => exact (h.finish _).2
    | done k => exact h
  | _ => exact h

/-- A step changes nothing about what will have become of the connections. -/
theorem ahead_step {choice : Choice} {a a' : Activity} (h : a.step s choice = some (a', t)) :
    (a.begins.foldl Deed.apply (a.ahead s)).SameHubs (a'.ahead t) := by
  cases Activity.step_spec h with
  | deliver f f' t r hf =>
    have hfinish := hf.finish_eq
    have hahead : (Activity.delivering f' r).ahead t = (f'.finish t).2 := by cases hf <;> rfl
    rw [hahead, hfinish]
    cases f <;> exact .refl _
  | _ => exact ⟨rfl, rfl⟩

/-- **The effect.** Where nothing else touches the hubs and the connections, they have become in the end what the deeds
make of them. -/
theorem course_effect {E : Service → Service → Prop} (hE : ∀ s t, E s t → s.SameHubs t) {a : Activity} {ds : List Deed}
    {r : Except PublishError Unit} (h : Course E s a ds (.finished r) t) :
    (ds.foldl Deed.apply (a.ahead s)).SameHubs t := by
  generalize hb : Activity.finished r = b at h
  induction h with
  | refl s a =>
    subst hb
    exact .refl s
  | own choice hstep _ ih =>
    rw [List.foldl_append, List.foldl_append, foldl_apply_calls]
    exact (foldl_apply_sameHubs (ahead_step hstep) _).trans (ih hb)
  | other hother _ ih => exact (foldl_apply_sameHubs (ahead_sameHubs (hE _ _ hother) _) _).trans (ih hb)

end Activity

end Hub

end Parley
