import Mathlib.Data.List.Infix
import Parley.Proofs.Steps

/-!
# The order in which a room hears what is broadcast

A call that broadcasts to a room lists the connections of the room in one step and hands its frame to
them one by one, so that other calls, and whatever else happens at the hub, may come in between.
`Calls` is a service with the calls that were made and with a record of the frames that each
connection has accepted, and of which call each of them is.

* `Heard` is the invariant: a connection that attends a room throughout accepts the frame of a call at
  the moment when the call gets to it, and once.
* `in_turn_of_apart`: of two calls of which one is over when the other is made, all such connections
  accept the frames in the order of the calls.
* `crossed` shows that nothing more is true: two calls that overlap are heard in one order by one
  member of the room and in the other order by another.
-/

namespace Parley.Order

open Hub

/-! ### Calls -/

/-- A call that broadcasts: its room, its frame, if it has one, and how far it is. -/
structure Call where
  room : String
  frame : Option String
  progress : Fanout
deriving DecidableEq, Repr

structure Calls where
  service : Service
  /-- The calls that were made, in order. -/
  calls : List Call := []
  /-- The frames that a connection has accepted since the beginning, each with the number of its call. -/
  heard : ConnId → List (Nat × String) := fun _ => []

inductive Move where
  /-- A call is made for a room; an event that cannot be written or a payload that is no text has no frame. -/
  | call (room : String) (frame : Option String)
  /-- A call takes a step. -/
  | go (k : Nat)
  | connect (room user : String) (sink : Sink)
  | register (d : ConnId)
  | deregister (d : ConnId)
  | close (d : ConnId)
  /-- The writer of a connection takes a step, if it can. -/
  | write (d : ConnId) (now : Instant) (stopFirst : Bool)

namespace Calls

/-- The frames that a connection has accepted between two states of the service. -/
def gained (s t : Service) (d : ConnId) : List String :=
  (t.connection d).accepted.drop (s.connection d).accepted.length

def go (o : Calls) (k : Nat) : Calls :=
  match o.calls[k]? with
  | none => o
  | some call =>
    let (progress, t) := call.progress.step o.service
    { service := t
      calls := o.calls.set k { call with progress }
      heard := fun d => o.heard d ++ (gained o.service t d).map fun frame => (k, frame) }

def apply (h : Nat) (o : Calls) : Move → Calls
  | .call room frame => { o with calls := o.calls ++ [⟨room, frame, .listing h room frame⟩] }
  | .go k => o.go k
  | .connect room user sink => { o with service := (o.service.connect room user sink).2 }
  | .register d => { o with service := o.service.register h d }
  | .deregister d => { o with service := o.service.deregister h d }
  | .close d => { o with service := o.service.close d }
  | .write d now stopFirst => { o with service := o.service.updateConnection d fun x => (x.step now stopFirst).getD x }

def start (s : Service) : Calls := { service := s }

def run (h : Nat) (o : Calls) (ms : List Move) : Calls := ms.foldl (apply h) o

theorem run_append (h : Nat) (o : Calls) (ms ns : List Move) : o.run h (ms ++ ns) = (o.run h ms).run h ns :=
  List.foldl_append

end Calls

variable {h : Nat} {room text : String} {c d : ConnId} {s : Service} {o : Calls}

/-! ### A step of a call -/

theorem gained_self (s : Service) (d : ConnId) : Calls.gained s s d = [] := List.drop_length

theorem gained_send_of_ne (frame : String) (h : d ≠ c) : Calls.gained s (s.send c frame).2 d = [] := by
  unfold Calls.gained
  rw [s.connection_send_of_ne frame h]
  exact List.drop_length

theorem gained_send (frame : String) (hc : c < s.connections.size) (ht : s.Takes c) :
    Calls.gained s (s.send c frame).2 c = [frame] := by
  unfold Calls.gained
  rw [s.connection_send_of_takes frame hc ht]
  exact List.drop_left

theorem step_service (s : Service) (f : Fanout) : (f.step s).2 = s ∨ ∃ d frame, (f.step s).2 = (s.send d frame).2 := by
  match f with
  | .listing _ _ none | .listing _ _ (some _) | .handing _ [] _ | .done _ => exact .inl rfl
  | .handing frame (d :: rest) sent =>
    obtain ⟨_, he⟩ := Fanout.step_handing s frame d rest sent
    exact .inr ⟨d, frame, by rw [he]⟩

/-- A connection that is there, is listed in a room, is open and has room in its queue. -/
structure Attends (h : Nat) (room : String) (c : ConnId) (s : Service) : Prop where
  lt_size : c < s.connections.size
  listed : c ∈ (s.registry h).snapshot room
  takes : s.Takes c

instance (s : Service) : Decidable (Attends h room c s) :=
  decidable_of_iff (c < s.connections.size ∧ c ∈ (s.registry h).snapshot room ∧ s.Takes c)
    ⟨fun ⟨lt_size, listed, takes⟩ => ⟨lt_size, listed, takes⟩, fun ⟨lt_size, listed, takes⟩ => ⟨lt_size, listed, takes⟩⟩

/-- Where a call with a text for a room stands for a connection that attends: whether it has been told. -/
inductive Told (h : Nat) (room text : String) (c : ConnId) : Fanout → Bool → Prop
  | listing : Told h room text c (.listing h room (some text)) false
  | ahead (rest : List ConnId) (sent : Nat) (once : rest.Nodup) (hc : c ∈ rest) :
      Told h room text c (.handing text rest sent) false
  | past (rest : List ConnId) (sent : Nat) (once : rest.Nodup) (hc : c ∉ rest) :
      Told h room text c (.handing text rest sent) true
  | ended (sent : Nat) : Told h room text c (.done sent) true

/-- A call tells a connection that attends, once. -/
theorem Told.step {f : Fanout} {told : Bool} (hf : Told h room text c f told) (hc : Attends h room c s)
    (listed : ((s.registry h).snapshot room).Nodup) :
    ∃ told', Told h room text c (f.step s).1 told' ∧
      (if told' then [text] else []) = (if told then [text] else []) ++ Calls.gained s (f.step s).2 c := by
  cases hf with
  | listing => exact ⟨false, .ahead _ 0 listed hc.listed, by simp [Fanout.step, gained_self]⟩
  | ended sent => exact ⟨true, .ended sent, by simp [Fanout.step, gained_self]⟩
  | ahead rest sent once hmem =>
    cases rest with
    | nil => cases hmem
    | cons d rest =>
      obtain ⟨sent', he⟩ := Fanout.step_handing s text d rest sent
      obtain ⟨hd, hrest⟩ := List.nodup_cons.mp once
      rw [he]
      rcases List.mem_cons.mp hmem with rfl | hmem
      · exact ⟨true, .past rest sent' hrest hd, by simp [gained_send text hc.lt_size hc.takes]⟩
      · have hne : c ≠ d := fun e => hd (e ▸ hmem)
        exact ⟨false, .ahead rest sent' hrest hmem, by simp [gained_send_of_ne text hne]⟩
  | past rest sent once hmem =>
    cases rest with
    | nil => exact ⟨true, .ended sent, by simp [Fanout.step, gained_self]⟩
    | cons d rest =>
      obtain ⟨sent', he⟩ := Fanout.step_handing s text d rest sent
      have hne : c ≠ d := List.ne_of_not_mem_cons hmem
      rw [he]
      exact ⟨true, .past rest sent' (List.nodup_cons.mp once).2 (List.not_mem_of_not_mem_cons hmem),
        by simp [gained_send_of_ne text hne]⟩

/-! ### What a connection has heard -/

/-- The connections of a room are listed once each. -/
def Listed (s : Service) : Prop := ∀ g room, ((s.registry g).snapshot room).Nodup

theorem Listed.apply (ho : Listed o.service) (m : Move) : Listed (o.apply h m).service := by
  cases m with
  | call | connect | close | write => exact ho
  | register d => exact fun g room => o.service.nodup_snapshot_register h g d room ho
  | deregister d => exact fun g room => o.service.nodup_snapshot_deregister h g d room ho
  | go k =>
    simp only [Calls.apply, Calls.go]
    split
    · exact ho
    · rename_i call _
      rcases step_service o.service call.progress with ht | ⟨d, frame, ht⟩
      · rw [ht]; exact ho
      · rw [ht]; exact ho

/-- What a connection that attends a room has heard: of each call for the room with a text, the text once,
when the call has told it. -/
structure Heard (h : Nat) (room : String) (c : ConnId) (o : Calls) : Prop where
  known : ∀ x ∈ o.heard c, x.1 < o.calls.length
  told : ∀ k text progress, o.calls[k]? = some ⟨room, some text, progress⟩ → ∃ told, Told h room text c progress told ∧
    (o.heard c).filter (·.1 == k) = (if told then [text] else []).map fun frame => (k, frame)

theorem Heard.call (hc : Heard h room c o) (other : String) (frame : Option String) :
    Heard h room c (o.apply h (.call other frame)) := by
  refine ⟨fun x hx => ?_, fun k text progress hk => ?_⟩
  · have := hc.known x hx
    simp only [Calls.apply, List.length_append, List.length_singleton]
    omega
  · rcases Nat.lt_or_ge k o.calls.length with hlt | hge
    · exact hc.told k text progress (by simpa [Calls.apply, List.getElem?_append, hlt] using hk)
    · -- the new call, which nobody has heard of
      have hnew : (⟨other, frame, .listing h other frame⟩ : Call) = ⟨room, some text, progress⟩ := by
        simp only [Calls.apply, List.getElem?_append_right hge] at hk
        exact List.mem_singleton.mp (List.mem_of_getElem? hk) |>.symm
      cases hnew
      refine ⟨false, .listing, List.filter_eq_nil_iff.mpr fun x hx => ?_⟩
      have := hc.known x hx
      simp only [beq_iff_eq]
      omega

theorem Heard.go (hc : Heard h room c o) (ho : Listed o.service) (ha : Attends h room c o.service) (k : Nat) :
    Heard h room c (o.go k) := by
  unfold Calls.go
  split
  · exact hc
  · rename_i call hk
    have hlt : k < o.calls.length := (List.getElem?_eq_some_iff.mp hk).1
    refine ⟨fun x hx => ?_, fun j text progress hj => ?_⟩
    · simp only [List.length_set]
      rcases List.mem_append.mp hx with hx | hx
      · exact hc.known x hx
      · obtain ⟨_, _, rfl⟩ := List.mem_map.mp hx
        exact hlt
    · simp only at hj ⊢
      rw [List.filter_append, List.filter_map]
      by_cases hjk : k = j
      · subst hjk
        rw [List.getElem?_set_self hlt] at hj
        obtain ⟨room', frame', progress'⟩ := call
        cases hj
        obtain ⟨told, htold, hfilter⟩ := hc.told k text progress' hk
        obtain ⟨told', htold', hgained⟩ := htold.step ha (ho h _)
        refine ⟨told', htold', ?_⟩
        rw [hfilter, hgained, List.map_append]
        simp [Function.comp_def]
      · rw [List.getElem?_set_ne hjk] at hj
        obtain ⟨told, htold, hfilter⟩ := hc.told j text progress hj
        refine ⟨told, htold, ?_⟩
        rw [hfilter]
        simp [Function.comp_def, hjk]

theorem Heard.apply (hc : Heard h room c o) (ho : Listed o.service) (ha : Attends h room c o.service) (m : Move) :
    Heard h room c (o.apply h m) := by
  cases m with
  | call other frame => exact hc.call other frame
  | go k => exact hc.go ho ha k
  | connect | register | deregister | close | write => exact ⟨hc.known, hc.told⟩

/-- Something is so all through a course. -/
def Throughout (h : Nat) (o : Calls) (ms : List Move) (P : Service → Prop) : Prop :=
  ∀ ns, ns <+: ms → P (o.run h ns).service

theorem Throughout.of_append {P : Service → Prop} {ms ns : List Move} (ht : Throughout h o (ms ++ ns) P) :
    Throughout h o ms P :=
  fun ls hl => ht ls (hl.trans (List.prefix_append ms ns))

theorem Throughout.last {P : Service → Prop} {ms : List Move} (ht : Throughout h o ms P) : P (o.run h ms).service :=
  ht ms (List.prefix_refl ms)

instance (o : Calls) (ms : List Move) (P : Service → Prop) [DecidablePred P] : Decidable (Throughout h o ms P) :=
  decidable_of_iff (∀ ns ∈ ms.inits, P (o.run h ns).service) (by simp only [List.mem_inits]; rfl)

theorem listed_run (ho : Listed o.service) (ms : List Move) : Listed (o.run h ms).service := by
  induction ms using List.reverseRecOn with
  | nil => exact ho
  | append_singleton ms m ih =>
    rw [Calls.run_append]
    exact ih.apply m

theorem heard_run (ho : Listed o.service) (hc : Heard h room c o) {ms : List Move}
    (ha : Throughout h o ms (Attends h room c)) : Heard h room c (o.run h ms) := by
  induction ms using List.reverseRecOn with
  | nil => exact hc
  | append_singleton ms m ih =>
    rw [Calls.run_append]
    exact (ih ha.of_append).apply (listed_run ho ms) ha.of_append.last m

/-! ### The record and the service -/

theorem accepted_send (s : Service) (c d : ConnId) (frame : String) :
    (s.connection d).accepted <+: ((s.send c frame).2.connection d).accepted := by
  by_cases hdc : d = c
  · subst hdc
    by_cases hd : d < s.connections.size
    · rw [s.connection_send frame hd]
      rcases (s.connection d).send_cases frame with hs | hs <;> rw [hs]
      exact List.prefix_append _ _
    · rw [show (s.send d frame).2 = s from s.updateConnection_of_size_le _ (Nat.le_of_not_lt hd)]
  · rw [s.connection_send_of_ne frame hdc]

theorem accepted_step (s : Service) (f : Fanout) (d : ConnId) :
    ((f.step s).2.connection d).accepted = (s.connection d).accepted ++ Calls.gained s (f.step s).2 d := by
  have hgrows : (s.connection d).accepted <+: ((f.step s).2.connection d).accepted := by
    rcases step_service s f with ht | ⟨e, frame, ht⟩
    · rw [ht]
    · rw [ht]
      exact accepted_send s e d frame
  obtain ⟨new, hnew⟩ := hgrows
  rw [Calls.gained, ← hnew, List.drop_left]

theorem accepted_connect (s : Service) (room user : String) (sink : Sink) (d : ConnId) :
    ((s.connect room user sink).2.connection d).accepted = (s.connection d).accepted := by
  by_cases hd : d = s.connections.size
  · subst hd
    rw [(s.connection_connect room user sink).2.2.1]
    simp [Service.connection]
    rfl
  · rw [s.connection_connect_of_ne room user sink hd]

theorem accepted_apply (o : Calls) (m : Move) (d : ConnId) : ∃ new : List (Nat × String),
    (o.apply h m).heard d = o.heard d ++ new ∧
    ((o.apply h m).service.connection d).accepted = (o.service.connection d).accepted ++ new.map (·.2) := by
  have unchanged {t : Service} (ht : (t.connection d).accepted = (o.service.connection d).accepted) :
      ∃ new : List (Nat × String), o.heard d = o.heard d ++ new ∧
        (t.connection d).accepted = (o.service.connection d).accepted ++ new.map (·.2) :=
    ⟨[], (List.append_nil _).symm, by rw [ht, List.map_nil, List.append_nil]⟩
  cases m with
  | call | register | deregister => exact unchanged rfl
  | connect room user sink => exact unchanged (accepted_connect o.service room user sink d)
  | close e => exact unchanged (o.service.field_updateConnection e d _ Connection.accepted (by simp))
  | write e now stopFirst =>
    refine unchanged (o.service.field_updateConnection e d _ Connection.accepted ?_)
    cases hx : (o.service.connection e).step now stopFirst with
    | none => rfl
    | some x => exact (Connection.step_kept hx).accepted
  | go k =>
    simp only [Calls.apply, Calls.go]
    cases hk : o.calls[k]? with
    | none => exact unchanged rfl
    | some call => exact ⟨_, rfl, by rw [accepted_step]; simp [Function.comp_def]⟩

theorem accepted_run (o : Calls) (ms : List Move) (d : ConnId) : ∃ new : List (Nat × String),
    (o.run h ms).heard d = o.heard d ++ new ∧
    ((o.run h ms).service.connection d).accepted = (o.service.connection d).accepted ++ new.map (·.2) := by
  induction ms using List.reverseRecOn with
  | nil => exact ⟨[], by simp [Calls.run], by simp [Calls.run]⟩
  | append_singleton ms m ih =>
    obtain ⟨new, hheard, haccepted⟩ := ih
    obtain ⟨newer, hheard', haccepted'⟩ := accepted_apply (o.run h ms) m d
    refine ⟨new ++ newer, ?_, ?_⟩
    · rw [Calls.run_append, ← List.append_assoc, ← hheard]
      exact hheard'
    · rw [Calls.run_append, List.map_append, ← List.append_assoc, ← haccepted]
      exact haccepted'

/-! ### Calls that are over -/

theorem over_apply {k n : Nat} {call : Call} (hk : o.calls[k]? = some call) (hover : call.progress = .done n)
    (m : Move) :
    (o.apply h m).calls[k]? = some call := by
  cases m with
  | connect | register | deregister | close | write => exact hk
  | call room frame =>
    have hlt : k < o.calls.length := (List.getElem?_eq_some_iff.mp hk).1
    simpa [Calls.apply, List.getElem?_append, hlt] using hk
  | go j =>
    simp only [Calls.apply, Calls.go]
    cases hj : o.calls[j]? with
    | none => exact hk
    | some other =>
      by_cases hjk : j = k
      · subst hjk
        cases hk.symm.trans hj
        have hlt : j < o.calls.length := (List.getElem?_eq_some_iff.mp hk).1
        simp only [List.getElem?_set_self hlt, hover, Fanout.step]
        rw [← hover]
      · simpa [List.getElem?_set_ne hjk] using hk

theorem over_run {k n : Nat} {call : Call} (hk : o.calls[k]? = some call) (hover : call.progress = .done n)
    (ms : List Move) :
    (o.run h ms).calls[k]? = some call := by
  induction ms using List.reverseRecOn with
  | nil => exact hk
  | append_singleton ms m ih =>
    rw [Calls.run_append]
    exact over_apply ih hover m

/-- A connection that attends has heard a call that is over. -/
theorem Heard.of_over (hc : Heard h room c o) {k n : Nat} (hk : o.calls[k]? = some ⟨room, some text, .done n⟩) :
    (o.heard c).filter (·.1 == k) = [(k, text)] := by
  obtain ⟨told, htold, hfilter⟩ := hc.told k text _ hk
  cases htold
  exact hfilter

/-! ### The order -/

/-- What a connection has heard of two calls, when at some moment the one was over and the other not made. -/
theorem filter_of_apart {p q : Nat} {a b : String} {old new : List (Nat × String)} (hold : ∀ x ∈ old, x.1 ≠ q)
    (hp : old.filter (·.1 == p) = [(p, a)]) (hp' : (old ++ new).filter (·.1 == p) = [(p, a)])
    (hq : (old ++ new).filter (·.1 == q) = [(q, b)]) :
    (old ++ new).filter (fun x => x.1 == p || x.1 == q) = [(p, a), (q, b)] := by
  have hnew : new.filter (·.1 == p) = [] := by
    rw [List.filter_append, hp] at hp'
    exact List.append_right_eq_self.mp hp'
  have holdq : old.filter (·.1 == q) = [] := List.filter_eq_nil_iff.mpr fun x hx => by simpa using hold x hx
  have hold' : old.filter (fun x => x.1 == p || x.1 == q) = old.filter (·.1 == p) :=
    List.filter_congr fun x hx => by simp [hold x hx]
  have hnew' : new.filter (fun x => x.1 == p || x.1 == q) = new.filter (·.1 == q) :=
    List.filter_congr fun x hx => by
      have hne : (x.1 == p) = false := by simpa using List.filter_eq_nil_iff.mp hnew x hx
      rw [hne, Bool.false_or]
  rw [List.filter_append, holdq, List.nil_append] at hq
  rw [List.filter_append, hold', hnew', hp, hq]
  rfl

theorem heard_start (s : Service) : Heard h room c (Calls.start s) :=
  ⟨fun _ hx => absurd hx List.not_mem_nil, fun _ _ _ hk => by simp [Calls.start] at hk⟩

/-- **Calls that do not overlap are heard in their order.** A call for a room is over when another one is made
for it, and later that one is over, too, whatever else goes on at the hub, other calls included. Then every two
connections that attend the room throughout have heard the two calls in the order in which they were made, each
once, and the frames that a connection has accepted are those that it has heard. -/
theorem in_turn_of_apart {h : Nat} {room a b : String} {s : Service} {before after : List Move} {p q m n : Nat}
    (listed : Listed s) (first : ((Calls.start s).run h before).calls[p]? = some ⟨room, some a, .done m⟩)
    (made : ((Calls.start s).run h before).calls.length = q)
    (second : ((Calls.start s).run h (before ++ .call room (some b) :: after)).calls[q]? = some ⟨room, some b, .done n⟩)
    {c d : ConnId} (hc : Throughout h (Calls.start s) (before ++ .call room (some b) :: after) (Attends h room c))
    (hd : Throughout h (Calls.start s) (before ++ .call room (some b) :: after) (Attends h room d)) :
    let o := (Calls.start s).run h (before ++ .call room (some b) :: after)
    (o.heard c).filter (fun x => x.1 == p || x.1 == q) = [(p, a), (q, b)] ∧
    (o.heard d).filter (fun x => x.1 == p || x.1 == q) = [(p, a), (q, b)] ∧
    ∀ e, (o.service.connection e).accepted = (s.connection e).accepted ++ (o.heard e).map (·.2) := by
  intro o
  have listed' : Listed (Calls.start s).service := listed
  have heard {e : ConnId}
      (he : Throughout h (Calls.start s) (before ++ .call room (some b) :: after) (Attends h room e)) :
      (o.heard e).filter (fun x => x.1 == p || x.1 == q) = [(p, a), (q, b)] := by
    have hthen : Heard h room e ((Calls.start s).run h before) := heard_run listed' (heard_start s) he.of_append
    have hnow : Heard h room e o := heard_run listed' (heard_start s) he
    have hfirst : o.calls[p]? = some ⟨room, some a, .done m⟩ := by
      rw [show o = _ from Calls.run_append h _ before _]
      exact over_run first rfl _
    obtain ⟨new, hnew, -⟩ := accepted_run (h := h) ((Calls.start s).run h before) (.call room (some b) :: after) e
    rw [← Calls.run_append] at hnew
    have hp := hnow.of_over hfirst
    have hq := hnow.of_over second
    rw [show o.heard e = _ from hnew] at hp hq ⊢
    exact filter_of_apart (fun x hx => made ▸ Nat.ne_of_lt (hthen.known x hx)) (hthen.of_over first) hp hq
  refine ⟨heard hc, heard hd, fun e => ?_⟩
  obtain ⟨new, hheard, haccepted⟩ := accepted_run (h := h) (Calls.start s) (before ++ .call room (some b) :: after) e
  rw [haccepted, hheard]
  rfl

theorem in_turn_of_apart_twoMembers :
    let o := (Calls.start Service.twoMembers).run 0 ([.call "r" (some "A"), .go 0, .go 0, .go 0, .go 0] ++
      .call "r" (some "B") :: [.go 1, .go 1, .go 1, .go 1])
    (o.heard 0).filter (fun x => x.1 == 0 || x.1 == 1) = [(0, "A"), (1, "B")] ∧
    (o.heard 1).filter (fun x => x.1 == 0 || x.1 == 1) = [(0, "A"), (1, "B")] ∧
    ∀ e, (o.service.connection e).accepted = (Service.twoMembers.connection e).accepted ++ (o.heard e).map (·.2) :=
  in_turn_of_apart (m := 2) (n := 2) Service.nodup_twoMembers (by decide +kernel) (by decide +kernel)
    (by decide +kernel) (by decide +kernel) (by decide +kernel)

/-! ### Calls that overlap -/

/-- Two calls by turns: the first is between its two members when the second is made, and it ends last. -/
def crossed : List Move :=
  [.call "r" (some "A"), .go 0, .go 0, .call "r" (some "B"), .go 1, .go 1, .go 1, .go 1, .go 0, .go 0]

/-- **Calls that overlap may be heard in different orders.** Both members attend the room throughout and both calls
are over; one member has accepted the first frame before the second, and the other one the second before the first. -/
theorem two_orders_crossed :
    let o := (Calls.start Service.twoMembers).run 0 crossed
    Throughout 0 (Calls.start Service.twoMembers) crossed (Attends 0 "r" 0) ∧
    Throughout 0 (Calls.start Service.twoMembers) crossed (Attends 0 "r" 1) ∧
    o.calls = [⟨"r", some "A", .done 2⟩, ⟨"r", some "B", .done 2⟩] ∧
    o.heard 0 = [(0, "A"), (1, "B")] ∧ (o.service.connection 0).accepted = ["A", "B"] ∧
    o.heard 1 = [(1, "B"), (0, "A")] ∧ (o.service.connection 1).accepted = ["B", "A"] := by
  decide +kernel

end Parley.Order
