import Mathlib.Data.List.Infix
import Parley.Proofs.Sessions.Step

/-!
# From the queue of a connection to its transport

Frames are queued on a connection by whoever sends them, and its writer hands them to the transport
one at a time. An `Outbox` is a connection with books of what went on at both ends: the frames that
`send` has taken, those that the writer has taken from the queue, and each write that began and ended.

* `Stride` lists what a step of the writer of an open connection can be.
* `Outbox.Sound` ties the books together; every event keeps it while the connection is open.
* `frames_in_turn` is the result for every course of events and every behaviour of the transport:
  nothing is lost, repeated or reordered, and a write that fails costs only its own frame.
* `Deployment.comes_turns` says that such a course of events is all that a running service does to a connection.
-/

namespace Parley.Hub

/-- How a write ends. -/
inductive Ending where
  | written
  | failed
  | timedOut
deriving DecidableEq, Repr

/-- How a write ends that meets with a fate, given that the writer waits only so long. -/
def Fate.ending : Fate → Ending
  | .taken => .written
  | .refused => .failed
  | .delayed nanos => if nanos ≤ Connection.writeLimit.nanos then .written else .timedOut
  | .failing nanos => if nanos ≤ Connection.writeLimit.nanos then .failed else .timedOut
  | .stalled => .timedOut

/-- What the other end sees of the end of a write. -/
def Ending.sight? (frame : String) : Ending → Option Sight
  | .written => some (.text frame)
  | .failed => some .failed
  | .timedOut => none

def texts (sights : List Sight) : List String :=
  sights.filterMap fun
    | .text frame => some frame
    | _ => none

/-- What a writer has the transport do, and what comes of it. -/
inductive Mark where
  | began (frame : String)
  | ended (e : Ending)
deriving DecidableEq, Repr

namespace Connection

def writing? (c : Connection) : Option String :=
  match c.writer with
  | .writing frame _ _ => some frame
  | _ => none

/-- The frame that the writer has taken and not yet begun to write. -/
def held? (c : Connection) : Option String :=
  match c.writer with
  | .holding frame => some frame
  | _ => none

/-- How the write has ended that led from one state to another, by what the other end has seen in between. -/
def ending (c c' : Connection) : Ending :=
  match c'.sights.drop c.sights.length with
  | .text _ :: _ => .written
  | .failed :: _ => .failed
  | _ => .timedOut

/-- What the writer has had the transport do between two states. -/
def marks (c c' : Connection) : List Mark :=
  let begun := c'.begun.drop c.begun.length
  let ended := (c.writing?.isSome || !begun.isEmpty) && c'.writing?.isNone
  begun.map .began ++ if ended then [.ended (c.ending c')] else []

/-- How a write will end that is in progress. -/
def due (done : Option (Instant × Bool)) (deadline : Instant) : Ending :=
  match done with
  | some (t, written) => if t ≤ deadline then if written then .written else .failed else .timedOut
  | none => .timedOut

variable {c c' : Connection} {now : Instant} {stopFirst : Bool}

theorem ending_eq {e : Ending} {frame : String} (h : c'.sights = c.sights ++ (e.sight? frame).toList) :
    c.ending c' = e := by
  unfold ending
  rw [h, List.drop_left]
  cases e <;> rfl

theorem marks_beginAndEnd {e : Ending} {frame : String} {sights : List Sight} (hw : c.writer = .holding frame)
    (hsights : sights = c.sights ++ (e.sight? frame).toList) :
    c.marks { c with begun := c.begun ++ [frame], writer := .idle, sights } = [.began frame, .ended e] := by
  have hend : c.ending { c with begun := c.begun ++ [frame], writer := .idle, sights } = e := ending_eq hsights
  simp [marks, writing?, hw, hend]

theorem marks_finish {e : Ending} {frame : String} {sights : List Sight} (hw : c.writing? = some frame)
    (hsights : sights = c.sights ++ (e.sight? frame).toList) :
    c.marks { c with writer := .idle, sights } = [.ended e] := by
  have hend : c.ending { c with writer := .idle, sights } = e := ending_eq hsights
  simp [marks, hw, hend]
  rfl

/-! ### A step of the writer -/

/-- A step of the writer of an open connection: it takes a frame, begins to write it, which may be over at
once, or ends a write. How a write ends is up to its fate alone. -/
inductive Stride (c : Connection) : Connection → Prop
  | take (hw : c.writer = .idle) (frame : String) (rest : List String) (hq : c.queue = frame :: rest) :
      Stride c { c with queue := rest, writer := .holding frame }
  | begin (frame : String) (hw : c.writer = .holding frame) (done : Option (Instant × Bool)) (deadline : Instant)
      (hdue : due done deadline = (c.sink c.begun.length).ending) (sights : List Sight)
      (hsights : texts sights = texts c.sights) :
      Stride c { c with begun := c.begun ++ [frame], writer := .writing frame done deadline, sights }
  | beginAndEnd (frame : String) (hw : c.writer = .holding frame) (sights : List Sight)
      (hsights : sights = c.sights ++ ((c.sink c.begun.length).ending.sight? frame).toList) :
      Stride c { c with begun := c.begun ++ [frame], writer := .idle, sights }
  | finish (frame : String) (done : Option (Instant × Bool)) (deadline : Instant)
      (hw : c.writer = .writing frame done deadline) (sights : List Sight)
      (hsights : sights = c.sights ++ ((due done deadline).sight? frame).toList) :
      Stride c { c with writer := .idle, sights }

theorem stride_beginWrite {frame : String} (hw : c.writer = .holding frame) : Stride c (c.beginWrite now frame) := by
  unfold beginWrite
  cases hs : c.sink c.begun.length with
  | taken => exact .beginAndEnd frame hw _ (by rw [hs]; rfl)
  | refused => exact .beginAndEnd frame hw _ (by rw [hs]; rfl)
  | delayed nanos => exact .begin frame hw _ _ (by simp [hs, due, Fate.ending]) _ rfl
  | failing nanos => exact .begin frame hw _ _ (by simp [hs, due, Fate.ending]) _ rfl
  | stalled => exact .begin frame hw _ _ (by rw [hs]; rfl) _ (by simp [texts])

theorem stride_endWrite {frame : String} {done : Option (Instant × Bool)} {deadline : Instant}
    (hw : c.writer = .writing frame done deadline) (h : c.endWrite now frame done deadline = some c') :
    Stride c c' := by
  unfold endWrite at h
  split at h
  · rename_i t written
    split at h
    · rename_i hin
      have hin : t ≤ now ∧ t ≤ deadline := by simpa using hin
      cases h
      exact .finish frame _ deadline hw _ (by cases written <;> simp [due, hin.2, Ending.sight?])
    · rename_i hin
      split at h <;> cases h
      rename_i hover
      -- the transport would have been in time had it been done by the deadline, which is past
      have hlate : ¬t ≤ deadline := fun ht => hin (by simpa using ⟨Nat.le_trans ht hover, ht⟩)
      exact .finish frame _ deadline hw _ (by simp [due, hlate, Ending.sight?])
  · split at h <;> cases h
    exact .finish frame _ deadline hw _ (by simp [due, Ending.sight?])

theorem stride_of_proceed (h : c.proceed now = some c') : Stride c c' := by
  unfold proceed at h
  split at h
  · cases h
  · rename_i hw
    unfold take at h
    split at h <;> cases h
    rename_i frame rest hq
    exact .take hw frame rest hq
  · rename_i frame hw
    cases h
    exact stride_beginWrite hw
  · rename_i frame done deadline hw
    exact stride_endWrite hw h

/-- **A step of the writer** of an open connection. -/
theorem stride_of_step (hopen : c.closed = false) (h : c.step now stopFirst = some c') : Stride c c' := by
  unfold step at h
  rw [hopen] at h
  split at h
  · cases h
  · exact stride_of_proceed h

/-- A writer that waits for the transport goes on at the deadline at the latest. -/
theorem step_writing {frame : String} {done : Option (Instant × Bool)} {deadline : Instant} (hopen : c.closed = false)
    (hw : c.writer = .writing frame done deadline) (hnow : deadline ≤ now) :
    ∃ sights, c.step now stopFirst = some { c with writer := .idle, sights } := by
  simp only [step, proceed, endWrite, hw, hopen]
  rcases done with _ | ⟨t, written⟩
  · exact ⟨c.sights, by simp [hnow]⟩
  · by_cases ht : t ≤ now ∧ t ≤ deadline
    · exact ⟨_, by simp [ht, see]; rfl⟩
    · exact ⟨c.sights, by simp [ht, hnow]⟩

/-! ### What is left to do -/

/-- How many steps the writer needs at most to empty the queue. -/
def work (c : Connection) : Nat :=
  3 * c.queue.length +
    match c.writer with
    | .holding _ => 2
    | .writing _ _ _ => 1
    | _ => 0

theorem Stride.work_lt (h : Stride c c') : c'.work < c.work := by
  cases h with
  | take hw frame rest hq =>
    simp only [work, hw, hq, List.length_cons]
    omega
  | begin frame hw => simp only [work, hw]; omega
  | beginAndEnd frame hw => simp only [work, hw]; omega
  | finish frame done deadline hw => simp only [work, hw]; omega

/-- A writer with something to do gets to it, sooner or later. -/
theorem exists_step (hopen : c.closed = false) (hrunning : c.writer ≠ .stopped) (hwork : c.work ≠ 0) (now : Instant) :
    ∃ t, now ≤ t ∧ ∃ c', c.step t false = some c' := by
  cases hw : c.writer with
  | stopped => exact absurd hw hrunning
  | idle =>
    cases hq : c.queue with
    | nil => simp [work, hw, hq] at hwork
    | cons frame rest => exact ⟨now, Nat.le_refl _, _, by simp [step, proceed, take, hw, hq, hopen]; rfl⟩
  | holding frame => exact ⟨now, Nat.le_refl _, _, by simp [step, proceed, hw, hopen]; rfl⟩
  | writing frame done deadline =>
    obtain ⟨_, hstep⟩ := step_writing hopen hw (Nat.le_max_right now deadline)
    exact ⟨max now deadline, Nat.le_max_left _ _, _, hstep⟩

end Connection

/-! ### The books -/

inductive Event where
  /-- Somebody sends a frame. -/
  | send (frame : String)
  /-- The writer takes a step, if it can. -/
  | write (now : Instant) (stopFirst : Bool)
  | close
deriving DecidableEq, Repr

structure Outbox where
  connection : Connection
  /-- The frames for which `send` has answered that they are queued, in order. -/
  sent : List String := []
  /-- The frames that the writer has taken from the queue, in order. -/
  taken : List String := []
  /-- What the writer has had the transport do, in order. -/
  marks : List Mark := []

namespace Outbox

def start (label room user : String) (sink : Sink) : Outbox := { connection := { label, room, user, sink } }

def stepped (o : Outbox) (c : Connection) : Outbox :=
  { o with
    connection := c
    taken := o.taken ++ o.connection.queue.take (o.connection.queue.length - c.queue.length)
    marks := o.marks ++ o.connection.marks c }

def apply (o : Outbox) : Event → Outbox
  | .send frame =>
    let (answer, c) := o.connection.send frame
    { o with
      connection := c
      sent := match answer with
        | .ok _ => o.sent ++ [frame]
        | .error _ => o.sent }
  | .write now stopFirst =>
    match o.connection.step now stopFirst with
    | none => o
    | some c => o.stepped c
  | .close => { o with connection := o.connection.close }

def run (o : Outbox) (es : List Event) : Outbox := es.foldl apply o

variable {o : Outbox} {sink : Sink} {past : List String}

theorem run_append (o : Outbox) (es fs : List Event) : o.run (es ++ fs) = (o.run es).run fs := List.foldl_append

theorem closed_apply (h : o.connection.closed = true) (e : Event) : (o.apply e).connection.closed = true := by
  cases e with
  | send frame => simpa [apply] using h
  | write now stopFirst =>
    simp only [apply]
    cases hstep : o.connection.step now stopFirst with
    | none => exact h
    | some c => exact (Connection.step_kept hstep).closed.trans h
  | close => exact Connection.closed_close _

theorem open_of_apply {e : Event} (h : (o.apply e).connection.closed = false) : o.connection.closed = false := by
  cases hc : o.connection.closed with
  | false => rfl
  | true => exact (closed_apply hc e).symm.trans h

/-! ### What the books say -/

/-- The first writes of a transport, one after the other, when they are of these frames. -/
def completed (sink : Sink) (past : List String) : List Mark :=
  (past.mapIdx fun i frame => [.began frame, .ended (sink i).ending]).flatten

/-- The frames that the other end gets of them: all but those whose own write failed or ran out of time. -/
def delivered (sink : Sink) (past : List String) : List String :=
  (past.mapIdx fun i frame => if (sink i).ending = .written then [frame] else []).flatten

theorem completed_concat (sink : Sink) (past : List String) (frame : String) :
    completed sink (past ++ [frame]) = completed sink past ++ [.began frame, .ended (sink past.length).ending] := by
  simp [completed, List.mapIdx_concat]

theorem delivered_concat (sink : Sink) (past : List String) (frame : String) :
    delivered sink (past ++ [frame]) =
      delivered sink past ++ if (sink past.length).ending = .written then [frame] else [] := by
  simp [delivered, List.mapIdx_concat]

theorem texts_sight (sights : List Sight) (e : Ending) (frame : String) :
    texts (sights ++ (e.sight? frame).toList) = texts sights ++ if e = .written then [frame] else [] := by
  unfold texts
  rw [List.filterMap_append]
  cases e <;> rfl

/-- The writes of the frames `past` are over, each with the end that its fate makes. At most one more has
begun, and what the writer has taken it has begun to write or holds. -/
structure InTurn (sink : Sink) (o : Outbox) (past : List String) : Prop where
  sink_eq : o.connection.sink = sink
  marks : o.marks = completed sink past ++ o.connection.writing?.toList.map .began
  begun : o.connection.begun = past ++ o.connection.writing?.toList
  taken : o.taken = o.connection.begun ++ o.connection.held?.toList
  due : ∀ frame done deadline, o.connection.writer = .writing frame done deadline →
    Connection.due done deadline = (sink past.length).ending
  delivered : texts o.connection.sights = delivered sink past

/-- The books of an open connection agree with it and with each other. -/
structure Sound (sink : Sink) (o : Outbox) : Prop where
  conserved : o.sent = o.taken ++ o.connection.queue
  bounded : o.connection.queue.length ≤ Connection.capacity
  running : o.connection.writer ≠ .stopped
  inTurn : ∃ past, InTurn sink o past

theorem sound_start (label room user : String) (sink : Sink) : Sound sink (start label room user sink) where
  conserved := rfl
  bounded := Nat.zero_le _
  running := by simp [start]
  inTurn := ⟨[], rfl, rfl, rfl, rfl, by simp [start], rfl⟩

/-! ### Every event keeps the books right -/

theorem Sound.send (h : Sound sink o) (frame : String) : Sound sink (o.apply (.send frame)) := by
  obtain ⟨past, i⟩ := h.inTurn
  simp only [apply, Connection.send]
  split_ifs with hclosed hfull
  · exact h
  · exact h
  · refine ⟨?_, ?_, h.running, past, i.sink_eq, i.marks, i.begun, i.taken, i.due, i.delivered⟩
    · simp only [h.conserved, List.append_assoc]
    · simp only [List.length_append, List.length_singleton]
      omega

theorem InTurn.stride (i : InTurn sink o past) {c : Connection} (h : Connection.Stride o.connection c) :
    ∃ past, InTurn sink (o.stepped c) past := by
  cases h with
  | take hw frame rest hq =>
    refine ⟨past, i.sink_eq, ?_, ?_, ?_, by simp [stepped], i.delivered⟩
    · simp [stepped, i.marks, Connection.marks, Connection.writing?, hw]
    · simp [stepped, i.begun, Connection.writing?, hw]
    · simp [stepped, i.taken, hq, Connection.held?, hw]
  | begin frame hw done deadline hdue sights hsights =>
    have hpast : o.connection.begun = past := by simpa [Connection.writing?, hw] using i.begun
    refine ⟨past, i.sink_eq, ?_, ?_, ?_, ?_, hsights.trans i.delivered⟩
    · simp [stepped, i.marks, Connection.marks, Connection.writing?, hw]
    · simp [stepped, hpast, Connection.writing?]
    · simp [stepped, i.taken, Connection.held?, hw]
    · simp only [stepped, Writer.writing.injEq]
      rintro _ _ _ ⟨-, rfl, rfl⟩
      rw [hdue, hpast, i.sink_eq]
  | beginAndEnd frame hw sights hsights =>
    have hpast : o.connection.begun = past := by simpa [Connection.writing?, hw] using i.begun
    rw [hpast, i.sink_eq] at hsights
    refine ⟨past ++ [frame], i.sink_eq, ?_, ?_, ?_, by simp [stepped], ?_⟩
    · rw [stepped, Connection.marks_beginAndEnd hw hsights, i.marks, completed_concat]
      simp [Connection.writing?, hw]
    · simp [stepped, hpast, Connection.writing?]
    · simp [stepped, i.taken, Connection.held?, hw]
    · rw [stepped, hsights, texts_sight, i.delivered, delivered_concat]
  | finish frame done deadline hw sights hsights =>
    rw [i.due _ _ _ hw] at hsights
    have hwriting : o.connection.writing? = some frame := by simp [Connection.writing?, hw]
    refine ⟨past ++ [frame], i.sink_eq, ?_, ?_, ?_, by simp [stepped], ?_⟩
    · rw [stepped, Connection.marks_finish hwriting hsights, i.marks, hwriting, completed_concat]
      simp [Connection.writing?]
    · simp [stepped, i.begun, hwriting]
      rfl
    · simp [stepped, i.taken, Connection.held?, hw]
    · rw [stepped, hsights, texts_sight, i.delivered, delivered_concat]

theorem Sound.stride (h : Sound sink o) {c : Connection} (hc : Connection.Stride o.connection c) :
    Sound sink (o.stepped c) := by
  obtain ⟨past, i⟩ := h.inTurn
  have inTurn := i.stride hc
  cases hc with
  | take hw frame rest hq =>
    refine ⟨?_, ?_, by simp [stepped], inTurn⟩
    · simp [stepped, h.conserved, hq]
    · have := h.bounded
      rw [hq, List.length_cons] at this
      exact Nat.le_of_succ_le this
  | begin | beginAndEnd | finish => exact ⟨by simp [stepped, h.conserved], h.bounded, by simp [stepped], inTurn⟩

theorem Sound.write (h : Sound sink o) (hopen : o.connection.closed = false) (now : Instant) (stopFirst : Bool) :
    Sound sink (o.apply (.write now stopFirst)) := by
  simp only [apply]
  cases hstep : o.connection.step now stopFirst with
  | none => exact h
  | some c => exact h.stride (Connection.stride_of_step hopen hstep)

theorem Sound.apply (h : Sound sink o) {e : Event} (hopen : (o.apply e).connection.closed = false) :
    Sound sink (o.apply e) := by
  cases e with
  | send frame => exact h.send frame
  | write now stopFirst => exact h.write (open_of_apply hopen) now stopFirst
  | close => rw [Outbox.apply, Connection.closed_close] at hopen; cases hopen

/-- **The books of a connection are right as long as it is open.** -/
theorem Sound.run (h : Sound sink o) (es : List Event) (hopen : (o.run es).connection.closed = false) :
    Sound sink (o.run es) := by
  induction es using List.reverseRecOn with
  | nil => exact h
  | append_singleton es e ih =>
    rw [run_append] at hopen ⊢
    exact (ih (open_of_apply hopen)).apply hopen

/-! ### The writer empties the queue -/

theorem Sound.exists_write (h : Sound sink o) (hopen : o.connection.closed = false) (hwork : o.connection.work ≠ 0)
    (now : Instant) :
    ∃ t, now ≤ t ∧ (o.apply (.write t false)).connection.closed = false ∧ (o.apply (.write t false)).sent = o.sent ∧
      (o.apply (.write t false)).connection.work < o.connection.work := by
  obtain ⟨t, ht, c', hstep⟩ := Connection.exists_step hopen h.running hwork now
  refine ⟨t, ht, ?_⟩
  simp only [Outbox.apply, hstep]
  exact ⟨(Connection.step_kept hstep).closed.trans hopen, rfl, (Connection.stride_of_step hopen hstep).work_lt⟩

theorem Sound.inTurn_of_work_eq_zero (h : Sound sink o) (hwork : o.connection.work = 0) :
    o.connection.writing? = none ∧ InTurn sink o o.sent := by
  obtain ⟨past, i⟩ := h.inTurn
  obtain ⟨hqueue, hwriter⟩ := Nat.add_eq_zero_iff.mp hwork
  have hq : o.connection.queue = [] := List.length_eq_zero_iff.mp (by omega)
  have hidle : o.connection.writing? = none ∧ o.connection.held? = none := by
    unfold Connection.writing? Connection.held?
    cases hw : o.connection.writer <;> simp_all
  have hpast : o.sent = past := by
    rw [h.conserved, hq, i.taken, i.begun, hidle.1, hidle.2]
    simp
  exact ⟨hidle.1, hpast ▸ i⟩

/-- Whatever the transport does, the writer of an open connection gets through the queue by itself. -/
theorem Sound.exists_drained {o : Outbox} (h : Sound sink o) (hopen : o.connection.closed = false) (now : Instant) :
    ∃ times : List Instant, (now :: times).Pairwise (· ≤ ·) ∧
      let o' := o.run (times.map (.write · false))
      o'.sent = o.sent ∧ o'.connection.writing? = none ∧ InTurn sink o' o.sent := by
  by_cases hwork : o.connection.work = 0
  · exact ⟨[], List.pairwise_singleton _ _, rfl, h.inTurn_of_work_eq_zero hwork⟩
  · obtain ⟨t, ht, hopen', hsent, _⟩ := h.exists_write hopen hwork now
    obtain ⟨times, hsorted, hsent', hpast⟩ := (h.apply hopen').exists_drained hopen' t
    refine ⟨t :: times, ?_, hsent'.trans hsent, hsent ▸ hpast⟩
    refine List.pairwise_cons.mpr ⟨?_, hsorted⟩
    intro t' ht'
    rcases List.mem_cons.mp ht' with rfl | ht'
    · exact ht
    · exact Nat.le_trans ht (List.rel_of_pairwise_cons hsorted ht')
termination_by o.connection.work

/-! ### The result -/

/-- What `send` answers on an open connection. -/
theorem Sound.send_eq (h : Sound sink o) (hopen : o.connection.closed = false) (frame : String) :
    (o.connection.send frame).1 =
      if o.sent.length = o.taken.length + Connection.capacity then .error .full else .ok () := by
  have hsent := congrArg List.length h.conserved
  have hbounded := h.bounded
  rw [List.length_append] at hsent
  unfold Connection.send
  rw [hopen]
  by_cases hfull : Connection.capacity ≤ o.connection.queue.length
  · rw [if_pos (by omega : o.sent.length = _)]
    simp [hfull]
  · rw [if_neg (by omega : ¬o.sent.length = _)]
    simp [hfull]

/-- **The transport gets the frames in turn.** Whatever is sent on a connection, however its writer takes its
steps in between and whatever becomes of each write, as long as the connection is open:

* the writes that have begun are over one by one, but for the last, which may be in progress; they are of the
  first frames that the writer has taken, and those the first that `send` took, in that order, each once;
* how a write ends is up to its own fate, and the other end gets every frame whose own write did not fail or
  run out of time;
* `send` answers that the queue is full exactly when 256 of the frames that it took wait there, and never
  that the connection is closed;
* whatever became of the writes so far, the writer by itself goes on to write every frame that `send` took. -/
theorem frames_in_turn (label room user : String) (sink : Sink) (es : List Event)
    (isOpen : ((start label room user sink).run es).connection.closed = false) :
    let o := (start label room user sink).run es
    (∃ past : List String, ∃ pending : Option String,
      o.marks = completed sink past ++ pending.toList.map .began ∧ past ++ pending.toList <+: o.taken ∧
        texts o.connection.sights = delivered sink past) ∧
    o.taken <+: o.sent ∧
    (∀ frame, ((o.connection.send frame).1 = .error .full ↔ o.sent.length = o.taken.length + 256) ∧
      (o.connection.send frame).1 ≠ .error .closed) ∧
    ∀ now, ∃ times : List Instant, (now :: times).Pairwise (· ≤ ·) ∧
      let o' := o.run (times.map (.write · false))
      o'.sent = o.sent ∧ o'.marks = completed sink o.sent ∧ texts o'.connection.sights = delivered sink o.sent := by
  intro o
  have h : Sound sink o := (sound_start label room user sink).run es isOpen
  refine ⟨?_, ⟨_, h.conserved.symm⟩, ?_, ?_⟩
  · obtain ⟨past, i⟩ := h.inTurn
    refine ⟨past, o.connection.writing?, i.marks, ⟨o.connection.held?.toList, ?_⟩, i.delivered⟩
    rw [i.taken, i.begun]
  · intro frame
    rw [h.send_eq isOpen frame, show Connection.capacity = 256 from rfl]
    split_ifs with hfull <;> simp [hfull]
  · intro now
    obtain ⟨times, hsorted, hsent, hidle, i⟩ := h.exists_drained isOpen now
    exact ⟨times, hsorted, hsent, by rw [i.marks, hidle]; simp, i.delivered⟩

/-- A transport that takes the first frame, refuses the second and never finishes the third. -/
def brokenTransport : Sink
  | 1 => .refused
  | 2 => .stalled
  | _ => .taken

/-- Four frames, and the writer as far as it gets at once. -/
def fourFrames : List Event := ["a", "b", "c", "d"].map .send ++ List.replicate 6 (.write 0 false)

theorem frames_in_turn_fourFrames :
    ((start "" "r" "u" brokenTransport).run fourFrames).connection.closed = false ∧
      ((start "" "r" "u" brokenTransport).run fourFrames).marks =
        [.began "a", .ended .written, .began "b", .ended .failed, .began "c"] ∧
      ∀ now, ∃ times : List Instant, (now :: times).Pairwise (· ≤ ·) ∧
        texts (((start "" "r" "u" brokenTransport).run fourFrames).run (times.map (.write · false))).connection.sights =
          ["a", "d"] := by
  have isOpen : ((start "" "r" "u" brokenTransport).run fourFrames).connection.closed = false := by decide +kernel
  refine ⟨isOpen, by decide +kernel, fun now => ?_⟩
  obtain ⟨times, hsorted, -, -, htexts⟩ := (frames_in_turn "" "r" "u" brokenTransport fourFrames isOpen).2.2.2 now
  have hall : delivered brokenTransport ((start "" "r" "u" brokenTransport).run fourFrames).sent = ["a", "d"] := by
    decide +kernel
  exact ⟨times, hsorted, htexts.trans hall⟩

end Outbox

/-! ### The connections of a service -/

/-- What a connection has become between two states of a service is what a course of events has made of it. -/
def Comes (s t : Service) (c : ConnId) : Prop :=
  ∃ es : List Event, ∀ o : Outbox, o.connection = s.connection c → (o.run es).connection = t.connection c

variable {s t u : Service} {c : ConnId}

theorem Comes.trans (h : Comes s t c) (h' : Comes t u c) : Comes s u c := by
  obtain ⟨es, hes⟩ := h
  obtain ⟨fs, hfs⟩ := h'
  exact ⟨es ++ fs, fun o ho => by rw [Outbox.run_append]; exact hfs _ (hes o ho)⟩

theorem comes_of_connections (h : t.connections = s.connections) : Comes s t c :=
  ⟨[], fun o ho => by rw [show t.connection c = s.connection c by simp only [Service.connection, h], ← ho]; rfl⟩

theorem comes_update {d : ConnId} {f : Connection → Connection} (e : Event)
    (he : ∀ o : Outbox, o.connection = s.connection d → (o.apply e).connection = f (s.connection d)) :
    Comes s (s.updateConnection d f) c := by
  by_cases hd : d < s.connections.size
  · by_cases hc : c = d
    · subst hc
      refine ⟨[e], fun o ho => ?_⟩
      rw [s.connection_updateConnection f hd]
      exact he o ho
    · refine ⟨[], fun o ho => ?_⟩
      rw [s.connection_updateConnection_of_ne f hc]
      exact ho
  · rw [s.updateConnection_of_size_le f (Nat.le_of_not_lt hd)]
    exact ⟨[], fun _ ho => ho⟩

theorem Fanout.Step.comes {f f' : Fanout} (h : Fanout.Step s f f' t) : Comes s t c := by
  cases h with
  | hand frame d rest sent ht => exact comes_update (.send frame) fun o ho => by rw [← ho]; rfl
  | blank | list | skip | finish => exact comes_of_connections rfl

theorem Activity.Step.comes {a a' : Activity} (h : Activity.Step s a a' t) : Comes s t c := by
  cases h with
  | deliver f f' t r hf => exact hf.comes
  | _ => exact comes_of_connections rfl

theorem Subscriber.Step.comes {x x' : Subscriber} (h : Subscriber.Step s x x' t) : Comes s t c := by
  cases h with
  | relay n f f' hx t hf => exact hf.comes
  | _ => exact comes_of_connections rfl

theorem comes_close (s : Service) (d : ConnId) : Comes s (s.close d) c :=
  comes_update .close fun o ho => by simp only [Outbox.apply, ho]

theorem Session.Step.comes {x x' : Session} (h : Session.Step s x x' t) : Comes s t c := by
  cases h with
  | work a a' here next hx t ha => exact ha.comes
  | close hx => exact comes_close s x.conn
  | handle hx frame rest hi a h =>
    rcases route_service s x.hub x.room x.user (Text.Utf8.encode frame) with ht | ht <;> rw [ht] <;>
      exact comes_of_connections rfl
  | _ => exact comes_of_connections rfl

end Parley.Hub

namespace Parley

open Hub

variable {s t : Service} {c : ConnId}

theorem Task.Step.comes {k k' : Task} (h : Task.Step s k k' t) : Comes s t c := by
  cases h with
  | writer d conn now stopFirst hstep =>
    exact comes_update (.write now stopFirst) fun o ho => by simp only [Outbox.apply, Outbox.stepped, ho, hstep]
  | closer d => exact comes_close s d
  | activity a a' t ha => exact ha.comes
  | session x x' t choice hx => exact (Session.step_spec hx).comes
  | subscriber x x' t hx => exact hx.comes

/-- **All that a running service does to its connections** is to send frames on them, to let their writers take
steps and to close them. -/
theorem Deployment.comes_turns (y : Deployment) (turns : List Turn) :
    Comes y.service (turns.foldl Deployment.turn y).service c := by
  induction turns generalizing y with
  | nil => exact comes_of_connections rfl
  | cons turn turns ih =>
    refine Comes.trans ?_ (ih (y.turn turn))
    cases turn with
    | pass | outage | disconnect => exact comes_of_connections rfl
    | step n choice =>
      simp only [Deployment.turn]
      cases hy : y.step n choice with
      | none => exact comes_of_connections rfl
      | some y' =>
        obtain ⟨-, k, t, hk, rfl⟩ := Deployment.step_spec hy
        exact hk.comes
    | listen hub =>
      simp only [Deployment.turn, Deployment.start]
      split
      · split <;> exact comes_of_connections rfl
      · exact comes_of_connections rfl

end Parley
