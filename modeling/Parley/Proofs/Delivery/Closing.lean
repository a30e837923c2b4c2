import Parley.Proofs.Delivery.Outbox

/-!
# What happens to a connection that has been closed

Closing tells the writer to stop. At its next step the writer may see that, and then it discards what it holds and what
waits in the queue; but where it has something else to do it may do that instead, since both are ready and nothing says
which goes first (`step_closed`). So a closed connection takes no frame any more, and its writer stops sooner or later,
but in between it may begin to write frames that were queued before. `closed_falls_silent` tells how many at most: none
if the writer sees the stop first.
-/

namespace Parley.Hub

namespace Connection

variable {c c' : Connection} {now : Instant} {stopFirst : Bool}

/-- The frames that were queued and whose write has not begun, the next one first. -/
def unwritten (c : Connection) : List String := c.held?.toList ++ c.queue

theorem send_closed (h : c.closed = true) (frame : String) : c.send frame = (.error .closed, c) := by
  rw [send, if_pos h]

theorem close_of_closed (h : c.closed = true) : c.close = c := by
  rw [close, if_pos h]

/-- A step of the writer of a closed connection: it stops, or goes on without regard to the stop. -/
theorem step_closed (hclosed : c.closed = true) (h : c.step now stopFirst = some c') :
    c' = c.halt ∨ stopFirst = false ∧ Stride c c' := by
  unfold step at h
  rw [hclosed] at h
  split at h
  · cases h
  · rw [if_pos rfl] at h
    split at h
    · exact .inl (Option.some.inj h).symm
    · rename_i hfirst
      cases hproceed : c.proceed now with
      | none => rw [hproceed] at h; exact .inl (Option.some.inj h).symm
      | some d =>
        rw [hproceed] at h
        obtain rfl : d = c' := Option.some.inj h
        exact .inr ⟨by simpa using hfirst, stride_of_proceed hproceed⟩

theorem exists_step_closed (hclosed : c.closed = true) (hrunning : c.writer ≠ .stopped) (now : Instant)
    (stopFirst : Bool) :
    ∃ c', c.step now stopFirst = some c' := by
  unfold step
  rw [if_neg hrunning, if_pos hclosed]
  split <;> exact ⟨_, rfl⟩

/-- Frames leave the queue for the transport in the order in which they stand. -/
theorem Stride.conserves (h : Stride c c') :
    ∃ late, c'.begun = c.begun ++ late ∧ c.unwritten = late ++ c'.unwritten := by
  cases h with
  | take hw frame rest hq => exact ⟨[], by simp, by simp [unwritten, held?, hw, hq]⟩
  | begin frame hw => exact ⟨[frame], rfl, by simp [unwritten, held?, hw]⟩
  | beginAndEnd frame hw => exact ⟨[frame], rfl, by simp [unwritten, held?, hw]⟩
  | finish frame done deadline hw => exact ⟨[], by simp, by simp [unwritten, held?, hw]⟩

/-- The writer has stopped, and nothing waits for it. -/
def Discarded (c : Connection) : Prop := c.writer = .stopped ∧ c.queue = []

theorem discarded_halt (c : Connection) : c.halt.Discarded := ⟨rfl, rfl⟩

theorem unwritten_halt (c : Connection) : c.halt.unwritten = [] := rfl

theorem Discarded.step_eq_none (h : c.Discarded) (now : Instant) (stopFirst : Bool) : c.step now stopFirst = none := by
  rw [step, if_pos h.1]

theorem Stride.running (h : Stride c c') : c'.writer ≠ .stopped := by
  cases h <;> exact nofun

end Connection

namespace Outbox

open Connection

def writes (es : List Event) : List Event :=
  es.filter fun
    | .write .. => true
    | _ => false

variable {o o' : Outbox} {steps : Nat}

/-! ### A writer that has stopped -/

/-- A writer stops on a closed connection only, and nothing waits for it then. -/
def Tidy (o : Outbox) : Prop := o.connection.writer = .stopped → o.connection.closed = true ∧ o.connection.queue = []

theorem tidy_start (label room user : String) (sink : Sink) : Tidy (start label room user sink) := by
  intro h
  cases h

theorem Tidy.apply (h : Tidy o) (e : Event) : Tidy (o.apply e) := by
  cases e with
  | send frame =>
    cases hclosed : o.connection.closed with
    | true => rw [Outbox.apply, send_closed hclosed]; exact h
    | false =>
      have hwriter : (o.apply (.send frame)).connection.writer = o.connection.writer := by
        simp only [Outbox.apply, Connection.send]
        split_ifs <;> rfl
      intro hstopped
      exact absurd (h (hwriter.symm.trans hstopped)).1 (by simp [hclosed])
  | close =>
    intro hstopped
    refine ⟨closed_close _, ?_⟩
    have hkept : o.connection.close.writer = o.connection.writer ∧ o.connection.close.queue = o.connection.queue := by
      unfold Connection.close
      split <;> exact ⟨rfl, rfl⟩
    exact hkept.2.trans (h (hkept.1.symm.trans hstopped)).2
  | write now stopFirst =>
    rw [Outbox.apply]
    cases hstep : o.connection.step now stopFirst with
    | none => exact h
    | some c =>
      intro hstopped
      have hkept : c.closed = o.connection.closed := (step_kept hstep).closed
      cases hclosed : o.connection.closed with
      | false => exact absurd hstopped (stride_of_step hclosed hstep).running
      | true =>
        rcases step_closed hclosed hstep with rfl | ⟨-, hstride⟩
        · exact ⟨hclosed, rfl⟩
        · exact absurd hstopped hstride.running

theorem Tidy.run (h : Tidy o) (es : List Event) : Tidy (o.run es) := by
  induction es generalizing o with
  | nil => exact h
  | cons e es ih => exact ih (h.apply e)

/-! ### After the close -/

/-- What a closed connection may have become after so many steps of its writer: it has taken no frame, the transport has
been given the next of those that were left, and the writer has stopped or has less to do with each step. -/
structure Fades (o o' : Outbox) (steps : Nat) : Prop where
  closed : o'.connection.closed = true
  sent : o'.sent = o.sent
  late : ∃ late, o'.connection.begun = o.connection.begun ++ late ∧
    late ++ o'.connection.unwritten <+: o.connection.unwritten
  stops : o'.connection.Discarded ∨ o'.connection.work + steps ≤ o.connection.work

theorem Fades.refl (h : o.connection.closed = true) : Fades o o 0 :=
  ⟨h, rfl, ⟨[], by simp, List.prefix_refl _⟩, .inr (Nat.le_refl _)⟩

/-- One more step of the writer. -/
theorem Fades.write (h : Fades o o' steps) (htidy : Tidy o') (now : Instant) (stopFirst : Bool) :
    Fades o (o'.apply (.write now stopFirst)) (steps + 1) := by
  obtain ⟨hclosed, hsent, ⟨late, hbegun, hlate⟩, hstops⟩ := h
  rw [Outbox.apply]
  cases hstep : o'.connection.step now stopFirst with
  | none =>
    -- only a writer that has stopped takes no step
    have hstopped : o'.connection.writer = .stopped := by
      by_contra hrunning
      obtain ⟨c, hc⟩ := exists_step_closed hclosed hrunning now stopFirst
      rw [hstep] at hc
      cases hc
    exact ⟨hclosed, hsent, ⟨late, hbegun, hlate⟩, .inl ⟨hstopped, (htidy hstopped).2⟩⟩
  | some c =>
    have hclosed' : c.closed = true := (step_kept hstep).closed.trans hclosed
    rcases step_closed hclosed hstep with rfl | ⟨-, hstride⟩
    · refine ⟨hclosed', hsent, ⟨late, hbegun, ?_⟩, .inl (discarded_halt _)⟩
      show late ++ o'.connection.halt.unwritten <+: _
      rw [unwritten_halt, List.append_nil]
      exact (List.prefix_append _ _).trans hlate
    · obtain ⟨more, hmore, hunwritten⟩ := hstride.conserves
      refine ⟨hclosed', hsent, ⟨late ++ more, ?_, ?_⟩, .inr ?_⟩
      · show c.begun = _
        rw [hmore, hbegun, List.append_assoc]
      · rw [List.append_assoc]
        exact hunwritten ▸ hlate
      · have hwork := hstride.work_lt
        rcases hstops with hdiscarded | hle
        · rw [hdiscarded.step_eq_none] at hstep; cases hstep
        · show c.work + (steps + 1) ≤ o.connection.work
          omega

theorem Fades.apply (h : Fades o o' steps) (htidy : Tidy o') (e : Event) :
    Fades o (o'.apply e) (steps + (writes [e]).length) := by
  cases e with
  | send frame => rw [Outbox.apply, send_closed h.closed]; exact h
  | close => rw [Outbox.apply, close_of_closed h.closed]; exact h
  | write now stopFirst => exact h.write htidy now stopFirst

/-- **A closed connection fades**, whatever else happens to it. -/
theorem fades_run (hclosed : o.connection.closed = true) (htidy : Tidy o) (es : List Event) :
    Fades o (o.run es) (writes es).length := by
  induction es using List.reverseRecOn with
  | nil => exact .refl hclosed
  | append_singleton es e ih =>
    have h := ih.apply (htidy.run es) e
    rw [run_append, writes, List.filter_append, List.length_append]
    exact h

/-- A writer that sees the stop first begins no write on a closed connection, and the other end sees nothing. -/
theorem silent_run (hclosed : o.connection.closed = true) {es : List Event} (hfirst : ∀ now, .write now false ∉ es) :
    (o.run es).connection.begun = o.connection.begun ∧ (o.run es).connection.sights = o.connection.sights := by
  induction es generalizing o with
  | nil => exact ⟨rfl, rfl⟩
  | cons e es ih =>
    have hkept : (o.apply e).connection.begun = o.connection.begun ∧
        (o.apply e).connection.sights = o.connection.sights := by
      cases e with
      | send frame => rw [Outbox.apply, send_closed hclosed]; exact ⟨rfl, rfl⟩
      | close => rw [Outbox.apply, close_of_closed hclosed]; exact ⟨rfl, rfl⟩
      | write now stopFirst =>
        rw [Outbox.apply]
        cases hstep : o.connection.step now stopFirst with
        | none => exact ⟨rfl, rfl⟩
        | some c =>
          rcases step_closed hclosed hstep with rfl | ⟨rfl, -⟩
          · exact ⟨rfl, rfl⟩
          · exact absurd (List.mem_cons_self ..) (hfirst now)
    obtain ⟨hbegun, hsights⟩ := ih (closed_apply hclosed e) fun now hmem => hfirst now (List.mem_cons_of_mem _ hmem)
    exact ⟨hbegun.trans hkept.1, hsights.trans hkept.2⟩

/-- **What becomes of a closed connection.** Whatever happened to a connection before it is closed and whatever happens
to it afterwards, every send is refused as closed and nothing more is queued; the writer stops after at most as many
steps as it had work left and one, and what waits is discarded then. If at each of its steps the writer sees the stop
first, no write begins any more and the other end sees nothing. If it does not, the writes that begin are of the first
frames that were left when the connection was closed, in that order, each once. -/
theorem closed_falls_silent (label room user : String) (sink : Sink) (es fs : List Event) :
    let o := (start label room user sink).run (es ++ [.close])
    let o' := o.run fs
    ((∀ frame, o'.connection.send frame = (.error .closed, o'.connection)) ∧ o'.sent = o.sent) ∧
    (o.connection.work < (writes fs).length → o'.connection.Discarded) ∧
    ((∀ now, .write now false ∉ fs) →
      o'.connection.begun = o.connection.begun ∧ o'.connection.sights = o.connection.sights) ∧
    ∃ late, o'.connection.begun = o.connection.begun ++ late ∧ late <+: o.connection.unwritten := by
  intro o o'
  have hclosed : o.connection.closed = true := by
    rw [show o = ((start label room user sink).run es).apply .close from run_append ..]
    exact closed_close _
  have htidy : Tidy o := (tidy_start label room user sink).run _
  obtain ⟨hclosed', hsent, ⟨late, hbegun, hlate⟩, hstops⟩ := fades_run hclosed htidy fs
  refine ⟨⟨fun frame => send_closed hclosed' frame, hsent⟩, fun hwork => ?_, fun hfirst => silent_run hclosed hfirst,
    late, hbegun, (List.prefix_append _ _).trans hlate⟩
  rcases hstops with hdiscarded | hle
  · exact hdiscarded
  · omega

/-- A frame that waits when the connection is closed is written afterwards: the writer twice goes on without regard to
the stop, once to take the frame and once to write it. -/
theorem written_after_close :
    let o := (start "" "r" "u" fun _ => .taken).run [.send "F", .close]
    let o' := o.run [.write 0 false, .write 0 false]
    o.connection.closed = true ∧ o.connection.begun = [] ∧ o.connection.sights = [.closed] ∧
      o'.connection.begun = ["F"] ∧ o'.connection.sights = [.closed, .text "F"] := by
  decide +kernel

end Outbox

end Parley.Hub
