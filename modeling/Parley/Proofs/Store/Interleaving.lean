import Parley.Proofs.Store.Members
import Parley.Store.Relational

/-!
# Calls that create conversations, side by side

Any number of calls run over the same tables, each on a connection of its own, one statement of one
call at a time. A statement sees the rows that are committed and those of its own transaction, and
it may fail.

* `Server` is the committed rows and the calls under way; `Server.run` follows a schedule that says
  which call is next, and whether its statement fails.
* `Server.run_alone` says that a call which has the server for itself goes as `Backend.run` runs it.
* `Stage` names how far a call has come. `Call.rest` and `Call.own` tell what it has yet to do and
  the rows it keeps to itself, so a call at a stage is `Call.caller`.
* `step_caller` is the spec: the next statement takes a call to the stage `Call.next`, and changes
  the committed rows only where it commits (`Call.tables`).
-/

namespace Parley.Store

open Procedure

/-! ### Calls and the server -/

/-- What is asked for, and the identifier and the time that were drawn for it. -/
structure Call where
  draft : Draft
  id : String
  createdAt : Timestamp
deriving DecidableEq, Repr, Inhabited

/-- A call under way: what it has yet to do, and the rows of its transaction. -/
structure Caller where
  call : Call
  rest : Procedure Conversation
  own : Option Tables

/-- The committed rows, and the calls under way. -/
structure Server where
  tables : Tables
  callers : List Caller

/-- Whose statement is next, and with what text it fails, if it does. -/
structure Tick where
  turn : Nat
  fault : Option String := none
deriving DecidableEq, Repr, Inhabited

namespace Caller

def start (call : Call) : Caller := ⟨call, createConversation call.draft call.id call.createdAt, none⟩

/-- The call goes on. With its end, a transaction that is still open is lost. -/
def goOn (c : Caller) (rest : Procedure Conversation) (own : Option Tables) : Caller :=
  match rest with
  | .done r => ⟨c.call, .done r, none⟩
  | .ask s next => ⟨c.call, .ask s next, own⟩

/-- The next statement of a call, over the committed rows. -/
def step (t : Tables) (fault : Option String) (c : Caller) : Tables × Caller :=
  match c.rest, fault with
  | .done _, _ => (t, c)
  | .ask _ next, some text => (t, c.goOn (next (.error text)) c.own)
  | .ask s next, none =>
    let (answer, t, own) := t.execute c.own s
    (t, c.goOn (next answer) own)

def working (c : Caller) : Bool := c.own.isSome

end Caller

namespace Server

def start (t : Tables) (calls : List Call) : Server := ⟨t, calls.map Caller.start⟩

def step (s : Server) (tick : Tick) : Server :=
  match s.callers[tick.turn]? with
  | none => s
  | some c => ⟨(c.step s.tables tick.fault).1, s.callers.set tick.turn (c.step s.tables tick.fault).2⟩

def run (s : Server) (schedule : List Tick) : Server := schedule.foldl step s

end Server

/-! ### A call alone -/

/-- The texts with which statements are to fail. -/
def Backend.texts (b : Backend) : List String := b.faults.map (·.2)

theorem Backend.texts_execute (b : Backend) (s : Statement) : (b.execute s).2.texts ⊆ b.texts := by
  unfold Backend.execute Backend.texts
  dsimp only
  split
  · exact List.map_subset _ List.erase_subset
  · exact List.Subset.refl _

theorem Caller.step_goOn_ask (c : Caller) (b : Backend) (s : Statement)
    (next : Except String Answer → Procedure Conversation) :
    ∃ fault, (∀ text, fault = some text → text ∈ b.texts) ∧ (c.goOn (.ask s next) b.own).step b.tables fault =
      ((b.execute s).2.tables, c.goOn (next (b.execute s).1) (b.execute s).2.own) := by
  cases hfault : b.faults.find? (·.1 == s.label) with
  | some fault =>
    refine ⟨some fault.2, ?_, ?_⟩
    · intro text htext
      obtain rfl := Option.some.inj htext
      exact List.mem_map_of_mem (List.mem_of_find?_eq_some hfault)
    · simp only [Backend.execute, hfault]
      rfl
  | none =>
    refine ⟨none, by simp, ?_⟩
    simp only [Backend.execute, hfault]
    rfl

/-- Alone on the server, a call goes the way the store runs it: with the same answer and the same rows. -/
theorem Server.run_alone (c : Caller) (b : Backend) (p : Procedure Conversation) :
    ∃ schedule : List Tick, (∀ tick ∈ schedule, ∀ text, tick.fault = some text → text ∈ b.texts) ∧
      (Server.mk b.tables [c.goOn p b.own]).run schedule =
        ⟨(b.run p).2.tables, [⟨c.call, .done (b.run p).1, none⟩]⟩ := by
  induction p generalizing b with
  | done r => exact ⟨[], List.forall_mem_nil _, rfl⟩
  | ask s next ih =>
    obtain ⟨fault, hfault, hstep⟩ := c.step_goOn_ask b s next
    obtain ⟨schedule, hfaults, hrun⟩ := ih (b.execute s).1 (b.execute s).2
    refine ⟨⟨0, fault⟩ :: schedule, List.forall_mem_cons.mpr ⟨hfault, fun tick htick text htext => ?_⟩, ?_⟩
    · exact b.texts_execute s (hfaults tick htick text htext)
    · have hfirst : (Server.mk b.tables [c.goOn (.ask s next) b.own]).step ⟨0, fault⟩ =
          ⟨(b.execute s).2.tables, [c.goOn (next (b.execute s).1) (b.execute s).2.own]⟩ := by
        simp [step, hstep]
      rw [run, List.foldl_cons, hfirst]
      exact hrun

/-! ### The stages of a call -/

/-- How far a call has come: the statement it is about to ask for, with what it has learnt. -/
inductive Stage where
  | waiting
  | listing
  | sharing (rooms : List String)
  | checking (rooms : List String)
  | adding
  | enrolling
  | committing
  | abandoning (e : Error) (own : Tables)
  | ended (r : Except Error Conversation)

namespace Call

def row (c : Call) : Conversation := c.draft.conversation c.id c.createdAt

def enrolments (c : Call) : List (String × String) := c.draft.people.map fun p => (c.id, p)

/-- A call that makes sense: for a group, or for one other person. -/
def Valid (c : Call) : Prop := c.draft.isGroup = true ∨ c.draft.others.card = 1

/-- What a call does once the rooms that both are in are known. -/
def checked (c : Call) (rooms : List String) : Procedure Conversation :=
  within (.directAmong rooms) fun a =>
    if (ids a).isEmpty then insertAll c.row c.draft.people else abandon .directExists

def rest (c : Call) : Stage → Procedure Conversation
  | .waiting => createConversation c.draft c.id c.createdAt
  | .listing => unlessDirect c.draft.creator c.draft.other (insertAll c.row c.draft.people)
  | .sharing rooms =>
    within (.membershipsAmong c.draft.other rooms) fun a =>
      if (ids a).isEmpty then insertAll c.row c.draft.people else c.checked (ids a)
  | .checking rooms => c.checked rooms
  | .adding => insertAll c.row c.draft.people
  | .enrolling => within (.insertParticipants c.enrolments) fun _ => query .commit fun _ => .done (.ok c.row)
  | .committing => query .commit fun _ => .done (.ok c.row)
  | .abandoning e _ => abandon e
  | .ended r => .done r

/-- The rows that a call at a stage keeps to itself. -/
def own (c : Call) : Stage → Option Tables
  | .waiting | .ended _ => none
  | .listing | .sharing _ | .checking _ | .adding => some {}
  | .enrolling => some { conversations := [c.row] }
  | .committing => some { conversations := [c.row], participants := c.enrolments }
  | .abandoning _ own => some own

def caller (c : Call) (stage : Stage) : Caller := ⟨c, c.rest stage, c.own stage⟩

def commit (c : Call) (t : Tables) : Tables :=
  t.append { conversations := [c.row], participants := c.enrolments }

/-- The stage a failing statement leads to. -/
def failing (c : Call) (text : String) : Stage → Stage
  | .waiting | .committing | .abandoning .. => .ended (.error (failed text))
  | .ended r => .ended r
  | stage => .abandoning (failed text) ((c.own stage).getD {})

/-- The stage a statement leads to that does not fail. -/
def next (c : Call) (t : Tables) : Stage → Stage
  | .waiting => if c.draft.isGroup then .adding else .listing
  | .listing => .sharing (t.memberships c.draft.creator)
  | .sharing rooms =>
    let both := (t.memberships c.draft.other).filter rooms.contains
    if both.isEmpty then .adding else .checking both
  | .checking rooms => if (t.directAmong rooms).isEmpty then .adding else .abandoning .directExists {}
  | .adding => .enrolling
  | .enrolling => .committing
  | .committing => .ended (.ok c.row)
  | .abandoning e _ => .ended (.error e)
  | .ended r => .ended r

/-- The committed rows after a statement that does not fail. -/
def tables (c : Call) (t : Tables) : Stage → Tables
  | .committing => c.commit t
  | _ => t

/-! ### What a statement does to a call -/

variable {c : Call} {t : Tables}

theorem rest_waiting_of_group (h : c.draft.isGroup = true) :
    c.rest .waiting = query .beginWork fun _ => c.rest .adding := by
  rw [rest, createConversation, if_pos h]
  rfl

theorem rest_waiting_of_direct (hdirect : c.draft.isGroup = false) (h : c.draft.others.card = 1) :
    c.rest .waiting = query .beginWork fun _ => c.rest .listing := by
  have hothers := Draft.otherParticipants_of_card_one h
  rw [rest, createConversation, if_neg (by simp [hdirect])]
  simp only [rest, Draft.people, hothers]
  rfl

theorem ended_of_rest {stage : Stage} {r : Except Error Conversation} (hvalid : stage = .waiting → c.Valid)
    (h : c.rest stage = .done r) : stage = .ended r := by
  cases stage with
  | ended r' => exact congrArg Stage.ended (Procedure.done.inj h)
  | waiting =>
    cases hgroup : c.draft.isGroup with
    | true =>
      rw [rest_waiting_of_group hgroup] at h
      cases h
    | false =>
      rw [rest_waiting_of_direct hgroup ((hvalid rfl).resolve_left (by simp [hgroup]))] at h
      cases h
  | listing | sharing | checking | adding | enrolling | committing | abandoning => cases h

/-- A call that makes no sense is over before its first statement. -/
theorem start_of_not_valid (h : ¬ c.Valid) : Caller.start c = c.caller (.ended (.error .notDirect)) := by
  simp only [Valid, not_or, Bool.not_eq_true] at h
  simp only [Caller.start, caller, createConversation, rest, own, h.1]
  split
  · contradiction
  · split
    · rename_i p hp
      rw [← length_otherParticipants, hp] at h
      exact absurd rfl h.2
    · rfl

@[simp]
theorem append_empty (t : Tables) : t.append {} = t := by
  simp [Tables.append]

theorem step_caller_fault (hvalid : c.Valid) (text : String) (stage : Stage) :
    (c.caller stage).step t (some text) = (t, c.caller (c.failing text stage)) := by
  cases stage with
  | waiting =>
    rcases hvalid with hgroup | hcard
    · simp only [caller, Caller.step, rest_waiting_of_group hgroup]
      rfl
    · cases hgroup : c.draft.isGroup with
      | true =>
        simp only [caller, Caller.step, rest_waiting_of_group hgroup]
        rfl
      | false =>
        simp only [caller, Caller.step, rest_waiting_of_direct hgroup hcard]
        rfl
  | listing | sharing | checking | adding | enrolling | committing | abandoning | ended => rfl

/-- A query of a transaction, answered over the committed rows alone. -/
theorem step_within (stage : Stage) {s : Statement} {k : Answer → Procedure Conversation} {answer : Answer}
    (hrest : c.rest stage = within s k) (hown : c.own stage = some {})
    (hexec : t.execute (some {}) s = (.ok answer, t, some {})) :
    (c.caller stage).step t none = (t, (c.caller stage).goOn (k answer) (some {})) := by
  simp only [caller, Caller.step, hrest, hown, within, hexec]

theorem step_caller (hvalid : c.Valid) (stage : Stage) :
    (c.caller stage).step t none = (c.tables t stage, c.caller (c.next t stage)) := by
  cases stage with
  | waiting =>
    cases hgroup : c.draft.isGroup with
    | true =>
      simp only [caller, Caller.step, rest_waiting_of_group hgroup, next, hgroup]
      rfl
    | false =>
      have hcard := hvalid.resolve_left (by simp [hgroup])
      simp only [caller, Caller.step, rest_waiting_of_direct hgroup hcard, next, hgroup]
      rfl
  | listing =>
    have hexec : t.execute (some {}) (.memberships c.draft.creator) =
        (.ok (.ids (t.memberships c.draft.creator)), t, some {}) := by
      simp [Tables.execute, Tables.evaluate]
    exact step_within .listing rfl rfl hexec
  | sharing rooms =>
    have hexec : t.execute (some {}) (.membershipsAmong c.draft.other rooms) =
        (.ok (.ids ((t.memberships c.draft.other).filter rooms.contains)), t, some {}) := by
      simp [Tables.execute, Tables.evaluate]
    rw [step_within (.sharing rooms) rfl rfl hexec]
    by_cases hempty : ((t.memberships c.draft.other).filter rooms.contains).isEmpty
    · simp only [next, ids, hempty, if_true]
      rfl
    · simp only [next, ids, hempty]
      rfl
  | checking rooms =>
    have hexec : t.execute (some {}) (.directAmong rooms) = (.ok (.ids (t.directAmong rooms)), t, some {}) := by
      simp [Tables.execute, Tables.evaluate]
    rw [step_within (.checking rooms) rfl rfl hexec]
    by_cases hempty : (t.directAmong rooms).isEmpty
    · simp only [next, ids, hempty, if_true]
      rfl
    · simp only [next, ids, hempty]
      rfl
  | adding => rfl
  | enrolling =>
    have hall : (c.enrolments.all fun p =>
        (t.append { conversations := [c.row] }).hasConversation p.1) = true := by
      simp [enrolments, Tables.append, Tables.hasConversation, row]
    simp only [caller, Caller.step, rest, own, within, Tables.execute, Tables.evaluate, Option.getD_some, hall]
    rfl
  | committing => rfl
  | abandoning e own => rfl
  | ended r => rfl

end Call

end Parley.Store
