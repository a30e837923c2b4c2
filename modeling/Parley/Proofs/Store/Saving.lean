import Parley.Proofs.Store.Alone

/-!
# Saving a message where statements fail

A call that saves a message takes a connection, adds the row and then looks its author up, in two statements that
commit on their own. Any of the three may fail. `AllOrNothing` is what such a call should come to: a failed one
leaves the messages as they were, another adds one row and answers with it. `call_saveMessage` says what it does
come to, and `saveMessage_allOrNothing_iff` that this is all or nothing unless the row is in and the lookup fails:
then the call fails and the row stays.
-/

namespace Parley.Store

open Procedure

namespace Backend

variable {b : Backend} {s : Statement}

/-- The failure that waits for a statement. -/
def fault? (b : Backend) (s : Statement) : Option (String × String) := b.faults.find? (·.1 == s.label)

theorem execute_of_fault {fault : String × String} (h : b.fault? s = some fault) :
    (b.execute s).1 = .error fault.2 ∧ (b.execute s).2.tables = b.tables := by
  rw [fault?] at h
  simp [execute, h]

theorem execute_of_no_fault (h : b.fault? s = none) :
    (b.execute s).1 = (b.tables.execute b.own s).1 ∧ (b.execute s).2.tables = (b.tables.execute b.own s).2.1 ∧
      (b.execute s).2.own = (b.tables.execute b.own s).2.2 ∧ (b.execute s).2.faults = b.faults := by
  rw [fault?] at h
  simp [execute, h]

theorem run_ask {α : Type} (b : Backend) (s : Statement) (next : Except String Answer → Procedure α) :
    b.run (.ask s next) = (b.execute s).2.run (next (b.execute s).1) := rfl

theorem run_done_tables {α : Type} (b : Backend) (r : Except Error α) : (b.run (.done r)).2.tables = b.tables := rfl

/-! ### The two statements -/

/-- The row can be added: nothing lets its statement fail, and its conversation is there. -/
def Accepts (b : Backend) (row : MessageRow) : Prop :=
  b.fault? (.insertMessage row) = none ∧ b.tables.hasConversation row.room = true

instance (b : Backend) (row : MessageRow) : Decidable (b.Accepts row) := inferInstanceAs (Decidable (_ ∧ _))

/-- The row is added at once, outside any transaction, -/
theorem execute_insert {row : MessageRow} (hown : b.own = none) (h : b.Accepts row) :
    (b.execute (.insertMessage row)).1 = .ok .done ∧
      (b.execute (.insertMessage row)).2.tables = b.tables.insertMessage row ∧
      (b.execute (.insertMessage row)).2.own = none ∧ (b.execute (.insertMessage row)).2.faults = b.faults := by
  have hexec : b.tables.execute none (.insertMessage row) = (.ok .done, b.tables.insertMessage row, none) := by
    simp [Tables.execute, Tables.evaluate, h.2, Tables.append, Tables.insertMessage]
  have hstep := execute_of_no_fault h.1
  rwa [hown, hexec] at hstep

/-- or not at all. -/
theorem execute_insert_of_not_accepts {row : MessageRow} (hown : b.own = none) (h : ¬ b.Accepts row) :
    ∃ text, (b.execute (.insertMessage row)).1 = .error text ∧
    (b.execute (.insertMessage row)).2.tables = b.tables := by
  cases hfault : b.fault? (.insertMessage row) with
  | some fault => exact ⟨fault.2, execute_of_fault hfault⟩
  | none =>
    have hroom : b.tables.hasConversation row.room = false := by simpa [Accepts, hfault] using h
    have hexec : b.tables.execute none (.insertMessage row) =
        (.error (Tables.foreignKeyText "messages"), b.tables, none) := by
      simp [Tables.execute, Tables.evaluate, hroom, Tables.append]
    have hstep := execute_of_no_fault hfault
    rw [hown, hexec] at hstep
    exact ⟨_, hstep.1, hstep.2.1⟩

/-- What is known of a person is looked up in the rows as they are, -/
theorem execute_profile (hown : b.own = none) {user : String} (h : b.fault? (.profile user) = none) :
    (b.execute (.profile user)).1 = .ok (.profile (b.tables.profile? user)) ∧
      (b.execute (.profile user)).2.tables = b.tables := by
  have hexec : b.tables.execute none (.profile user) = (.ok (.profile (b.tables.profile? user)), b.tables, none) := by
    simp [Tables.execute, Tables.evaluate, Tables.append]
  have hstep := execute_of_no_fault h
  rw [hown, hexec] at hstep
  exact ⟨hstep.1, hstep.2.1⟩

/-! ### The call -/

/-- How a call to save a message ends, and the rows it leaves, given the connection it is to take. -/
inductive Saving (b : Backend) (row : MessageRow) : Except String Unit → Except Error Message → Tables → Prop
  | unavailable (text : String) : Saving b row (.error text) (.error ⟨.unavailable, text⟩) b.tables
  | refused (h : ¬ b.Accepts row) (text : String) : Saving b row (.ok ()) (.error (failed text)) b.tables
  | unanswered (h : b.Accepts row) (fault : String × String) (hlookup : b.fault? (.profile row.author) = some fault) :
      Saving b row (.ok ()) (.error (failed fault.2)) (b.tables.insertMessage row)
  | saved (h : b.Accepts row) (hlookup : b.fault? (.profile row.author) = none) :
      Saving b row (.ok ()) (.ok (b.tables.withAuthor row)) (b.tables.insertMessage row)

theorem call_saveMessage (b : Backend) (connection : Except String Unit) (row : MessageRow) :
    Saving b row connection (b.call connection (saveMessage row)).1 (b.call connection (saveMessage row)).2.tables := by
  rcases connection with text | ⟨⟩
  · exact .unavailable text
  · -- the connection that is taken has no transaction open
    let b₀ : Backend := { b with own := none }
    have hcall : b.call (.ok ()) (saveMessage row) = b₀.run (saveMessage row) := rfl
    rw [hcall, saveMessage, query, run_ask]
    by_cases haccepts : b₀.Accepts row
    · obtain ⟨hanswer, htables, hown, hfaults⟩ := execute_insert rfl haccepts
      rw [hanswer]
      dsimp only
      rw [query, run_ask]
      cases hlookup : b.fault? (.profile row.author) with
      | some fault =>
        have hfault : (b₀.execute (.insertMessage row)).2.fault? (.profile row.author) = some fault := by
          rw [fault?, hfaults]
          exact hlookup
        obtain ⟨hanswer', htables'⟩ := execute_of_fault hfault
        rw [hanswer', run_done_tables, htables', htables]
        exact .unanswered (b := b) haccepts fault hlookup
      | none =>
        have hfault : (b₀.execute (.insertMessage row)).2.fault? (.profile row.author) = none := by
          rw [fault?, hfaults]
          exact hlookup
        obtain ⟨hanswer', htables'⟩ := execute_profile hown hfault
        rw [hanswer', run_done_tables, htables', htables]
        exact .saved (b := b) haccepts hlookup
    · obtain ⟨text, hanswer, htables⟩ := execute_insert_of_not_accepts rfl haccepts
      rw [hanswer, run_done_tables, htables]
      exact .refused (b := b) haccepts text

/-! ### All or nothing -/

/-- What saving a message should come to: a call that fails leaves the messages as they were; otherwise there is one
more, and the answer is that one with what is known of its author. -/
def AllOrNothing (before : Tables) (row : MessageRow) : Except Error Message → Tables → Prop
  | .error _, after => after.messages = before.messages
  | .ok m, after => after.messages = before.messages ++ [row] ∧ m = before.withAuthor row

/-- **Saving a message is all or nothing** exactly where it is not the lookup of the author that fails: if the
connection is there, the row can be added and the lookup fails, then the call fails and the row stays. -/
theorem saveMessage_allOrNothing_iff (b : Backend) (connection : Except String Unit) (row : MessageRow) :
    AllOrNothing b.tables row (b.call connection (saveMessage row)).1 (b.call connection (saveMessage row)).2.tables ↔
      ¬ (connection = .ok () ∧ b.Accepts row ∧ (b.fault? (.profile row.author)).isSome) := by
  have h := call_saveMessage b connection row
  generalize (b.call connection (saveMessage row)).1 = r, (b.call connection (saveMessage row)).2.tables = after at h ⊢
  cases h with
  | unavailable text => simp [AllOrNothing]
  | refused h text => simp [AllOrNothing, h]
  | unanswered h fault hlookup => simp [AllOrNothing, h, hlookup, Tables.insertMessage]
  | saved h hlookup => simp [AllOrNothing, hlookup, Tables.insertMessage]

/-- A database with one conversation, in which the next lookup of a person is cancelled. -/
def cancelledLookup : Backend where
  tables := { conversations := [⟨"conv_1", none, true, "u1", { micros := 0 }⟩] }
  faults := [("profile", "canceling statement due to user request")]

/-- The message is not answered, and it is there. -/
theorem stored_though_failed :
    let row : MessageRow := ⟨"msg_1", "conv_1", "u1", "hi", { micros := 1 }⟩
    let (answer, after) := cancelledLookup.call (.ok ()) (saveMessage row)
    answer = .error ⟨.database, "canceling statement due to user request"⟩ ∧ cancelledLookup.tables.messages = [] ∧
      after.tables.messages = [row] ∧ ¬ AllOrNothing cancelledLookup.tables row answer after.tables := by
  refine ⟨rfl, rfl, rfl, ?_⟩
  intro h
  exact absurd (show [_] = [] from h) (List.cons_ne_nil _ _)

end Backend

end Parley.Store
