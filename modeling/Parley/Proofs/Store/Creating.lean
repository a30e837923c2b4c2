import Parley.Proofs.Store.Saving

/-!
# Creating a conversation where statements fail

A call that creates a conversation takes a connection and asks for its statements inside one transaction, of which
any may fail, the first and the last included. `Call.Keeps` is what is so of the rows at every stage of such a call:
they are as they were until it commits, and then there is one more conversation with its members. `keeps_run`
carries it through any schedule of statements and failures, and `call_createConversation` says what the call comes
to.

That no failure is passed over is said of the procedure: it is `Strict`, so that a run either meets none and goes as
if none waited, or fails (`run_of_strict`). `creation_allOrNothing` puts the two together.
-/

namespace Parley.Store

open Procedure

/-! ### The stages -/

namespace Call

variable {c : Call} {t t' : Tables} {faults : List String} {stage : Stage} {r : Except Error Conversation}

/-- What is so of a call at a stage that has the rows `t₀` to itself, which are `t` by now. -/
def Keeps (faults : List String) (c : Call) (t₀ t : Tables) : Stage → Prop
  | .ended (.ok conv) => conv = c.row ∧ c.Clear t₀ ∧ t = c.commit t₀
  | .ended (.error e) => c.Grounds faults t₀ e ∧ t = t₀
  | stage => c.Learnt faults t₀ stage ∧ t = t₀

theorem Keeps.failing {text : String} (hfault : text ∈ faults) (h : c.Keeps faults t t' stage) :
    c.Keeps faults t t' (c.failing text stage) := by
  cases stage with
  | ended r => exact h
  | _ => exact ⟨.inr ⟨text, hfault, rfl⟩, h.2⟩

/-- A statement that does not. -/
theorem Keeps.next (h : c.Keeps faults t t' stage) : c.Keeps faults t (c.tables t' stage) (c.next t' stage) := by
  cases stage with
  | ended r => exact h
  | waiting =>
    obtain ⟨-, rfl⟩ := h
    cases hgroup : c.draft.isGroup with
    | true =>
      rw [show c.next t' .waiting = .adding by simp [Call.next, hgroup]]
      exact ⟨by simp [Learnt, Clear, hgroup], rfl⟩
    | false =>
      rw [show c.next t' .waiting = .listing by simp [Call.next, hgroup]]
      exact ⟨hgroup, rfl⟩
  | listing =>
    obtain ⟨hdirect, rfl⟩ := h
    exact ⟨learnt_sharing hdirect, rfl⟩
  | sharing rooms =>
    obtain ⟨hlearnt, rfl⟩ := h
    have hnext := learnt_next_sharing hlearnt
    simp only [Call.next] at hnext ⊢
    split_ifs at hnext ⊢ <;> exact ⟨hnext, rfl⟩
  | checking rooms =>
    obtain ⟨hlearnt, rfl⟩ := h
    have hnext := learnt_next_checking hlearnt
    simp only [Call.next] at hnext ⊢
    split_ifs at hnext ⊢ <;> exact ⟨hnext, rfl⟩
  | adding | enrolling => exact h
  | committing =>
    obtain ⟨hclear, rfl⟩ := h
    exact ⟨rfl, hclear, rfl⟩
  | abandoning e own => exact h

/-- **A call that has the server for itself**, after any statements and failures. -/
theorem keeps_run (hvalid : c.Valid) {schedule : List Tick} (h : c.Keeps faults t t' stage)
    (hfaults : ∀ tick ∈ schedule, ∀ text, tick.fault = some text → text ∈ faults) :
    ∃ stage' t'', (Server.mk t' [c.caller stage]).run schedule = ⟨t'', [c.caller stage']⟩ ∧
    c.Keeps faults t t'' stage' := by
  -- nobody else is on the server, so a turn that is not the call's own changes nothing
  induction schedule generalizing t' stage with
  | nil => exact ⟨stage, t', rfl, h⟩
  | cons tick schedule ih =>
    obtain ⟨htick, hrest⟩ := List.forall_mem_cons.mp hfaults
    obtain ⟨turn, fault⟩ := tick
    cases turn with
    | succ k => exact ih h hrest
    | zero =>
      cases fault with
      | none =>
        obtain ⟨stage', t'', hrun, hkeeps⟩ := ih h.next hrest
        refine ⟨stage', t'', ?_, hkeeps⟩
        rw [← hrun, Server.run, List.foldl_cons]
        simp [Server.step, step_caller hvalid, Server.run]
      | some text =>
        obtain ⟨stage', t'', hrun, hkeeps⟩ := ih (h.failing (htick text rfl)) hrest
        refine ⟨stage', t'', ?_, hkeeps⟩
        rw [← hrun, Server.run, List.foldl_cons]
        simp [Server.step, step_caller_fault hvalid, Server.run]

/-- **A call that makes sense**, on a connection without a transaction. -/
theorem keeps_ended (hvalid : c.Valid) (b : Backend) (hown : b.own = none) :
    c.Keeps b.texts b.tables (b.run (c.rest .waiting)).2.tables (.ended (b.run (c.rest .waiting)).1) := by
  obtain ⟨schedule, hfaults, hrun⟩ := Server.run_alone (c.caller .waiting) b (c.rest .waiting)
  have hstart : (c.caller .waiting).goOn (c.rest .waiting) b.own = c.caller .waiting := by
    rw [hown]
    cases hrest : c.rest .waiting <;> simp [Caller.goOn, caller, hrest, own]
  have hfirst : c.Keeps b.texts b.tables b.tables .waiting := ⟨trivial, rfl⟩
  obtain ⟨stage, t, hrun', hkeeps⟩ := keeps_run hvalid hfirst hfaults
  rw [hstart, hrun'] at hrun
  obtain ⟨rfl, hcallers⟩ := Server.mk.inj hrun
  have hrest : c.rest stage = .done (b.run (c.rest .waiting)).1 :=
    congrArg Caller.rest (List.head_eq_of_cons_eq hcallers)
  obtain rfl := ended_of_rest (fun _ => hvalid) hrest
  exact hkeeps

end Call

/-! ### Failures -/

namespace Procedure

variable {α : Type}

/-- A statement that fails fails the whole: what follows it ends with the failure of a statement. -/
def Strict : Procedure α → Prop
  | .done _ => True
  | .ask _ next =>
    (∀ (text : String) (b : Backend), ∃ text', (b.run (next (.error text))).1 = .error (failed text')) ∧
    ∀ r, Strict (next r)

theorem strict_query (s : Statement) {next : Answer → Procedure α} (h : ∀ a, (next a).Strict) :
    (query s next).Strict := by
  refine ⟨fun text b => ⟨text, rfl⟩, fun r => ?_⟩
  cases r with
  | ok a => exact h a
  | error text => trivial

theorem strict_abandon (e : Error) : (abandon e : Procedure α).Strict := by
  refine ⟨fun text b => ⟨text, rfl⟩, fun r => ?_⟩
  cases r <;> trivial

theorem strict_within (s : Statement) {next : Answer → Procedure α} (h : ∀ a, (next a).Strict) :
    (within s next).Strict := by
  refine ⟨fun text b => ?_, fun r => ?_⟩
  · show ∃ text', (b.run (abandon (failed text))).1 = .error (failed text')
    rw [abandon, Backend.run_ask]
    cases (b.execute .rollback).1 with
    | ok a => exact ⟨text, rfl⟩
    | error text' => exact ⟨text', rfl⟩
  · cases r with
    | ok a => exact h a
    | error text => exact strict_abandon _

theorem strict_createConversation (d : Draft) (id : String) (createdAt : Timestamp) :
    (createConversation d id createdAt).Strict := by
  have hinsert (conv : Conversation) (members : List String) : (insertAll conv members).Strict :=
    strict_within _ fun _ => strict_within _ fun _ => strict_query _ fun _ => trivial
  have hdirect (creator other : String) (next : Procedure Conversation) (h : next.Strict) :
      (unlessDirect creator other next).Strict := by
    refine strict_within _ fun a => strict_within _ fun b => ?_
    split
    · exact h
    · refine strict_within _ fun found => ?_
      split
      · exact h
      · exact strict_abandon _
  unfold createConversation
  dsimp only
  split
  · exact strict_query _ fun _ => hinsert _ _
  · split
    · exact strict_query _ fun _ => hdirect _ _ _ (hinsert _ _)
    · trivial

end Procedure

namespace Backend

variable {α : Type}

theorem faults_execute_le (b : Backend) (s : Statement) : (b.execute s).2.faults.length ≤ b.faults.length := by
  unfold execute
  dsimp only
  split
  · exact List.length_erase_le
  · exact Nat.le_refl _

theorem faults_run_le (b : Backend) (p : Procedure α) : (b.run p).2.faults.length ≤ b.faults.length := by
  induction p generalizing b with
  | done r => exact Nat.le_refl _
  | ask s next ih => exact Nat.le_trans (ih _ _) (b.faults_execute_le s)

/-- Either no failure comes, and the procedure goes as if none waited; or one comes, and fails it. -/
theorem run_of_strict {p : Procedure α} (h : p.Strict) (b : Backend) :
    ((b.run p).2.faults = b.faults ∧ (b.run p).1 = (({ b with faults := [] } : Backend).run p).1) ∨
      ((b.run p).2.faults ≠ b.faults ∧ ∃ text, (b.run p).1 = .error (failed text)) := by
  induction p generalizing b with
  | done r => exact .inl ⟨rfl, rfl⟩
  | ask s next ih =>
    rw [run_ask, run_ask]
    cases hfault : b.fault? s with
    | some fault =>
      refine .inr ⟨fun heq => ?_, ?_⟩
      · -- a failure that has come does not wait any more, and none is added to those that do
        have hmem : fault ∈ b.faults := List.mem_of_find?_eq_some hfault
        have hle := (b.execute s).2.faults_run_le (next (b.execute s).1)
        have herase : (b.execute s).2.faults = b.faults.erase fault := by
          rw [fault?] at hfault
          simp [execute, hfault]
        rw [heq, herase, List.length_erase_of_mem hmem] at hle
        have hpos := List.length_pos_of_mem hmem
        omega
      · rw [(execute_of_fault hfault).1]
        exact h.1 _ _
    | none =>
      obtain ⟨-, -, -, hfaults⟩ := execute_of_no_fault hfault
      have hsame : ({ b with faults := [] } : Backend).execute s =
          ((b.execute s).1, { (b.execute s).2 with faults := [] }) := by
        rw [fault?] at hfault
        simp [execute, hfault]
      rw [hsame, ← hfaults]
      exact ih _ (h.2 _) _

theorem call_of_strict {p : Procedure α} (h : p.Strict) (b : Backend) :
    ((b.call (.ok ()) p).2.faults = b.faults ∧
      (b.call (.ok ()) p).1 = (({ b with faults := [] } : Backend).call (.ok ()) p).1) ∨
    ((b.call (.ok ()) p).2.faults ≠ b.faults ∧ ∃ text, (b.call (.ok ()) p).1 = .error (failed text)) := by
  cases p with
  | done r => exact .inl ⟨rfl, rfl⟩
  | ask s next => exact run_of_strict h { b with own := none }

theorem call_error_snd (b : Backend) (text : String) (p : Procedure α) : (b.call (.error text) p).2 = b := by
  cases p <;> rfl

/-! ### The call -/

variable {b : Backend} {connection : Except String Unit} {c : Call} {r : Except Error Conversation} {after : Tables}

/-- How a call that creates a conversation ends, and the rows it leaves, given the connection it is to take. -/
inductive Creating (b : Backend) (c : Call) : Except String Unit → Except Error Conversation → Tables → Prop
  | refused (h : ¬ c.Valid) (connection : Except String Unit) : Creating b c connection (.error .notDirect) b.tables
  | unavailable (h : c.Valid) (text : String) : Creating b c (.error text) (.error ⟨.unavailable, text⟩) b.tables
  | failing (h : c.Valid) {text : String} (hfault : text ∈ b.texts) :
      Creating b c (.ok ()) (.error (failed text)) b.tables
  | conflicting (h : c.Valid) (hdirect : c.draft.isGroup = false)
      (hdirects : b.tables.directs c.draft.creator c.draft.other ≠ []) :
      Creating b c (.ok ()) (.error .directExists) b.tables
  | created (h : c.Valid) (hclear : c.Clear b.tables) : Creating b c (.ok ()) (.ok c.row) (c.commit b.tables)

theorem call_createConversation (b : Backend) (connection : Except String Unit) (c : Call) :
    Creating b c connection (b.call connection (createConversation c.draft c.id c.createdAt)).1
      (b.call connection (createConversation c.draft c.id c.createdAt)).2.tables := by
  by_cases hvalid : c.Valid
  · cases hrest : createConversation c.draft c.id c.createdAt with
    | done r =>
      have hended : Stage.waiting = .ended r := Call.ended_of_rest (fun _ => hvalid) hrest
      cases hended
    | ask s next =>
      rcases connection with text | ⟨⟩
      · exact .unavailable hvalid text
      · -- the connection may have served others before, and comes without a transaction
        have hkeeps := Call.keeps_ended hvalid { b with own := none } rfl
        rw [show c.rest .waiting = .ask s next from hrest] at hkeeps
        show Creating b c (.ok ()) (({ b with own := none } : Backend).run (.ask s next)).1
          (({ b with own := none } : Backend).run (.ask s next)).2.tables
        generalize (({ b with own := none } : Backend).run (.ask s next)).1 = r,
          (({ b with own := none } : Backend).run (.ask s next)).2.tables = after at hkeeps ⊢
        cases r with
        | ok conv =>
          obtain ⟨rfl, hclear, rfl⟩ := hkeeps
          exact .created hvalid hclear
        | error e =>
          obtain ⟨⟨rfl, hdirect, hdirects⟩ | ⟨text, htext, rfl⟩, rfl⟩ := hkeeps
          · exact .conflicting hvalid hdirect hdirects
          · exact .failing hvalid htext
  · have hstart : createConversation c.draft c.id c.createdAt = .done (.error .notDirect) :=
      congrArg Caller.rest (Call.start_of_not_valid hvalid)
    rw [hstart]
    exact .refused hvalid connection

theorem Creating.of_failed {text : String} (h : Creating b c connection r after) (hr : r = .error (failed text)) :
    connection = .ok () ∧ text ∈ b.texts := by
  cases h with
  | failing _ htext =>
    obtain rfl : _ = text := by simpa [failed] using hr
    exact ⟨rfl, htext⟩
  | _ => simp [failed, Error.notDirect, Error.directExists] at hr

/-- A call fails with the failure of a statement exactly if it meets one of those that wait. -/
theorem createConversation_failed_iff (b : Backend) (connection : Except String Unit) (c : Call) :
    (∃ text, (b.call connection (createConversation c.draft c.id c.createdAt)).1 = .error (failed text)) ↔
      (b.call connection (createConversation c.draft c.id c.createdAt)).2.faults ≠ b.faults := by
  rcases connection with text | ⟨⟩
  · rw [call_error_snd]
    refine iff_of_false ?_ (not_not.mpr rfl)
    rintro ⟨text', hr⟩
    cases ((call_createConversation b (.error text) c).of_failed hr).1
  · obtain ⟨hfaults, hsame⟩ | hfailed := call_of_strict (strict_createConversation c.draft c.id c.createdAt) b
    · refine iff_of_false ?_ (not_not.mpr hfaults)
      rintro ⟨text, hr⟩
      rw [hsame] at hr
      exact absurd ((call_createConversation { b with faults := [] } (.ok ()) c).of_failed hr).2 List.not_mem_nil
    · exact iff_of_true hfailed.2 hfailed.1

/-! ### All or nothing -/

/-- Two people take part in a conversation that is not a group. -/
def Met (t : Tables) (a b : String) : Prop :=
  ∃ conv ∈ t.conversations, conv.isGroup = false ∧ (conv.id, a) ∈ t.participants ∧ (conv.id, b) ∈ t.participants

theorem met_iff {t : Tables} {a b : String} : Met t a b ↔ t.directs a b ≠ [] := by
  simp only [Met, ne_eq, List.eq_nil_iff_forall_not_mem, Tables.mem_directs, not_forall, not_not]

/-- There is one more conversation, the one that is asked for, and one more row for its creator and for each of the
other people that are named. Nothing else has changed. -/
structure Adds (c : Call) (before : Tables) (conv : Conversation) (after : Tables) : Prop where
  conversation : conv = ⟨c.id, c.draft.title, c.draft.isGroup, c.draft.creator, c.createdAt⟩
  rows : ∃ rows : List (String × String), rows.Nodup ∧
    (∀ room user, (room, user) ∈ rows ↔ room = conv.id ∧
      (user = c.draft.creator ∨ user ∈ c.draft.participants ∧ user ≠ "" ∧ user ≠ c.draft.creator)) ∧
    after = { before with conversations := before.conversations ++ [conv], participants := before.participants ++ rows }

theorem adds_commit (c : Call) (t : Tables) : Adds c t c.row (c.commit t) := by
  refine ⟨rfl, c.enrolments, ?_, fun room user => ?_, ?_⟩
  · exact c.draft.nodup_people.map fun _ _ h => (Prod.mk.inj h).2
  · rw [Call.mem_enrolments, Draft.members, Finset.mem_insert, Draft.mem_others]
    rfl
  · simp [Call.commit, Tables.append]

/-- A call that creates a conversation comes to all that it asks for or to nothing. -/
structure Whole (b : Backend) (connection : Except String Unit) (c : Call)
    (outcome : Except Error Conversation × Backend) :
    Prop where
  /-- A call that fails leaves every table as it was. -/
  nothing : ∀ e, outcome.1 = .error e → outcome.2.tables = b.tables
  /-- It makes no sense, its people have a direct conversation, a statement has failed or there is no connection. -/
  failures : ∀ e, outcome.1 = .error e → e = .notDirect ∨ e = .directExists ∨ (∃ text ∈ b.texts, e = failed text) ∨
    ∃ text, connection = .error text ∧ e = ⟨.unavailable, text⟩
  all : ∀ conv, outcome.1 = .ok conv → Adds c b.tables conv outcome.2.tables
  notDirect_iff : outcome.1 = .error .notDirect ↔ c.draft.isGroup = false ∧ c.draft.others.card ≠ 1
  /-- No failure of a statement is passed over. -/
  failed_iff : (∃ text, outcome.1 = .error (failed text)) ↔ outcome.2.faults ≠ b.faults
  /-- Whatever fails, no call finds a direct conversation that is not there, -/
  found : outcome.1 = .error .directExists → c.draft.isGroup = false ∧ ∃ other, c.draft.others = {other} ∧
    Met b.tables c.draft.creator other
  /-- and none adds a second one. -/
  single : ∀ conv other, outcome.1 = .ok conv → c.draft.isGroup = false → c.draft.others = {other} →
    ¬ Met b.tables c.draft.creator other
  /-- If nothing fails, one that is there is found, -/
  found_iff : connection = .ok () → outcome.2.faults = b.faults → c.draft.isGroup = false →
    ∀ other, c.draft.others = {other} → (outcome.1 = .error .directExists ↔ Met b.tables c.draft.creator other)
  /-- and there is a new conversation in every other case that makes sense. -/
  created_iff : connection = .ok () → outcome.2.faults = b.faults → ((∃ conv, outcome.1 = .ok conv) ↔
    c.draft.isGroup = true ∨ ∃ other, c.draft.others = {other} ∧ ¬ Met b.tables c.draft.creator other)

theorem not_valid_iff : ¬ c.Valid ↔ c.draft.isGroup = false ∧ c.draft.others.card ≠ 1 := by
  simp only [Call.Valid, not_or, Bool.not_eq_true, ne_eq]

theorem met_iff_of_others {t : Tables} {other : String} (h : c.draft.others = {other}) :
    Met t c.draft.creator other ↔ t.directs c.draft.creator c.draft.other ≠ [] := by
  have hcard : c.draft.others.card = 1 := by rw [h, Finset.card_singleton]
  obtain rfl := Finset.singleton_injective (h.symm.trans (Draft.others_of_card_one hcard))
  exact met_iff

theorem valid_and_clear_iff {t : Tables} : c.Valid ∧ c.Clear t ↔
    c.draft.isGroup = true ∨ ∃ other, c.draft.others = {other} ∧ ¬ Met t c.draft.creator other := by
  cases hgroup : c.draft.isGroup with
  | true => simp [Call.Valid, Call.Clear, hgroup]
  | false =>
    constructor
    · rintro ⟨hvalid, hclear⟩
      have hothers := Draft.others_of_card_one (hvalid.resolve_left (by simp [hgroup]))
      exact .inr ⟨_, hothers, fun hmet => met_iff.mp hmet (hclear hgroup)⟩
    · rintro (h | ⟨other, hothers, hmet⟩)
      · cases h
      · refine ⟨.inr (by rw [hothers, Finset.card_singleton]), fun _ => ?_⟩
        by_contra hdirects
        exact hmet ((met_iff_of_others hothers).mpr hdirects)

namespace Creating

variable (h : Creating b c connection r after)
include h

theorem notDirect_iff : r = .error .notDirect ↔ ¬ c.Valid := by
  cases h with
  | refused h => simp [h]
  | unavailable h | failing h | conflicting h =>
    simp [h, failed, Error.notDirect, Error.directExists]
  | created h => simp [h]

theorem of_directExists (hr : r = .error .directExists) : c.Valid ∧ c.draft.isGroup = false ∧
    b.tables.directs c.draft.creator c.draft.other ≠ [] := by
  cases h with
  | conflicting h hdirect hdirects => exact ⟨h, hdirect, hdirects⟩
  | _ => simp [failed, Error.notDirect, Error.directExists] at hr

theorem of_ok {conv : Conversation} (hr : r = .ok conv) :
    (c.Valid ∧ c.Clear b.tables) ∧ conv = c.row ∧ after = c.commit b.tables := by
  cases h with
  | created h hclear => exact ⟨⟨h, hclear⟩, (Except.ok.inj hr).symm, rfl⟩
  | _ => cases hr

/-- How a call fails, and that it leaves the rows as they were. -/
theorem of_error {e : Error} (hr : r = .error e) : after = b.tables ∧ (e = .notDirect ∨ e = .directExists ∨
    (∃ text ∈ b.texts, e = failed text) ∨ ∃ text, connection = .error text ∧ e = ⟨.unavailable, text⟩) := by
  cases h with
  | refused => exact ⟨rfl, .inl (Except.error.inj hr).symm⟩
  | conflicting => exact ⟨rfl, .inr (.inl (Except.error.inj hr).symm)⟩
  | failing _ htext => exact ⟨rfl, .inr (.inr (.inl ⟨_, htext, (Except.error.inj hr).symm⟩))⟩
  | unavailable _ text => exact ⟨rfl, .inr (.inr (.inr ⟨text, rfl, (Except.error.inj hr).symm⟩))⟩
  | created => cases hr

section Smooth

variable (hconnection : connection = .ok ()) (hfailed : ∀ text, r ≠ .error (failed text))
include hconnection hfailed

theorem settled (hvalid : c.Valid) : r = .error .directExists ∨ r = .ok c.row := by
  cases h with
  | refused h => exact absurd hvalid h
  | unavailable => cases hconnection
  | failing h htext => exact absurd rfl (hfailed _)
  | conflicting => exact .inl rfl
  | created => exact .inr rfl

theorem exists_ok_iff : (∃ conv, r = .ok conv) ↔ c.Valid ∧ c.Clear b.tables := by
  constructor
  · rintro ⟨conv, hr⟩
    exact (h.of_ok hr).1
  · rintro ⟨hvalid, hclear⟩
    refine ⟨c.row, (h.settled hconnection hfailed hvalid).resolve_left fun hr => ?_⟩
    obtain ⟨-, hdirect, hdirects⟩ := h.of_directExists hr
    exact hdirects (hclear hdirect)

theorem directExists_iff (hdirect : c.draft.isGroup = false) (hvalid : c.Valid) :
    r = .error .directExists ↔ b.tables.directs c.draft.creator c.draft.other ≠ [] := by
  constructor
  · exact fun hr => (h.of_directExists hr).2.2
  · intro hdirects
    refine (h.settled hconnection hfailed hvalid).resolve_right fun hr => ?_
    exact hdirects ((h.of_ok hr).1.2 hdirect)

end Smooth

end Creating

/-- **Creating a conversation is all or nothing**, whatever the rows, the connection and the statements that fail. -/
theorem creation_allOrNothing (b : Backend) (connection : Except String Unit) (c : Call) :
    Whole b connection c (b.call connection (createConversation c.draft c.id c.createdAt)) := by
  have h := call_createConversation b connection c
  have hfailed := createConversation_failed_iff b connection c
  generalize b.call connection (createConversation c.draft c.id c.createdAt) = outcome at h hfailed ⊢
  have hsmooth (hfaults : outcome.2.faults = b.faults) (text : String) : outcome.1 ≠ .error (failed text) :=
    fun hr => hfailed.mp ⟨text, hr⟩ hfaults
  constructor
  case nothing => exact fun e he => (h.of_error he).1
  case failures => exact fun e he => (h.of_error he).2
  case all =>
    intro conv hr
    obtain ⟨-, rfl, hafter⟩ := h.of_ok hr
    rw [hafter]
    exact adds_commit c b.tables
  case notDirect_iff => exact h.notDirect_iff.trans not_valid_iff
  case failed_iff => exact hfailed
  case found =>
    intro hr
    obtain ⟨hvalid, hdirect, hdirects⟩ := h.of_directExists hr
    have hothers := Draft.others_of_card_one (hvalid.resolve_left (by simp [hdirect]))
    exact ⟨hdirect, _, hothers, met_iff.mpr hdirects⟩
  case single =>
    intro conv other hr hdirect hothers hmet
    exact (met_iff_of_others hothers).mp hmet ((h.of_ok hr).1.2 hdirect)
  case found_iff =>
    intro hconnection hfaults hdirect other hothers
    have hvalid : c.Valid := .inr (by rw [hothers, Finset.card_singleton])
    rw [met_iff_of_others hothers]
    exact h.directExists_iff hconnection (hsmooth hfaults) hdirect hvalid
  case created_iff =>
    intro hconnection hfaults
    exact (h.exists_ok_iff hconnection (hsmooth hfaults)).trans valid_and_clear_iff

end Backend

end Parley.Store
