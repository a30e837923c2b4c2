import Parley.Proofs.Store.Pairs

/-!
# Calls on a connection of their own

What each call of the relational store comes to where no statement fails and no other call is under
way: `Runs t own p r t'` says that the procedure `p`, over the committed rows `t` and with the rows
`own` of an open transaction, ends with `r` and leaves the rows `t'`. There is one lemma for each
call, from `runs_isParticipant` to `runs_createConversation`; the last one goes through the stages of
a call that creates a conversation.
-/

namespace Parley

def Tables.insertMessage (t : Tables) (row : MessageRow) : Tables := { t with messages := t.messages ++ [row] }

namespace Store

open Procedure Tables

/-- A procedure ends with `r` and leaves the rows `t'`, whatever the connection has done before. -/
def Runs {α : Type} (t : Tables) (own : Option Tables) (p : Procedure α) (r : Except Error α) (t' : Tables) : Prop :=
  ∀ b : Backend, b.faults = [] → b.tables = t → b.own = own →
    (b.run p).1 = r ∧ (b.run p).2.faults = [] ∧ (b.run p).2.tables = t' ∧ (b.run p).2.own = none

namespace Runs

variable {α : Type} {t t' t'' : Tables} {own own' : Option Tables} {r : Except Error α}

theorem done (t : Tables) (own : Option Tables) (r : Except Error α) : Runs t own (.done r) r t :=
  fun _ hfaults ht _ => ⟨rfl, hfaults, ht, rfl⟩

theorem ask {s : Statement} {next : Except String Answer → Procedure α} {answer : Except String Answer}
    (h : t.execute own s = (answer, t', own')) (hnext : Runs t' own' (next answer) r t'') :
    Runs t own (.ask s next) r t'' := by
  intro b hfaults ht hown
  have hexec : b.execute s = (answer, { b with tables := t', own := own', log := s :: b.log }) := by
    simp only [Backend.execute, hfaults, List.find?_nil, ht, hown, h]
  have hrun : b.run (.ask s next) = (b.execute s).2.run (next (b.execute s).1) := rfl
  rw [hrun, hexec]
  exact hnext _ hfaults rfl rfl

theorem read {s : Statement} {next : Answer → Procedure α} {answer : Answer}
    (h : t.execute none s = (.ok answer, t, none)) (hnext : Runs t none (next answer) r t') :
    Runs t none (query s next) r t' :=
  ask h hnext

end Runs

/-! ### Calls of one or two statements -/

section Calls

variable (t : Tables) (room user : String) (limit : Int)

theorem runs_isParticipant :
    Runs t none (isParticipant room user) (.ok (t.participants.contains (room, user))) t := by
  have hexec : t.execute none (.isParticipant room user) =
      (.ok (.yes (t.participants.contains (room, user))), t, none) := by
    simp [Tables.execute, Tables.evaluate]
  refine .read hexec ?_
  have hyes : (Answer.yes (t.participants.contains (room, user)) == .yes true) =
      t.participants.contains (room, user) := by
    cases t.participants.contains (room, user) <;> rfl
  rw [hyes]
  exact .done t none _

theorem runs_recentMessages : Runs t none (recentMessages room limit) (.ok (t.recent room limit).reverse) t := by
  have hexec : t.execute none (.recent room limit) = (.ok (.messages (t.recent room limit)), t, none) := by
    simp [Tables.execute, Tables.evaluate]
  exact .read hexec (.done t none _)

theorem runs_conversationsFor : Runs t none (conversationsFor user limit) (.ok (t.list user limit)) t := by
  have hexec : t.execute none (.list user limit) = (.ok (.conversations (t.list user limit)), t, none) := by
    simp [Tables.execute, Tables.evaluate]
  exact .read hexec (.done t none _)

variable {t} {row : MessageRow}

theorem runs_saveMessage (hroom : t.hasConversation row.room = true) :
    Runs t none (saveMessage row) (.ok (t.withAuthor row)) (t.insertMessage row) := by
  have hinsert : t.execute none (.insertMessage row) = (.ok .done, t.insertMessage row, none) := by
    simp [Tables.execute, Tables.evaluate, hroom, Tables.append, Tables.insertMessage]
  have hprofile : (t.insertMessage row).execute none (.profile row.author) =
      (.ok (.profile (t.profile? row.author)), t.insertMessage row, none) := by
    simp [Tables.execute, Tables.evaluate, Tables.profile?, Tables.insertMessage]
  exact .ask hinsert (.read hprofile (.done _ none _))

end Calls

/-! ### Calls that create a conversation -/

theorem Caller.runs_goOn {t t' : Tables} {own : Option Tables} {p : Procedure Conversation}
    {r : Except Error Conversation} (c : Caller) (h : Runs t (c.goOn p own).own (c.goOn p own).rest r t') :
    Runs t own p r t' := by
  cases p with
  | done r' => exact fun b hfaults ht _ => h { b with own := none } hfaults ht rfl
  | ask s next => exact h

theorem Caller.runs_of_step {c c' : Caller} {t t' t'' : Tables} {r : Except Error Conversation}
    (hstep : c.step t none = (t', c')) (h : Runs t' c'.own c'.rest r t'') : Runs t c.own c.rest r t'' := by
  obtain ⟨call, rest, own⟩ := c
  cases rest with
  | done r' =>
    obtain ⟨rfl, rfl⟩ := Prod.mk.inj hstep
    exact h
  | ask s next =>
    obtain ⟨rfl, rfl⟩ := Prod.mk.inj hstep
    exact .ask rfl (Caller.runs_goOn _ h)

namespace Call

variable {c : Call} {t t' : Tables} {r : Except Error Conversation}

theorem runs_next (hvalid : c.Valid) (stage : Stage)
    (h : Runs (c.tables t stage) (c.own (c.next t stage)) (c.rest (c.next t stage)) r t') :
    Runs t (c.own stage) (c.rest stage) r t' :=
  Caller.runs_of_step (step_caller hvalid stage) h

theorem runs_adding (hvalid : c.Valid) : Runs t (c.own .adding) (c.rest .adding) (.ok c.row) (c.commit t) :=
  runs_next hvalid .adding <| runs_next hvalid .enrolling <| runs_next hvalid .committing <| .done _ _ _

def objection (c : Call) (t : Tables) : Option Error :=
  if c.draft.isGroup then none
  else if c.draft.others.card ≠ 1 then some .notDirect
  else if t.directs c.draft.creator c.draft.other = [] then none
  else some .directExists

def answer (c : Call) (t : Tables) : Except Error Conversation :=
  match c.objection t with
  | some e => .error e
  | none => .ok c.row

def result (c : Call) (t : Tables) : Tables :=
  match c.objection t with
  | some _ => t
  | none => c.commit t

/-- The rooms that both are in hold a direct conversation exactly if the two have one. -/
theorem directs_eq_nil_iff {a b : String} :
    t.directs a b = [] ↔ (t.directAmong ((t.memberships b).filter (t.memberships a).contains)).isEmpty = true := by
  rw [directAmong_isEmpty, List.eq_nil_iff_forall_not_mem]
  refine forall_congr' fun conv => ?_
  simp only [mem_directs, List.mem_filter, List.contains_iff_mem, mem_memberships]
  tauto

/-- From the lookups on. -/
theorem runs_listing (hvalid : c.Valid) :
    Runs t (c.own .listing) (c.rest .listing)
      (if t.directs c.draft.creator c.draft.other = [] then .ok c.row else .error .directExists)
      (if t.directs c.draft.creator c.draft.other = [] then c.commit t else t) := by
  refine runs_next hvalid .listing (runs_next hvalid (.sharing _) ?_)
  by_cases hnone : ((t.memberships c.draft.other).filter (t.memberships c.draft.creator).contains).isEmpty
  · have hdirects : t.directs c.draft.creator c.draft.other = [] := by
      rw [directs_eq_nil_iff, List.isEmpty_iff.mp hnone]
      simp [directAmong]
    simp only [next, tables, hnone, hdirects, if_true]
    exact runs_adding hvalid
  · simp only [next, tables, hnone]
    refine runs_next hvalid (.checking _) ?_
    by_cases hdirects : t.directs c.draft.creator c.draft.other = []
    · simp only [next, tables, directs_eq_nil_iff.mp hdirects, hdirects, if_true]
      exact runs_adding hvalid
    · simp only [next, tables, mt directs_eq_nil_iff.mpr hdirects, hdirects, if_false]
      exact runs_next hvalid (.abandoning _ _) (.done _ _ _)

/-- **A call that creates a conversation**, on its own. -/
theorem runs_createConversation (c : Call) (t : Tables) :
    Runs t none (createConversation c.draft c.id c.createdAt) (c.answer t) (c.result t) := by
  by_cases hvalid : c.Valid
  · refine runs_next hvalid .waiting ?_
    cases hgroup : c.draft.isGroup with
    | true =>
      simp only [answer, result, objection, next, tables, hgroup, if_true]
      exact runs_adding hvalid
    | false =>
      have hcard : c.draft.others.card = 1 := hvalid.resolve_left (by simp [hgroup])
      simp only [next, tables, hgroup]
      have hlisting := runs_listing (t := t) hvalid
      by_cases hdirects : t.directs c.draft.creator c.draft.other = [] <;>
        simpa [answer, result, objection, hgroup, hcard, hdirects] using hlisting
  · have hstart : createConversation c.draft c.id c.createdAt = .done (.error .notDirect) :=
      congrArg Caller.rest (start_of_not_valid hvalid)
    simp only [Valid, not_or, Bool.not_eq_true] at hvalid
    have hobjection : c.objection t = some .notDirect := by simp [objection, hvalid]
    simp only [hstart, answer, result, hobjection]
    exact .done t none _

end Call

end Store

end Parley
