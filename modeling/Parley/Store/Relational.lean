import Parley.Store.Tables

/-!
The store over a relational database. Each call is a procedure: it asks for one statement at a time
and goes on with what the statement gives, so that procedures of several connections can be
interleaved statement by statement.

Main definitions: `Procedure`, the calls from `isParticipant` to `searchUsers`, and `Backend.run`,
which runs a procedure alone; `Backend.call` takes a connection for it first.
-/

namespace Parley.Store

/-- A course of statements that ends in a value or a failure. -/
inductive Procedure (α : Type) where
  | done (result : Except Error α)
  | ask (s : Statement) (next : Except String Answer → Procedure α)

namespace Procedure

variable {α : Type}

def failed (text : String) : Error := ⟨.database, text⟩

/-- Asks for a statement and goes on if it succeeds. -/
def query (s : Statement) (next : Answer → Procedure α) : Procedure α :=
  .ask s fun
    | .ok a => next a
    | .error text => .done (.error (failed text))

/-- Ends a transaction without its rows, and the call with a failure. -/
def abandon (e : Error) : Procedure α :=
  .ask .rollback fun
    | .ok _ => .done (.error e)
    | .error text => .done (.error (failed text))

/-- Asks for a statement inside a transaction, which is abandoned if it fails. -/
def within (s : Statement) (next : Answer → Procedure α) : Procedure α :=
  .ask s fun
    | .ok a => next a
    | .error text => abandon (failed text)

def ids : Answer → List String
  | .ids xs => xs
  | _ => []

end Procedure

open Procedure

/-! ### Calls -/

def isParticipant (room user : String) : Procedure Bool :=
  query (.isParticipant room user) fun a => .done (.ok (a == .yes true))

/-- Adds a message, then looks up its author. -/
def saveMessage (row : MessageRow) : Procedure Message :=
  query (.insertMessage row) fun _ =>
    query (.profile row.author) fun a =>
      match a with
      | .profile p => .done (.ok ⟨row, p.getD {}⟩)
      | _ => .done (.ok ⟨row, {}⟩)

/-- The latest messages of a room, the oldest first. -/
def recentMessages (room : String) (limit : Int) : Procedure (List Message) :=
  query (.recent room limit) fun a =>
    match a with
    | .messages ms => .done (.ok ms.reverse)
    | _ => .done (.ok [])

/-- The conversations of a person, the newest first. -/
def conversationsFor (user : String) (limit : Int) : Procedure (List Conversation) :=
  query (.list user limit) fun a =>
    match a with
    | .conversations cs => .done (.ok cs)
    | _ => .done (.ok [])

/-- Adds the rows of a conversation and its members, and commits. -/
def insertAll (c : Conversation) (members : List String) : Procedure Conversation :=
  within (.insertConversation c) fun _ =>
    within (.insertParticipants (members.map fun m => (c.id, m))) fun _ =>
      query .commit fun _ => .done (.ok c)

/-- Goes on unless the two have a direct conversation. The rooms of the one are looked up, then which
of them the other is in, and then whether one of these is direct. -/
def unlessDirect (creator other : String) (next : Procedure Conversation) : Procedure Conversation :=
  within (.memberships creator) fun a =>
    within (.membershipsAmong other (ids a)) fun b =>
      if (ids b).isEmpty then next
      else within (.directAmong (ids b)) fun c => if (ids c).isEmpty then next else abandon .directExists

/-- Adds a conversation of the creator and the others, all in one transaction. -/
def createConversation (d : Draft) (id : String) (createdAt : Timestamp) : Procedure Conversation :=
  let others := otherParticipants d.creator d.participants
  let c : Conversation := { id, title := d.title, isGroup := d.isGroup, createdBy := d.creator, createdAt }
  let insert := insertAll c (d.creator :: others)
  if d.isGroup then query .beginWork fun _ => insert
  else match others with
    | [other] => query .beginWork fun _ => unlessDirect d.creator other insert
    | _ => .done (.error .notDirect)

/-- The first of the people with a name that contains the query, case aside. -/
def searchUsers (text : String) (limit : Int) : Procedure (List UserSummary) :=
  query (.search (Like.containing text) limit) fun a =>
    match a with
    | .users us => .done (.ok us)
    | _ => .done (.ok [])

/-! ### One connection -/

structure Backend where
  tables : Tables := {}
  /-- The rows of the transaction that is open. -/
  own : Option Tables := none
  /-- The labels of statements that are to fail, each once, and with what text. -/
  faults : List (String × String) := []
  /-- The statements so far, the latest first. -/
  log : List Statement := []
deriving Repr, Inhabited

namespace Backend

/-- Executes a statement, or lets it fail where a fault is set for its label. -/
def execute (b : Backend) (s : Statement) : Except String Answer × Backend :=
  let b := { b with log := s :: b.log }
  match b.faults.find? (·.1 == s.label) with
  | some fault => (.error fault.2, { b with faults := b.faults.erase fault })
  | none =>
    let (r, tables, own) := b.tables.execute b.own s
    (r, { b with tables, own })

/-- Runs a procedure to its end. A transaction that is still open then is lost. -/
def run {α : Type} (b : Backend) : Procedure α → Except Error α × Backend
  | .done r => (r, { b with own := none })
  | .ask s next => let (r, b) := b.execute s; b.run (next r)

/-- Runs a procedure on a connection out of a pool. It is taken before the first statement, if one is
asked for at all, and has no transaction open; there may be none to take, for which a reason is given. -/
def call {α : Type} (b : Backend) (connection : Except String Unit) : Procedure α → Except Error α × Backend
  | .done r => (r, b)
  | p =>
    match connection with
    | .ok _ => ({ b with own := none } : Backend).run p
    | .error text => (.error ⟨.unavailable, text⟩, b)

end Backend

end Parley.Store
