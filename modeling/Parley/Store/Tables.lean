import Parley.Like
import Parley.Store.Memory

/-!
Tables of a relational database, and the statements that the store asks of it. A connection that has
begun a transaction keeps its new rows to itself until it commits; each statement sees the rows that
are committed and the connection's own.

Main definition: `Tables.execute`.
-/

namespace Parley

/-- Rows, in the order in which they came. -/
structure Tables where
  users : List (String × Profile) := []
  conversations : List Conversation := []
  participants : List (String × String) := []
  messages : List MessageRow := []
deriving DecidableEq, Repr, Inhabited

namespace Store

inductive Statement where
  | isParticipant (room user : String)
  | insertMessage (row : MessageRow)
  | profile (user : String)
  | recent (room : String) (limit : Int)
  | list (user : String) (limit : Int)
  | search (pattern : String) (limit : Int)
  | beginWork
  | commit
  | rollback
  | memberships (user : String)
  | membershipsAmong (user : String) (rooms : List String)
  | directAmong (rooms : List String)
  | insertConversation (row : Conversation)
  | insertParticipants (rows : List (String × String))
deriving DecidableEq, Repr

/-- The label of a statement in a log. -/
def Statement.label : Statement → String
  | .isParticipant .. => "is_participant"
  | .insertMessage .. => "insert_message"
  | .profile .. => "profile"
  | .recent .. => "recent"
  | .list .. => "list"
  | .search .. => "search"
  | .beginWork => "begin"
  | .commit => "commit"
  | .rollback => "rollback"
  | .memberships .. => "memberships"
  | .membershipsAmong .. => "memberships_among"
  | .directAmong .. => "direct_among"
  | .insertConversation .. => "insert_conversation"
  | .insertParticipants .. => "insert_participants"

inductive Answer where
  | done
  | yes (b : Bool)
  | ids (xs : List String)
  | profile (p : Option Profile)
  | messages (ms : List Message)
  | conversations (cs : List Conversation)
  | users (us : List UserSummary)
deriving DecidableEq, Repr

end Store

namespace Tables

open Store

def append (a b : Tables) : Tables :=
  { users := a.users ++ b.users
    conversations := a.conversations ++ b.conversations
    participants := a.participants ++ b.participants
    messages := a.messages ++ b.messages }

/-- Puts a person's row in, in place of an earlier one. -/
def setProfile (t : Tables) (user : String) (p : Profile) : Tables :=
  { t with users := t.users.filter (·.1 != user) ++ [(user, p)] }

/-! ### Looking up -/

def hasConversation (t : Tables) (id : String) : Bool := t.conversations.any (·.id == id)

def profile? (t : Tables) (user : String) : Option Profile := t.users.lookup user

/-- A message with its author's row, or with nothing known of the author. -/
def withAuthor (t : Tables) (row : MessageRow) : Message := ⟨row, (t.profile? row.author).getD {}⟩

/-- The newest first: by time, of which a row has the microseconds, then by identifier. -/
def newerMessage (a b : MessageRow) : Bool :=
  b.createdAt.micros < a.createdAt.micros ||
    (a.createdAt.micros == b.createdAt.micros && (b.id < a.id || a.id == b.id))

def newerConversation (a b : Conversation) : Bool := b.createdAt.micros ≤ a.createdAt.micros

/-- The latest messages of a room, the newest first. -/
def recent (t : Tables) (room : String) (limit : Int) : List Message :=
  (((t.messages.filter (·.room == room)).mergeSort newerMessage).take (rows limit)).map t.withAuthor

/-- The conversations in which a person takes part, the newest first, once for each row. -/
def list (t : Tables) (user : String) (limit : Int) : List Conversation :=
  let joined := t.conversations.flatMap fun c =>
    (t.participants.filter fun (room, member) => room == c.id && member == user).map fun _ => c
  (joined.mergeSort newerConversation).take (rows limit)

/-- The people whose name matches a pattern, case aside, by name and then by identifier. -/
def search (t : Tables) (pattern : String) (limit : Int) : List UserSummary :=
  let found := t.users.filterMap fun (id, p) =>
    match p.name with
    | some name => if Like.accepts Like.sameLetter pattern name then some (⟨id, p⟩ : UserSummary) else none
    | none => none
  (found.mergeSort MemoryStore.summaryLe).take (rows limit)

/-- The rooms in which a person takes part, in row order. -/
def memberships (t : Tables) (user : String) : List String := (t.participants.filter (·.2 == user)).map (·.1)

/-- One of these conversations that is not a group. -/
def directAmong (t : Tables) (rooms : List String) : List String :=
  (((t.conversations.filter fun c => !c.isGroup && rooms.contains c.id).map (·.id)).take 1)

/-- The failure of a row that refers to a conversation that is not there. -/
def foreignKeyText (table : String) : String :=
  "insert or update on table \"" ++ table ++ "\" violates foreign key constraint \"" ++ table ++
  "_conversation_id_fkey\""

/-! ### Statements -/

/-- What a statement gives over the rows it sees, and the rows it adds. -/
def evaluate (t : Tables) : Statement → Except String (Answer × Tables)
  | .isParticipant room user => .ok (.yes (t.participants.contains (room, user)), {})
  | .insertMessage row =>
    if t.hasConversation row.room then .ok (.done, { messages := [row] })
    else .error (foreignKeyText "messages")
  | .profile user => .ok (.profile (t.profile? user), {})
  | .recent room limit => .ok (.messages (t.recent room limit), {})
  | .list user limit => .ok (.conversations (t.list user limit), {})
  | .search pattern limit => .ok (.users (t.search pattern limit), {})
  | .beginWork | .commit | .rollback => .ok (.done, {})
  | .memberships user => .ok (.ids (t.memberships user), {})
  | .membershipsAmong user rooms => .ok (.ids ((t.memberships user).filter rooms.contains), {})
  | .directAmong rooms => .ok (.ids (t.directAmong rooms), {})
  | .insertConversation row => .ok (.done, { conversations := [row] })
  | .insertParticipants rows =>
    if rows.all fun (room, _) => t.hasConversation room then .ok (.done, { participants := rows })
    else .error (foreignKeyText "conversation_participants")

/-- Executes a statement for a connection that keeps `own` rows to itself, if it has begun a
transaction: what it gives, the committed rows, and the connection's own rows after it. -/
def execute (committed : Tables) (own : Option Tables) (s : Statement) :
    Except String Answer × Tables × Option Tables :=
  match s with
  | .beginWork => (.ok .done, committed, some {})
  | .commit => (.ok .done, committed.append (own.getD {}), none)
  | .rollback => (.ok .done, committed, none)
  | s =>
    match evaluate (committed.append (own.getD {})) s with
    | .error e => (.error e, committed, own)
    | .ok (a, added) =>
      match own with
      | some mine => (.ok a, committed, some (mine.append added))
      | none => (.ok a, committed.append added, none)

end Tables

end Parley
