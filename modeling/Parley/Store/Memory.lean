import Parley.Identifier
import Parley.Store.Error
import Parley.Store.Record
import Parley.Text.Lowercase
import Parley.Text.Suffixes

/-!
The store in memory. Conversations and messages are kept in the order in which they came, who takes
part in what as a set of pairs. Every write draws its identifier and its time from the clockwork
that is handed in.
-/

namespace Parley

/-- Where new identifiers and times come from: no two draws give the same. -/
structure Clockwork where
  supply : Supply := {}
  /-- The time that was read last. -/
  time : Timestamp := { micros := 0 }
deriving DecidableEq, Repr, Inhabited

namespace Clockwork

def draw (c : Clockwork) (kind : Kind) : String × Clockwork :=
  let (id, supply) := c.supply.draw kind
  (id, { c with supply })

/-- The time, strictly later than the one read before. -/
def read (c : Clockwork) : Timestamp × Clockwork :=
  let t : Timestamp := { micros := c.time.micros + 1 }
  (t, { c with time := t })

end Clockwork

namespace Store

/-- The participants other than the creator: not empty, each once, in order. -/
def otherParticipants (creator : String) (participants : List String) : List String :=
  (participants.foldl (fun acc p => if p == "" || p == creator || acc.contains p then acc else p :: acc) []).reverse

/-- What is asked of a new conversation. -/
structure Draft where
  title : Option String
  isGroup : Bool
  creator : String
  participants : List String
deriving DecidableEq, Repr, Inhabited

/-- A limit as a number of rows: none when it is negative. -/
def rows (limit : Int) : Nat := limit.toNat

end Store

structure MemoryStore where
  profiles : List (String × Profile) := []
  /-- The oldest first. -/
  conversations : List Conversation := []
  participants : List (String × String) := []
  /-- The oldest first. -/
  messages : List MessageRow := []
  available : Bool := true
deriving Repr, Inhabited

namespace MemoryStore

open Store

/-- The failure of every call while the store is not available. -/
def unavailable : Store.Error := ⟨.unavailable, "memory store disabled"⟩

/-- The answer of a call on an available store. -/
def whenAvailable {α : Type} (s : MemoryStore) (a : Except Store.Error α) : Except Store.Error α :=
  if s.available then a else .error unavailable

/-! ### Setting up -/

def addParticipant (s : MemoryStore) (room user : String) : MemoryStore :=
  if s.participants.contains (room, user) then s else { s with participants := s.participants ++ [(room, user)] }

def setProfile (s : MemoryStore) (user : String) (p : Profile) : MemoryStore :=
  { s with profiles := (user, p) :: s.profiles.filter (·.1 != user) }

/-! ### Looking up -/

def profile (s : MemoryStore) (user : String) : Profile := (s.profiles.lookup user).getD {}

def takesPart (s : MemoryStore) (room user : String) : Bool := s.participants.contains (room, user)

/-- A message with what is known of its author now. -/
def withAuthor (s : MemoryStore) (row : MessageRow) : Message := ⟨row, s.profile row.author⟩

def isParticipant (s : MemoryStore) (room user : String) : Except Store.Error Bool :=
  s.whenAvailable (.ok (s.takesPart room user))

def ofRoom (s : MemoryStore) (room : String) : List MessageRow := s.messages.filter (·.room == room)

/-- The latest messages of a room, the oldest first. -/
def recentMessages (s : MemoryStore) (room : String) (limit : Int) : Except Store.Error (List Message) :=
  let rows := s.ofRoom room
  s.whenAvailable (.ok ((rows.drop (rows.length - Store.rows limit)).map s.withAuthor))

/-- The conversations of a person, the newest first. -/
def conversationsFor (s : MemoryStore) (user : String) (limit : Int) : Except Store.Error (List Conversation) :=
  s.whenAvailable (.ok ((s.conversations.reverse.filter fun c => s.takesPart c.id user).take (Store.rows limit)))

/-- The order of a search: by name, then by identifier. -/
def summaryLe (a b : UserSummary) : Bool :=
  let x := a.profile.name.getD ""
  let y := b.profile.name.getD ""
  x < y || (x == y && (a.id < b.id || a.id == b.id))

/-- The people with a name that contains the query, case aside. -/
def matching (profiles : List (String × Profile)) (query : String) : List UserSummary :=
  let needle := (Text.lowercase query).toList
  profiles.filterMap fun (id, p) =>
    match p.name with
    | some name => if Text.isInfix needle (Text.lowercase name).toList then some ⟨id, p⟩ else none
    | none => none

/-- The first of the people with a name that contains the query, case aside. -/
def searchUsers (s : MemoryStore) (query : String) (limit : Int) : Except Store.Error (List UserSummary) :=
  s.whenAvailable (.ok (((matching s.profiles query).mergeSort summaryLe).take (Store.rows limit)))

/-! ### Writing -/

def saveMessage (s : MemoryStore) (clock : Clockwork) (room author body : String) :
    Except Store.Error Message × MemoryStore × Clockwork :=
  if s.available then
    let (id, clock) := clock.draw .message
    let (createdAt, clock) := clock.read
    let row : MessageRow := { id, room, author, body, createdAt }
    (.ok (s.withAuthor row), { s with messages := s.messages ++ [row] }, clock)
  else (.error unavailable, s, clock)

/-- Whether two people have a direct conversation. -/
def haveDirect (s : MemoryStore) (a b : String) : Bool :=
  s.conversations.any fun c => !c.isGroup && s.takesPart c.id a && s.takesPart c.id b

def objection (s : MemoryStore) (d : Draft) : Option Store.Error :=
  if !s.available then some unavailable
  else if d.isGroup then none
  else match otherParticipants d.creator d.participants with
    | [other] => if s.haveDirect d.creator other then some .directExists else none
    | _ => some .notDirect

/-- Adds a conversation of the creator and the others. -/
def createConversation (s : MemoryStore) (clock : Clockwork) (d : Draft) :
    Except Store.Error Conversation × MemoryStore × Clockwork :=
  match s.objection d with
  | some e => (.error e, s, clock)
  | none =>
    let (id, clock) := clock.draw .conversation
    let (createdAt, clock) := clock.read
    let c : Conversation := { id, title := d.title, isGroup := d.isGroup, createdBy := d.creator, createdAt }
    let members := d.creator :: otherParticipants d.creator d.participants
    let s := members.foldl (fun s user => s.addParticipant id user) s
    (.ok c, { s with conversations := s.conversations ++ [c] }, clock)

end MemoryStore

end Parley
