import Parley.Json.Printer
import Parley.Store.Record

/-!
Events as they are sent to clients. An envelope has its type, room, person and time first and then
its own members in the order of their names; a record event is a stored record with a type before it.
-/

namespace Parley

inductive EventType where
  | message
  | typing
  | read
  | presence
  | conversationCreated
deriving DecidableEq, Repr

def EventType.name : EventType → String
  | .message => "message"
  | .typing => "typing"
  | .read => "read"
  | .presence => "presence"
  | .conversationCreated => "conversation_created"

def defaultStatus : String := "online"

/-- The status announced when the last connection of a person in a room goes away. -/
def offlineStatus : String := "offline"

structure Envelope where
  type : EventType
  room : String
  user : String
  time : Timestamp
  /-- Further members, sorted by name. -/
  fields : List (String × Json) := []

namespace Envelope

/-- The envelope with one more member, in place of one of the same name. -/
def withField (e : Envelope) (name : String) (v : Json) : Envelope :=
  { e with fields := Json.insertMember name v e.fields }

def typing (room user : String) (time : Timestamp) (stopped : Bool) : Envelope :=
  let e : Envelope := { type := .typing, room, user, time }
  if stopped then e.withField "stopped" (.bool true) else e

def read (room user : String) (time : Timestamp) (lastReadId : Option Json) : Envelope :=
  let e : Envelope := { type := .read, room, user, time }
  match lastReadId with
  | some id => e.withField "last_read_id" id
  | none => e

def presence (room user : String) (time : Timestamp) (status : String) : Envelope :=
  Envelope.withField { type := .presence, room, user, time } "status" (.string status)

/-- The event that tells of a new conversation. -/
def conversationCreated (c : Conversation) (user : String) (time : Timestamp) : Envelope :=
  Envelope.withField { type := .conversationCreated, room := c.id, user, time } "conversation" c.json.canonical

/-- The value of an envelope: the common members, then its own. -/
def json (e : Envelope) : Json :=
  .object ([("type", .string e.type.name), ("conversation_id", .string e.room), ("user_id", .string e.user),
    ("timestamp", .string e.time.text)] ++ e.fields)

def text (e : Envelope) : String := e.json.print

end Envelope

namespace RecordEvent

/-- Why a value is not a record: only an object is one, or nothing at all. -/
def refusal (kind : String) : String := "can only flatten structs and maps (got " ++ kind ++ ")"

/-- The kind of a value that is not a record, as it is told. -/
def kindOf? : Json → Option String
  | .null | .object _ => none
  | .bool _ => some "a boolean"
  | .number (.int _) => some "an integer"
  | .number (.real _) => some "a float"
  | .string _ => some "a string"
  | .array _ => some "a sequence"

/-- A record with the type of a message before its members. -/
def message (record : Json) : Except String Json :=
  match record with
  | .object ms => .ok (.object (("type", .string EventType.message.name) :: ms))
  | .null => .ok (.object [("type", .string EventType.message.name)])
  | v => .error (refusal ((kindOf? v).getD ""))

def ofMessage (m : Message) : Json := .object (("type", .string EventType.message.name) :: m.members)

end RecordEvent

end Parley
