import Parley.Json.Value
import Parley.Time.Timestamp

/-!
What is stored: conversations, messages, and the public part of a person's profile, each with its
JSON form.
-/

namespace Parley

structure Conversation where
  id : String
  title : Option String
  isGroup : Bool
  createdBy : String
  createdAt : Timestamp
deriving DecidableEq, Repr, Inhabited

structure MessageRow where
  id : String
  room : String
  author : String
  body : String
  createdAt : Timestamp
deriving DecidableEq, Repr, Inhabited

/-- The name and the picture of a person, if known. -/
structure Profile where
  name : Option String := none
  avatar : Option String := none
deriving DecidableEq, Repr, Inhabited

/-- A message as it is shown, with the author's profile. -/
structure Message where
  row : MessageRow
  author : Profile
deriving DecidableEq, Repr, Inhabited

structure UserSummary where
  id : String
  profile : Profile
deriving DecidableEq, Repr, Inhabited

def Json.ofOption : Option String → Json
  | some s => .string s
  | none => .null

def Conversation.json (c : Conversation) : Json :=
  .object ([("id", .string c.id)] ++ Json.optionalMember "title" (c.title.map .string) ++
    [("is_group", .bool c.isGroup), ("created_by", .string c.createdBy), ("created_at", .string c.createdAt.text)])

def Message.members (m : Message) : List (String × Json) :=
  [("id", .string m.row.id), ("conversation_id", .string m.row.room), ("author_id", .string m.row.author),
    ("body", .string m.row.body), ("created_at", .string m.row.createdAt.text)] ++
    Json.optionalMember "author_name" (m.author.name.map .string) ++
    Json.optionalMember "author_avatar" (m.author.avatar.map .string)

def Message.json (m : Message) : Json := .object m.members

def UserSummary.json (u : UserSummary) : Json :=
  .object [("id", .string u.id), ("display_name", .ofOption u.profile.name), ("avatar_url", .ofOption u.profile.avatar)]

end Parley
