import Parley.Http.Handling

/-!
Requests that change nothing: whether the service is up, whether a person may enter a room, the
messages of a room, the conversations of a person, and people by their names.
-/

namespace Parley.Http.Lookup

def health : Response := .ofJson 200 (.object [("status", .string "ok")])

/-- Tells whether a person may open a session in a room. -/
def check (s : Service) (r : Request) : Handling := do
  let user ← r.requester s.seconds s.config
  let query ← r.known ["conversation_id"]
  let room ← enter s user (query.lookup "conversation_id")
  return reply s (.object [("ok", .bool true), ("conversation_id", .string room), ("user_id", .string user)])

def limitOf (query : Query.Pairs) : Except Response (Option Int) :=
  match query.lookup "limit" with
  | none => .ok none
  | some text =>
    match Query.int64? text with
    | some n => .ok (some n)
    | none => .error (Request.refused 400)

/-- A limit between one and a hundred, fifty where none is given. -/
def clampLimit (limit : Option Int) : Int := max 1 (min 100 (limit.getD 50))

def messages (s : Service) (r : Request) : Handling := do
  let user ← r.requester s.seconds s.config
  let query ← r.known ["conversation_id", "limit"]
  let limit ← limitOf query
  let room ← enter s user (query.lookup "conversation_id")
  let found ← fromStore (s.store.recentMessages room (clampLimit limit))
  return reply s (.array (found.map Message.json))

def conversations (s : Service) (r : Request) : Handling := do
  let user ← r.requester s.seconds s.config
  let found ← fromStore (s.store.conversationsFor user 50)
  return reply s (.array (found.map Conversation.json))

/-- How many people a search finds at most. -/
def maxFound : Int := 20

/-- The people with a name that contains what is asked for; nobody for nothing. -/
def users (s : Service) (r : Request) : Handling := do
  let _ ← r.requester s.seconds s.config
  let query ← r.known ["q"]
  let sought := Text.trim ((query.lookup "q").getD "")
  let found ← if sought == "" then pure [] else fromStore (s.store.searchUsers sought maxFound)
  return reply s (.array (found.map UserSummary.json))

end Parley.Http.Lookup
