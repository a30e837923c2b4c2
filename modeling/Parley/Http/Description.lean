import Parley.Json.Value

/-!
The description of the routes that is given to the writers of clients: what each route takes and
answers, and the shapes of the records that travel. A pointer picks a part of it.

Main definitions: `document` and `Json.at?`.
-/

namespace Parley.Http.Description

/-! ### Shapes -/

inductive Shape where
  | text
  | optionalText
  | flag
  | integer
  | moment
  | record (name : String)
  | list (item : Shape)
  | optionalList (item : Shape)

/-- A value of one type, or `null` as well. -/
def typed (name : String) (optional : Bool) : String × Json :=
  ("type", if optional then .array [.string name, .string "null"] else .string name)

def Shape.json : Shape → Json
  | .text => .object [typed "string" false]
  | .optionalText => .object [typed "string" true]
  | .flag => .object [typed "boolean" false]
  | .integer => .object [typed "integer" false, ("format", .string "int64")]
  | .moment => .object [typed "string" false, ("format", .string "date-time")]
  | .record name => .object [("$ref", .string ("#/components/schemas/" ++ name))]
  | .list item => .object [typed "array" false, ("items", item.json)]
  | .optionalList item => .object [typed "array" true, ("items", item.json)]

structure FieldShape where
  name : String
  shape : Shape
  required : Bool := true

structure RecordShape where
  name : String
  summary : Option String := none
  fields : List FieldShape

def RecordShape.json (r : RecordShape) : Json :=
  let required := (r.fields.filter (·.required)).map fun f => Json.string f.name
  .object ([typed "object" false] ++ Json.optionalMember "description" (r.summary.map .string) ++
    (if required.isEmpty then [] else [("required", .array required)]) ++
    [("properties", .object (r.fields.map fun f => (f.name, f.shape.json)))])

def records : List RecordShape :=
  [{ name := "ApiErrorBody"
     summary := some "Error envelope: `\x7b\"error\": \x7b\"code\", \"message\", \"details\"?\x7d\x7d`."
     fields := [⟨"error", .record "ApiErrorDetail", true⟩] },
   { name := "ApiErrorDetail"
     fields := [⟨"code", .text, true⟩, ⟨"message", .text, true⟩,
       ⟨"details", .optionalList (.record "FieldError"), false⟩] },
   { name := "Conversation"
     fields := [⟨"id", .text, true⟩, ⟨"title", .optionalText, false⟩, ⟨"is_group", .flag, true⟩,
       ⟨"created_by", .text, true⟩, ⟨"created_at", .moment, true⟩] },
   { name := "CreateConversationRequest"
     fields := [⟨"title", .optionalText, false⟩, ⟨"is_group", .flag, false⟩, ⟨"participants", .list .text, false⟩] },
   { name := "FieldError", summary := some "One rejected request field."
     fields := [⟨"field", .text, true⟩, ⟨"message", .text, true⟩] },
   { name := "HealthResponse", fields := [⟨"status", .text, true⟩] },
   { name := "Message", summary := some "A message as returned to clients, with the author's profile attached."
     fields := [⟨"id", .text, true⟩, ⟨"conversation_id", .text, true⟩, ⟨"author_id", .text, true⟩,
       ⟨"body", .text, true⟩, ⟨"created_at", .moment, true⟩, ⟨"author_name", .optionalText, false⟩,
       ⟨"author_avatar", .optionalText, false⟩] },
   { name := "SendMessageRequest"
     fields := [⟨"conversation_id", .optionalText, false⟩, ⟨"body", .optionalText, false⟩] },
   { name := "UserSummary", summary := some "Public profile fields shown in the participant picker."
     fields := [⟨"id", .text, true⟩, ⟨"display_name", .optionalText, false⟩, ⟨"avatar_url", .optionalText, false⟩] },
   { name := "WsCheckResponse"
     fields := [⟨"ok", .flag, true⟩, ⟨"conversation_id", .text, true⟩, ⟨"user_id", .text, true⟩] }]

/-! ### Routes -/

structure QueryShape where
  name : String
  summary : String
  shape : Shape
  required : Bool

def QueryShape.json (q : QueryShape) : Json :=
  .object [("name", .string q.name), ("in", .string "query"), ("description", .string q.summary),
    ("required", .bool q.required), ("schema", q.shape.json)]

structure Reply where
  status : String
  summary : String
  shape : Shape

def content (s : Shape) : String × Json :=
  ("content", .object [("application/json", .object [("schema", s.json)])])

def refusal (status summary : String) : Reply := ⟨status, summary, .record "ApiErrorBody"⟩

structure Operation where
  path : String
  method : String
  tag : String
  name : String
  summary : Option String := none
  secured : Bool := true
  queries : List QueryShape := []
  body : Option Shape := none
  replies : List Reply

def Operation.json (o : Operation) : Json :=
  .object ([("tags", .array [.string o.tag])] ++ Json.optionalMember "summary" (o.summary.map .string) ++
    [("operationId", .string o.name)] ++
    (if o.queries.isEmpty then [] else [("parameters", .array (o.queries.map QueryShape.json))]) ++
    Json.optionalMember "requestBody" (o.body.map fun s => .object [content s, ("required", .bool true)]) ++
    [("responses", .object (o.replies.map fun r =>
      (r.status, .object [("description", .string r.summary), content r.shape])))] ++
    (if o.secured then [("security", .array [.object [("bearer", .array [])]])] else []))

/-- What the routes do, in the order of their paths. -/
def operations : List Operation :=
  [{ path := "/api/conversations", method := "get", tag := "Conversations", name := "list_conversations"
     replies := [⟨"200", "Conversations the user participates in", .list (.record "Conversation")⟩,
       refusal "401" "Unauthorized"] },
   { path := "/api/conversations", method := "post", tag := "Conversations", name := "create_conversation"
     body := some (.record "CreateConversationRequest")
     replies := [⟨"201", "Conversation created", .record "Conversation"⟩, refusal "400" "Invalid participants",
       refusal "401" "Unauthorized", refusal "409" "Direct conversation already exists"] },
   { path := "/api/messages", method := "get", tag := "Messages", name := "list_messages"
     queries := [⟨"conversation_id", "Conversation to read", .text, true⟩,
       ⟨"limit", "Number of messages (1-100, default 50)", .integer, false⟩]
     replies := [⟨"200", "Recent messages, oldest first", .list (.record "Message")⟩,
       refusal "400" "Missing conversation_id", refusal "401" "Unauthorized", refusal "403" "Not a participant"] },
   { path := "/api/messages", method := "post", tag := "Messages", name := "send_message"
     body := some (.record "SendMessageRequest")
     replies := [⟨"201", "Message saved and published", .record "Message"⟩, refusal "400" "Validation error",
       refusal "401" "Unauthorized", refusal "403" "Not a participant"] },
   { path := "/api/users", method := "get", tag := "Users", name := "search_users"
     queries := [⟨"q", "Part of a display name; blank returns no users", .text, false⟩]
     replies := [⟨"200", "Matching users, by display name", .list (.record "UserSummary")⟩,
       refusal "401" "Unauthorized"] },
   { path := "/api/ws_check", method := "get", tag := "Gateway", name := "ws_check"
     summary := some "Runs the same checks as the upgrade without upgrading."
     queries := [⟨"conversation_id", "Conversation to join", .text, true⟩]
     replies := [⟨"200", "User may join", .record "WsCheckResponse"⟩, refusal "400" "Missing conversation_id",
       refusal "401" "Unauthorized", refusal "403" "Not a participant"] },
   { path := "/health", method := "get", tag := "Health", name := "health", secured := false
     replies := [⟨"200", "Service is up", .record "HealthResponse"⟩] }]

def tags : List (String × String) :=
  [("Health", "Health check"), ("Gateway", "Real-time connection checks"), ("Messages", "Messaging"),
   ("Conversations", "Conversation management"), ("Users", "User directory")]

def paths : List (String × Json) :=
  (operations.map (·.path)).eraseDups.map fun path =>
    (path, .object ((operations.filter (·.path == path)).map fun o => (o.method, o.json)))

def document : Json :=
  .object [("openapi", .string "3.1.0"),
    ("info", .object [("title", .string "chat-api"), ("description", .string ""),
      ("license", .object [("name", .string "")]), ("version", .string "0.1.0")]),
    ("paths", .object paths),
    ("components", .object [("schemas", .object (records.map fun r => (r.name, r.json))),
      ("securitySchemes", .object [("bearer", .object [("type", .string "http"), ("scheme", .string "bearer")])])]),
    ("tags", .array (tags.map fun (name, text) => .object [("name", .string name), ("description", .string text)]))]

end Parley.Http.Description

namespace Parley.Json

/-! ### Pointers -/

/-- One step of a pointer, with its two signs put back: `~1` is a slash, `~0` a tilde. -/
def pointerStep : List Char → List Char
  | '~' :: '1' :: rest => '/' :: pointerStep rest
  | '~' :: '0' :: rest => '~' :: pointerStep rest
  | c :: rest => c :: pointerStep rest
  | [] => []

/-- The place in an array that a step names: digits without a leading zero. -/
def pointerIndex? (step : List Char) : Option Nat :=
  match step with
  | ['0'] => some 0
  | '0' :: _ => none
  | [] => none
  | cs => if cs.all Char.isDigit then some (cs.foldl (fun n c => n * 10 + (c.toNat - 48)) 0) else none

def child? (v : Json) (step : List Char) : Option Json :=
  match v with
  | .object ms => member? (String.ofList step) ms
  | .array items => (pointerIndex? step).bind fun i => items[i]?
  | _ => none

/-- The part of a value that a pointer picks: nothing but the empty pointer picks the whole. -/
def at? (v : Json) (pointer : String) : Option Json :=
  match pointer.toList with
  | [] => some v
  | '/' :: rest => ((rest.splitOnP (· == '/')).map pointerStep).foldlM child? v
  | _ => none

end Parley.Json
