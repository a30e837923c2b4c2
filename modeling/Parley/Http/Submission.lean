import Parley.Http.Handling

/-!
Requests that write: a message to a room, and a new conversation. A message is published before the
answer is given, a conversation on its own; the answer is the same whatever comes of it.
-/

namespace Parley.Http.Submission

def maxMessage : Nat := 4000

/-- The text of a message without the blanks at its ends, if it may be sent. -/
def messageBody (body : Option String) : Except Response String :=
  let text := Text.trim (body.getD "")
  if text == "" then .error (Problem.invalidField "body" "Message body is required").response
  else if maxMessage < text.length then
    .error (Problem.invalidField "body"
      ("Message body must be " ++ toString maxMessage ++ " characters or fewer")).response
  else .ok text

def messageFields : List Json.Field :=
  [⟨"conversation_id", .optionalText, false⟩, ⟨"body", .optionalText, false⟩]

def sendMessage (s : Service) (hub : Nat) (r : Request) : Handling := do
  let user ← r.requester s.seconds s.config
  let fields ← r.readFields messageFields
  let text ← messageBody (Json.Record.Fields.text? fields "body")
  let room ← enter s user (Json.Record.Fields.text? fields "conversation_id")
  let (saved, store, clock) := s.store.saveMessage s.clock room user text
  let message ← fromStore saved
  return ({
    response := .ofJson 201 message.json
    before := some (.publish hub room .messages (.ok (RecordEvent.ofMessage message).print)) },
    { s with store, clock })

def conversationFields : List Json.Field :=
  [⟨"title", .optionalText, false⟩, ⟨"is_group", .flag, true⟩, ⟨"participants", .texts, true⟩]

/-- The people other than the one who asks, each once. -/
def distinctOthers (user : String) (participants : List String) : List String :=
  ((participants.map Text.trim).filter fun p => p != "" && p != user).eraseDups

/-- What is said to somebody who names several others without saying that it is a group. -/
def tooManyOthers : String :=
  "A direct conversation has exactly one other participant; set is_group for a group chat"

def createConversation (s : Service) (hub : Nat) (r : Request) : Handling := do
  let user ← r.requester s.seconds s.config
  let fields ← r.readFields conversationFields
  let isGroup := Json.Record.Fields.flag fields "is_group"
  let participants := Json.Record.Fields.texts fields "participants"
  if !isGroup && 1 < (distinctOthers user participants).length then
    throw (Problem.badRequest tooManyOthers).response
  let title := ((Json.Record.Fields.text? fields "title").map Text.trim).filter (· != "")
  let draft : Store.Draft := { title, isGroup, creator := user, participants := participants.map Text.trim }
  let (made, store, clock) := s.store.createConversation s.clock draft
  let conversation ← fromStore made
  let (time, s) := { s with store, clock }.readClock
  let event := (Envelope.conversationCreated conversation user time).text
  return ({
    response := .ofJson 201 conversation.json
    apart := some (.publish hub conversation.id .events (.ok event)) }, s)

end Parley.Http.Submission
