import Parley.Envelope
import Parley.Proofs.Json.Printed
import Parley.Proofs.Time

/-!
# What is sent can be read

An event for clients is sent as the text of one object in which no member is repeated. Whoever reads the text gets the
members that were put in, with their values, and no others; so the text tells all there is to tell about the event.
-/

namespace Parley

open Json (Every Whole64 levels parseWithin)
open Text.Utf8 (encode)

def Json.Distinct : Json → Prop
  | .object ms => (ms.map (·.1)).Nodup
  | _ => True

/-- What clients are told: by an envelope of one of four types, or by a stored message. -/
inductive Told where
  | typing (room user : String) (time : Timestamp) (stopped : Bool)
  | read (room user : String) (time : Timestamp) (lastReadId : Option Json)
  | presence (room user : String) (time : Timestamp) (status : String)
  | created (conversation : Conversation) (user : String) (time : Timestamp)
  | message (message : Message)

namespace Told

def text : Told → String
  | typing room user time stopped => (Envelope.typing room user time stopped).text
  | read room user time lastReadId => (Envelope.read room user time lastReadId).text
  | presence room user time status => (Envelope.presence room user time status).text
  | created c user time => (Envelope.conversationCreated c user time).text
  | message m => (RecordEvent.ofMessage m).print

def common (type room user : String) (time : Timestamp) : List (String × Json) :=
  [("type", .string type), ("conversation_id", .string room), ("user_id", .string user),
    ("timestamp", .string time.text)]

def members : Told → List (String × Json)
  | typing room user time stopped =>
    common "typing" room user time ++ if stopped then [("stopped", .bool true)] else []
  | read room user time lastReadId =>
    common "read" room user time ++ lastReadId.toList.map fun id => ("last_read_id", id)
  | presence room user time status =>
    common "presence" room user time ++ [("status", .string status)]
  | created c user time =>
    common "conversation_created" c.id user time ++
      [("conversation", .object
        ([("created_at", .string c.createdAt.text), ("created_by", .string c.createdBy), ("id", .string c.id),
          ("is_group", .bool c.isGroup)] ++ c.title.toList.map fun t => ("title", .string t)))]
  | message m =>
    [("type", .string "message"), ("id", .string m.row.id), ("conversation_id", .string m.row.room),
      ("author_id", .string m.row.author), ("body", .string m.row.body),
      ("created_at", .string m.row.createdAt.text)] ++
      (m.author.name.toList.map fun n => ("author_name", .string n)) ++
      m.author.avatar.toList.map fun a => ("author_avatar", .string a)

/-- The value that came from a client and is passed on as it is. -/
def passedOn : Told → Option Json
  | read _ _ _ lastReadId => lastReadId
  | _ => none

/-- The text is that of one object with these members. -/
theorem text_eq (e : Told) : e.text = (Json.object e.members).print := by
  cases e with
  | typing room user time stopped => cases stopped <;> rfl
  | read room user time id => cases id <;> rfl
  | presence => rfl
  | created c user time =>
    obtain ⟨id, title, isGroup, createdBy, createdAt⟩ := c
    cases title <;> rfl
  | message m =>
    obtain ⟨row, name, avatar⟩ := m
    cases name <;> cases avatar <;> rfl

theorem nodup_members (e : Told) : (e.members.map (·.1)).Nodup := by
  cases e with
  | typing room user time stopped => cases stopped <;> simp [members, common]
  | read room user time id => cases id <;> simp [members, common]
  | presence => simp [members, common]
  | created => simp [members, common]
  | message m =>
    obtain ⟨row, name, avatar⟩ := m
    cases name <;> cases avatar <;> simp [members]

/-- A property of all texts, of both words and of objects that repeat no member holds throughout what is told, if it
does throughout what is passed on. -/
theorem every_members {P : Json → Prop} (hstring : ∀ s, P (.string s)) (hbool : ∀ b, P (.bool b))
    (hobject : ∀ ms, (ms.map (·.1)).Nodup → P (.object ms)) {e : Told} (h : ∀ v ∈ e.passedOn, v.Every P) :
    (Json.object e.members).Every P := by
  rw [Every]
  refine ⟨hobject _ e.nodup_members, ?_⟩
  cases e with
  | typing room user time stopped => cases stopped <;> simp [members, common, Json.EveryMember, Every, hstring, hbool]
  | read room user time id =>
    cases id with
    | none => simp [members, common, Json.EveryMember, Every, hstring]
    | some v => simpa [members, common, Json.EveryMember, Every, hstring] using h v rfl
  | presence => simp [members, common, Json.EveryMember, Every, hstring]
  | created c user time =>
    obtain ⟨id, title, isGroup, createdBy, createdAt⟩ := c
    cases title <;> simp [members, common, Json.EveryMember, Every, hstring, hbool, hobject]
  | message m =>
    obtain ⟨row, name, avatar⟩ := m
    cases name <;> cases avatar <;> simp [members, Json.EveryMember, Every, hstring]

/-- What is told can be told from its members. -/
theorem members_inj {d e : Told} (h : d.members = e.members) : d = e := by
  -- the types differ, unless both are told in the same way
  cases d <;> cases e <;> simp [members, common, Timestamp.text_inj_iff] at h
  case typing.typing stopped _ _ _ stopped' =>
    obtain ⟨rfl, rfl, rfl, hstopped⟩ := h
    cases stopped <;> cases stopped' <;> simp_all
  case read.read id _ _ _ id' =>
    obtain ⟨rfl, rfl, rfl, hid⟩ := h
    cases id <;> cases id' <;> simp_all
  case presence.presence =>
    obtain ⟨rfl, rfl, rfl, rfl⟩ := h
    rfl
  case created.created c _ _ c' _ _ =>
    obtain ⟨id, title, isGroup, createdBy, createdAt⟩ := c
    obtain ⟨id', title', isGroup', createdBy', createdAt'⟩ := c'
    obtain ⟨rfl, rfl, rfl, rfl, rfl, -, rfl, htitle⟩ := h
    cases title <;> cases title' <;> simp_all
  case message.message m m' =>
    obtain ⟨⟨id, room, author, body, createdAt⟩, name, avatar⟩ := m
    obtain ⟨⟨id', room', author', body', createdAt'⟩, name', avatar'⟩ := m'
    obtain ⟨rfl, rfl, rfl, rfl, rfl, hauthor⟩ := h
    cases name <;> cases avatar <;> cases name' <;> cases avatar' <;> simp_all

/-- **What is sent is read as what was put in**: the text is that of one object in which no member is repeated, at
the top or further down, and whoever reads it with room for its levels reads the members with their values, in their
order; so no two things that are told differ and are sent alike. Numbers are told if they are integers of 64 bits.
-/
theorem text_decodes (e : Told) (h : ∀ v ∈ e.passedOn, v.Every Whole64) :
    (e.members.map (·.1)).Nodup ∧
    ((∀ v ∈ e.passedOn, v.Every Json.Distinct) → (Json.object e.members).Every Json.Distinct) ∧
    (∀ d, levels (.object e.members) ≤ d → parseWithin d (encode e.text) = .ok (.object e.members)) ∧
    ∀ e' : Told, (∀ v ∈ e'.passedOn, v.Every Whole64) → e'.text = e.text → e' = e := by
  have hwhole : ∀ {e : Told}, (∀ v ∈ e.passedOn, v.Every Whole64) → (Json.object e.members).Every Whole64 :=
    every_members (fun _ => trivial) (fun _ => trivial) fun _ _ => trivial
  refine ⟨e.nodup_members, every_members (fun _ => trivial) (fun _ => trivial) fun _ h => h, fun d hd => ?_, ?_⟩
  · rw [text_eq]
    exact Json.parseWithin_print (hwhole h) hd
  · intro e' h' htext
    rw [text_eq, text_eq] at htext
    exact members_inj (Json.object.inj (Json.print_inj (hwhole h') (hwhole h) htext))

/-- An event that passes on an object with a number in it. -/
theorem nested_decodes :
    let e : Told := .read "conv_1" "a\"b\\c" { micros := 1 }
        (some (.object [("at", .array [.number (.int (-3)), .null])]))
    (∀ v ∈ e.passedOn, v.Every Whole64) ∧ Json.parse (encode e.text) = .ok (.object e.members) := by
  have h : ∀ v ∈ some (Json.object [("at", .array [.number (.int (-3)), .null])]), v.Every Whole64 := by
    rintro _ ⟨⟩
    simp [Every, Json.EveryMember, Json.EveryItem, Whole64, Json.Fits]
  exact ⟨h, (Json.parse_eq_parseWithin _).trans ((text_decodes (.read _ _ _ _) h).2.2.1 Json.maxDepth (by decide))⟩

end Told

end Parley
