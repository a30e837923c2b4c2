import Parley.Glob

/-!
Names of the broker's channels: a category and a room with `:conversation:` between them. One
pattern for each category covers its channels.
-/

namespace Parley

inductive Category where
  /-- Stored messages. -/
  | messages
  /-- Typing, reading, new conversations. -/
  | events
  /-- Presence. -/
  | presence
deriving DecidableEq, Repr, Inhabited

namespace Category

def all : List Category := [.messages, .events, .presence]

def name : Category → String
  | .messages => "messages"
  | .events => "events"
  | .presence => "presence"

def ofName? (s : String) : Option Category := all.find? (·.name == s)

/-- What stands between the category and the room. -/
def infixText : String := ":conversation:"

def channel (c : Category) (room : String) : String := c.name ++ infixText ++ room

def pattern (c : Category) : String := c.name ++ infixText ++ "*"

end Category

/-- What stands between the first colon and the room. -/
def Channel.segment : List Char := "conversation:".toList

/-- The category and the room of a channel; a room is never empty. -/
def Channel.parse? (channel : String) : Option (Category × String) := do
  let cs := channel.toList
  guard (cs.contains ':')
  let rest := (cs.dropWhile (· != ':')).drop 1
  guard (Channel.segment.isPrefixOf rest)
  let room := rest.drop Channel.segment.length
  guard !room.isEmpty
  let category ← Category.ofName? (String.ofList (cs.takeWhile (· != ':')))
  return (category, String.ofList room)

end Parley
