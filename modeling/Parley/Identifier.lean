/-!
Identifiers: a word that tells the kind, an underscore, and twenty-six digits of base thirty-two
that sort by time. A supply gives a new number with every draw, so no two draws give the same
identifier.
-/

namespace Parley

inductive Kind where
  | user
  | conversation
  | message
  | connection
deriving DecidableEq, Repr

def Kind.word : Kind → String
  | .user => "usr"
  | .conversation => "conv"
  | .message => "msg"
  | .connection => "conn"

def Kind.name : Kind → String
  | .user => "user"
  | .conversation => "conversation"
  | .message => "message"
  | .connection => "connection"

def Kind.ofName? (s : String) : Option Kind :=
  [Kind.user, .conversation, .message, .connection].find? (·.name == s)

namespace Identifier

/-- The digits of base thirty-two: letters that are easily misread are left out. -/
def alphabet : List Char := "0123456789ABCDEFGHJKMNPQRSTVWXYZ".toList

def digit (n : Nat) : Char := alphabet.getD (n % 32) '0'

/-- The last `width` digits of a number in base thirty-two. -/
def digits : Nat → Nat → List Char
  | 0, _ => []
  | width + 1, n => digits width (n / 32) ++ [digit n]

/-- The number of digits that 128 bits need. -/
def width : Nat := 26

/-- The identifier of a number of 128 bits, with a word before it. -/
def text (word : String) (n : Nat) : String := word ++ "_" ++ String.ofList (digits width (n % Nat.pow 2 128))

end Identifier

/-- A supply of identifiers: the milliseconds at which it was set up, and how many were drawn. -/
structure Supply where
  millis : Nat := 0
  drawn : Nat := 0
deriving DecidableEq, Repr, Inhabited

namespace Supply

def drawWord (s : Supply) (word : String) : String × Supply :=
  (Identifier.text word (s.millis * Nat.pow 2 80 + s.drawn), { s with drawn := s.drawn + 1 })

def draw (s : Supply) (kind : Kind) : String × Supply := s.drawWord kind.word

end Supply

end Parley
