import Parley.Text.Lowercase
import Parley.Text.Suffixes

/-!
Patterns of text search: `%` is any sequence, `_` any one character, and a backslash makes the next
character stand for itself. `containing` is the pattern for a text anywhere inside another.
-/

namespace Parley.Like

/-- Whether a character has a meaning of its own in a pattern. -/
def isSpecial (c : Char) : Bool := c == '%' || c == '_' || c == '\\'

/-- The text with each special character made to stand for itself. -/
def escape (query : List Char) : List Char :=
  query.flatMap fun c => if isSpecial c then ['\\', c] else [c]

def containing (query : String) : String := "%" ++ String.ofList (escape query.toList) ++ "%"

inductive Part where
  | char (c : Char)
  | anyChar
  | anySequence
deriving DecidableEq, Repr

/-- The parts of a pattern; nothing for one that ends in a backslash. -/
def parts? : List Char → Option (List Part)
  | [] => some []
  | '\\' :: c :: rest => (parts? rest).map (.char c :: ·)
  | ['\\'] => none
  | '%' :: rest => (parts? rest).map (.anySequence :: ·)
  | '_' :: rest => (parts? rest).map (.anyChar :: ·)
  | c :: rest => (parts? rest).map (.char c :: ·)

/-- Whether the parts match the whole text, characters being compared with `same`. -/
def matchParts (same : Char → Char → Bool) : List Part → List Char → Bool
  | [], s => s.isEmpty
  | .anySequence :: ps, s => (Text.suffixes s).any fun r => matchParts same ps r
  | .char c :: ps, s =>
    match s with
    | d :: s => same c d && matchParts same ps s
    | [] => false
  | .anyChar :: ps, s =>
    match s with
    | _ :: s => matchParts same ps s
    | [] => false

def accepts (same : Char → Char → Bool) (pattern text : String) : Bool :=
  match parts? pattern.toList with
  | some ps => matchParts same ps text.toList
  | none => false

def sameLetter (a b : Char) : Bool := Text.lowerChar a == Text.lowerChar b

end Parley.Like
