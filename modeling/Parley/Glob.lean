import Parley.Text.Suffixes

/-!
Patterns over names, as subscriptions use them: `?` is any character, `*` any sequence, `**` whole
components between slashes, `[...]` one character of a set and `[!...]` one outside it.

Main definitions: `Glob.parse`, with the place and the reason of a fault, and `Glob.accepts`.
-/

namespace Parley

/-- A character of a set, or a range of them with both ends. -/
inductive Glob.Span where
  | one (c : Char)
  | range (lo hi : Char)
deriving DecidableEq, Repr

inductive Glob.Part where
  | char (c : Char)
  | anyChar
  | anySequence
  | anyComponents
  | within (spans : List Glob.Span)
  | except (spans : List Glob.Span)
deriving DecidableEq, Repr

structure Glob where
  parts : List Glob.Part
deriving DecidableEq, Repr

namespace Glob

/-- Why a text is not a pattern, and where: the number of characters before the place. -/
inductive Fault where
  | stars (place : Nat)
  | components (place : Nat)
  | range (place : Nat)
deriving DecidableEq, Repr

def Fault.message : Fault → String
  | .stars p => "Pattern syntax error near position " ++ toString p ++
      ": wildcards are either regular `*` or recursive `**`"
  | .components p => "Pattern syntax error near position " ++ toString p ++
      ": recursive wildcards must form a single path component"
  | .range p => "Pattern syntax error near position " ++ toString p ++ ": invalid range pattern"

/-! ### Reading -/

/-- The members of a set: three characters with a dash in the middle are a range. -/
def spans : List Char → List Span
  | a :: '-' :: b :: rest => .range a b :: spans rest
  | c :: rest => .one c :: spans rest
  | [] => []

/-- What is before the first closing bracket, and what after it. The first character of a set never
closes it. -/
def splitSet : List Char → Option (List Char × List Char)
  | [] => none
  | c :: rest =>
    if rest.contains ']' then
      some (c :: rest.takeWhile (· != ']'), (rest.dropWhile (· != ']')).drop 1)
    else none

/-- A set and what follows it, after the opening bracket. -/
def readSet (cs : List Char) : Option (Part × List Char) :=
  match cs with
  | '!' :: rest => (splitSet rest).map fun (set, after) => (.except (spans set), after)
  | cs => (splitSet cs).map fun (set, after) => (.within (spans set), after)

/-- The parts with one more for whole components, unless the last of several is one already. -/
def pushComponents : List Part → List Part
  | .anyComponents :: p :: rest => .anyComponents :: p :: rest
  | parts => .anyComponents :: parts

/-- Reads on at `place`, after the character `before`; `acc` holds the parts read, the last first. -/
def readFrom (fuel place : Nat) (before : Option Char) (acc : List Part) (cs : List Char) :
    Except Fault (List Part) :=
  match fuel with
  | 0 => .ok acc.reverse
  | fuel + 1 =>
    match cs with
    | [] => .ok acc.reverse
    | '?' :: rest => readFrom fuel (place + 1) (some '?') (.anyChar :: acc) rest
    | '*' :: '*' :: '*' :: _ => .error (.stars (place + 2))
    | '*' :: '*' :: rest =>
      if before = none ∨ before = some '/' then
        match rest with
        | [] => .ok (pushComponents acc).reverse
        | '/' :: rest => readFrom fuel (place + 3) (some '/') (pushComponents acc) rest
        | _ => .error (.components (place + 2))
      else .error (.components (place - 1))
    | '*' :: rest => readFrom fuel (place + 1) (some '*') (.anySequence :: acc) rest
    | '[' :: rest =>
      match readSet rest with
      | some (part, after) => readFrom fuel (place + 1 + (rest.length - after.length)) (some ']') (part :: acc) after
      | none => .error (.range place)
    | c :: rest => readFrom fuel (place + 1) (some c) (.char c :: acc) rest

def parse (s : String) : Except Fault Glob :=
  (readFrom (s.length + 1) 0 none [] s.toList).map Glob.mk

/-! ### Matching -/

def inSpans (set : List Span) (c : Char) : Bool :=
  set.any fun
    | .one d => c == d
    | .range lo hi => lo ≤ c && c ≤ hi

/-- What remains of the text after each slash, and after all of it. -/
def componentSuffixes : List Char → List (List Char)
  | [] => [[]]
  | c :: s => if c == '/' then s :: componentSuffixes s else componentSuffixes s

/-- Whether the parts match the whole text. -/
def matchParts : List Part → List Char → Bool
  | [], s => s.isEmpty
  | .anySequence :: ps, s => (Text.suffixes s).any fun r => matchParts ps r
  | .anyComponents :: ps, s => (s :: componentSuffixes s).any fun r => matchParts ps r
  | .char c :: ps, s =>
    match s with
    | d :: s => d == c && matchParts ps s
    | [] => false
  | .anyChar :: ps, s =>
    match s with
    | _ :: s => matchParts ps s
    | [] => false
  | .within set :: ps, s =>
    match s with
    | d :: s => inSpans set d && matchParts ps s
    | [] => false
  | .except set :: ps, s =>
    match s with
    | d :: s => !inSpans set d && matchParts ps s
    | [] => false

def accepts (g : Glob) (name : String) : Bool := matchParts g.parts name.toList

end Glob

end Parley
