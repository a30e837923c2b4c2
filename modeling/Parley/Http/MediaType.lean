import Parley.Text.Utf8

/-!
Media types as a request states them: a type, a slash, a subtype that may end in a suffix after a
plus sign, and parameters, each after a semicolon. Main question: is the content JSON?
-/

namespace Parley.Http

def isTokenChar (c : Char) : Bool := c.isAlphanum || "!#$%&'*+-.^_\x60|~".toList.contains c

/-- A media type without its parameters, in lower case. -/
structure MediaType where
  type : List Char
  /-- All that stands between the slash and the parameters. -/
  subtype : List Char
deriving DecidableEq, Repr

namespace MediaType

/-! ### Parameters -/

/-- A place in the parameters. A quoted value is not empty: a quote right after the opening one is
part of it. -/
inductive Place where
  /-- Before a name; blanks may stand here. -/
  | start
  | name
  /-- After the equals sign. -/
  | valueStart
  | value
  /-- After the opening quote. -/
  | quotedStart
  | quoted
  /-- After the closing quote. -/
  | closed
deriving DecidableEq, Repr

/-- The place after one more character, if it may stand there. -/
def Place.next? : Place → Char → Option Place
  | .start, c => if c == ' ' then some .start else if isTokenChar c then some .name else none
  | .name, c => if c == '=' then some .valueStart else if isTokenChar c then some .name else none
  | .valueStart, c => if c == '"' then some .quotedStart else if isTokenChar c then some .value else none
  | .value, c => if c == ';' then some .start else if isTokenChar c then some .value else none
  | .quotedStart, c => if c.toNat < 32 || c.toNat == 127 then none else some .quoted
  | .quoted, c =>
    if c == '"' then some .closed else if c.toNat < 32 || c.toNat == 127 then none else some .quoted
  | .closed, c => if c == ';' then some .start else if c == ' ' then some .closed else none

/-- Whether parameters may end here. -/
def Place.isEnd : Place → Bool
  | .start | .valueStart | .value | .closed => true
  | .name | .quotedStart | .quoted => false

def areParameters (cs : List Char) : Bool :=
  ((cs.foldl (fun p c => p.bind (·.next? c)) (some Place.start)).map Place.isEnd).getD false

/-! ### Reading -/

def parse? (cs : List Char) : Option MediaType :=
  let type := cs.takeWhile (· != '/')
  let rest := (cs.dropWhile (· != '/')).drop 1
  let subtype := rest.takeWhile (· != ';')
  let parameters := (rest.dropWhile (· != ';')).drop 1
  if !cs.contains '/' || type.isEmpty || !type.all isTokenChar || !subtype.all isTokenChar then none
  else if rest.contains ';' && (subtype.isEmpty || !areParameters parameters) then none
  else some ⟨type.map Char.toLower, subtype.map Char.toLower⟩

/-- Where the last plus sign stands that is not the first character. -/
def plus? (subtype : List Char) : Option Nat :=
  ((List.range subtype.length).filter fun i => 0 < i && subtype[i]? == some '+').getLast?

def isJson (m : MediaType) : Bool :=
  m.type == "application".toList &&
    match plus? m.subtype with
    | none => m.subtype == "json".toList
    | some i => m.subtype.take i == "json".toList || m.subtype.drop (i + 1) == "json".toList

end MediaType

end Parley.Http
