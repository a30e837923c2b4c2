/-!
How a call to a store can fail.
-/

namespace Parley.Store

inductive ErrorKind where
  /-- The request makes no sense. -/
  | invalid
  /-- What is asked for exists already. -/
  | conflict
  /-- A statement failed. -/
  | database
  /-- The store cannot be reached. -/
  | unavailable
deriving DecidableEq, Repr, Inhabited

def ErrorKind.name : ErrorKind → String
  | .invalid => "invalid"
  | .conflict => "conflict"
  | .database => "database"
  | .unavailable => "unavailable"

def ErrorKind.ofName? (s : String) : Option ErrorKind :=
  [ErrorKind.invalid, .conflict, .database, .unavailable].find? (·.name == s)

structure Error where
  kind : ErrorKind
  detail : String
deriving DecidableEq, Repr, Inhabited

def Error.message (e : Error) : String :=
  match e.kind with
  | .invalid | .conflict => e.detail
  | .database => "database error: " ++ e.detail
  | .unavailable => "store unavailable: " ++ e.detail

/-- A direct conversation with no other person or with several. -/
def Error.notDirect : Error := ⟨.invalid, "a direct conversation needs exactly one other participant"⟩

/-- A second direct conversation of the same two. -/
def Error.directExists : Error := ⟨.conflict, "direct conversation between these users already exists"⟩

end Parley.Store
