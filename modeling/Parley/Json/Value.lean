import Parley.Number.Binary64

/-!
JSON values. An object keeps its members as they are written, in order and repeated where they
are repeated; `canonical` is the same value as a map: members sorted by name, the last of each name.
-/

namespace Parley

/-- A JSON number: an integer of 64 bits, or a floating-point number. -/
inductive Json.Number where
  | int (n : Int)
  | real (x : Parley.Number.Binary64)
deriving DecidableEq, Repr, Inhabited

inductive Json where
  | null
  | bool (b : Bool)
  | number (n : Json.Number)
  | string (s : String)
  | array (items : List Json)
  | object (members : List (String × Json))
deriving Repr, Inhabited, BEq

namespace Json

/-- The members with `value` under `name`, in the order of the names. -/
def insertMember (name : String) (value : Json) : List (String × Json) → List (String × Json)
  | [] => [(name, value)]
  | (n, v) :: rest =>
    if name = n then (name, value) :: rest
    else if name < n then (name, value) :: (n, v) :: rest
    else (n, v) :: insertMember name value rest

/-- The members of a map: sorted by name, a later one replacing an earlier one of the same name. -/
def sortMembers (members : List (String × Json)) : List (String × Json) :=
  members.foldl (fun acc (n, v) => insertMember n v acc) []

mutual

/-- The value with every object turned into a map. -/
def canonical : Json → Json
  | .array items => .array (canonicalItems items)
  | .object members => .object (sortMembers (canonicalMembers members))
  | v => v

def canonicalItems : List Json → List Json
  | [] => []
  | v :: rest => canonical v :: canonicalItems rest

def canonicalMembers : List (String × Json) → List (String × Json)
  | [] => []
  | (n, v) :: rest => (n, canonical v) :: canonicalMembers rest

end

/-- The value under a name, the last if there are several. -/
def member? (name : String) (members : List (String × Json)) : Option Json :=
  (members.reverse.find? (·.1 == name)).map (·.2)

/-- The member `name` if there is a value for it, and nothing otherwise. -/
def optionalMember (name : String) (value : Option Json) : List (String × Json) :=
  match value with
  | some v => [(name, v)]
  | none => []

end Json

end Parley
