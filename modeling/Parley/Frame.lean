import Parley.Json.Reader

/-!
Frames that clients send. A frame is a JSON object with one member `type`, or an array that begins
with the type; what else it may hold depends on the type. Members that the type does not know are
passed over, the sender's claims about room and person among them.

Main definition: `ClientFrame.parse`, with the first problem from left to right as its error.
-/

namespace Parley

inductive ClientFrame where
  /-- The person types, or has stopped. -/
  | typing (stopped : Bool)
  /-- The person has read up to a place; a `null` sent as such is kept. -/
  | read (lastReadId : Option Json)
  /-- The person is present, with a status. -/
  | presence (status : Option String)
  /-- A type that is not known. -/
  | unknown
deriving Repr, Inhabited

namespace ClientFrame

open Json (Fault Read)
open Json.Reader

/-- What stands beside the type of a frame. -/
inductive Payload where
  | members (ms : List (String × Json))
  | items (xs : List Json)

/-- The members of a frame up to its closing brace, the type apart. A second type is refused where
its name ends. -/
def readMembers (fuel : Nat) (mark : Mark) (tag : Option String) (acc : List (String × Json)) (s : Bytes) :
    Read (String × Payload) :=
  match fuel with
  | 0 => .error .malformed
  | fuel + 1 =>
    match nextName mark s with
    | .error e => .error e
    | .ok (.close s) =>
      match tag with
      | some t => .ok ((t, .members acc.reverse), s)
      | none => .error .mismatched
    | .ok (.more s) =>
      match stringRest [] s with
      | .error e => .error e
      | .ok (name, s) =>
        if name == "type" then
          if tag.isSome then .error .mismatched
          else match colon s with
            | .error e => .error e
            | .ok s =>
              match text s with
              | .error e => .error e
              | .ok (t, s) => readMembers fuel .later (some t) acc s
        else match colon s with
          | .error e => .error e
          | .ok s =>
            match value fuel (Json.maxDepth - 1) s with
            | .error e => .error e
            | .ok (v, s) => readMembers fuel .later tag ((name, v) :: acc) s

/-- A frame written as an array: the type, then the rest. -/
def readItems (fuel : Nat) (s : Bytes) : Read (String × Payload) :=
  match nextItem .first s with
  | .error e => .error e
  | .ok (.close _) => .error .mismatched
  | .ok (.more s) =>
    match text s with
    | .error e => .error e
    | .ok (t, s) => (elements fuel (Json.maxDepth - 1) .later [] s).to fun xs => (t, .items xs)

/-- The type of a frame and what stands beside it. -/
def readTagged (s : Bytes) : Read (String × Payload) :=
  let fuel := fuelFor s
  match skip s with
  | [] => .error .ended
  | b :: r =>
    if b == 0x7B then readMembers fuel .first none [] r
    else if b == 0x5B then readItems fuel r
    else match value fuel Json.maxDepth (b :: r) with
      | .error e => .error e
      | .ok _ => .error .mismatched

/-- The values of all members of one name. -/
def named (name : String) (ms : List (String × Json)) : List Json :=
  (ms.filter (·.1 == name)).map (·.2)

/-- The one argument of a frame, by its name among the members or as the only other item. -/
def argument (name : String) : Payload → Except Fault (Option Json)
  | .members ms =>
    match named name ms with
    | [] => .ok none
    | [v] => .ok (some v)
    | _ => .error .mismatched
  | .items [] => .ok none
  | .items [v] => .ok (some v)
  | .items _ => .error .mismatched

def ofTagged (tag : String) (payload : Payload) : Except Fault ClientFrame :=
  if tag == "typing" then
    match argument "stopped" payload with
    | .ok none => .ok (.typing false)
    | .ok (some (.bool b)) => .ok (.typing b)
    | .ok (some _) => .error .mismatched
    | .error e => .error e
  else if tag == "read" then (argument "last_read_id" payload).map fun v => .read (v.map Json.canonical)
  else if tag == "presence" then
    match argument "status" payload with
    | .ok none => .ok (.presence none)
    | .ok (some .null) => .ok (.presence none)
    | .ok (some (.string t)) => .ok (.presence (some t))
    | .ok (some _) => .error .mismatched
    | .error e => .error e
  else match payload with
    | .items (_ :: _) => .error .mismatched
    | _ => .ok .unknown

def parse (raw : Bytes) : Except Fault ClientFrame :=
  match readTagged raw with
  | .error e => .error e
  | .ok ((tag, payload), rest) =>
    match ofTagged tag payload with
    | .error e => .error e
    | .ok frame => finish frame rest

end ClientFrame

end Parley
